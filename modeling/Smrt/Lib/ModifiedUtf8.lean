import Smrt.Lib.Lossy

/-!
# Modified UTF-8

Some write a text as the units of UTF-16 that it is made of, each as a character of its own in
UTF-8, and a zero as two bytes, so that no zero is written. A text is then of characters and of
halves of pairs, which are not characters (`Letter`).

Read as UTF-8, with a mark for what is none (`lossy_write`), characters are as they were that are
one unit and not zero (`Plain`). The others become several marks (`mangle`), so that a text is as it
was only if it has none of them (`mangle_eq_iff`).
-/

namespace Smrt

/-- A character, or half of a pair that the other half of is not there. -/
inductive Letter
  | char (c : Char)
  | half (n : Fin 2048)

abbrev Text := List Letter

namespace Letter

/-- Half of a pair in three bytes. -/
def writeHalf (n : ℕ) : List UInt8 :=
  [0xed, UInt8.ofNat (0xa0 + n / 64), UInt8.ofNat (0x80 + n % 64)]

def write : Letter → List UInt8
  | .half n => writeHalf n
  | .char c =>
    if c.toNat = 0 then [0xc0, 0x80]
    else if c.toNat < 0x10000 then String.utf8EncodeChar c
    else writeHalf ((c.toNat - 0x10000) / 1024) ++ writeHalf (1024 + (c.toNat - 0x10000) % 1024)

/-- A character that is written as it is in UTF-8. -/
def Plain : Letter → Prop
  | .half _ => False
  | .char c => c.toNat ≠ 0 ∧ c.toNat < 0x10000

/-- What a letter becomes. -/
def mangle : Letter → List Char
  | .half _ => List.replicate 3 replacement
  | .char c =>
    if c.toNat = 0 then List.replicate 2 replacement
    else if c.toNat < 0x10000 then [c]
    else List.replicate 6 replacement

end Letter

namespace Text

/-- A text that is of characters. -/
def ofString (s : String) : Text := s.toList.map .char

def write (t : Text) : List UInt8 := t.flatMap Letter.write

def Plain (t : Text) : Prop := ∀ l ∈ t, l.Plain

def mangle (t : Text) : List Char := t.flatMap Letter.mangle

end Text

/-! ## What is read -/

section Lossy

variable {rest l : List UInt8} {a b : UInt8} {t : Text} {cs : List Char}

/-- No character begins with a byte that continues one. -/
theorem first_utf8EncodeChar {c : Char} (h : String.utf8EncodeChar c = a :: l) :
    a.toNat < 0x80 ∨ 0xc2 ≤ a.toNat := by
  rw [String.utf8EncodeChar] at h
  split_ifs at h
  all_goals
    obtain ⟨rfl, -⟩ := List.cons.inj h
    rw [UInt8.toNat_ofNat']
    omega

/-- No character is half of a pair. -/
theorem second_utf8EncodeChar {c : Char} (h : String.utf8EncodeChar c = 0xed :: l) :
    ∃ b rest, l = b :: rest ∧ b.toNat < 0xa0 := by
  have hvalid := c.valid
  have hfirst (n : ℕ) (hn : n < 256) (h : UInt8.ofNat n = 0xed) : n = 0xed := by
    have hnat := congrArg UInt8.toNat h
    rw [UInt8.toNat_ofNat', Nat.mod_eq_of_lt hn] at hnat
    exact hnat
  rw [UInt32.isValidChar, Nat.isValidChar] at hvalid
  rw [String.utf8EncodeChar] at h
  split_ifs at h
  all_goals
    obtain ⟨ha, rfl⟩ := List.cons.inj h
    have hv := hfirst _ (by omega) ha
  · omega
  all_goals
    refine ⟨_, _, rfl, ?_⟩
    rw [UInt8.toNat_ofNat']
    omega

/-- The bytes of a character that is decoded come first. -/
theorem decodeChar?_cons {c : Char} (h : decodeChar? (a :: l) = some c) :
    ∃ l' rest, String.utf8EncodeChar c = a :: l' ∧ l = l' ++ rest := by
  have heq := eq_of_decodeChar? h
  rcases hc : String.utf8EncodeChar c with _ | ⟨b, l'⟩
  all_goals rw [hc] at heq
  · have hlen := String.length_utf8EncodeChar c
    rw [hc, List.length_nil] at hlen
    exact absurd hlen.symm c.utf8Size_pos.ne'
  · obtain ⟨rfl, htail⟩ := List.cons.inj heq
    exact ⟨l', _, rfl, htail⟩

/-- A byte that continues a character, where none is, is a mark. -/
theorem lossy_stray (h : 0x80 ≤ a.toNat) (h' : a.toNat < 0xc2) :
    lossy (a :: rest) = replacement :: lossy rest := by
  have hnone : decodeChar? (a :: rest) = none := by
    rcases hdecode : decodeChar? (a :: rest) with _ | c
    · rfl
    · obtain ⟨l', rest, hc, -⟩ := decodeChar?_cons hdecode
      have := first_utf8EncodeChar hc
      omega
  have hone : brokenLength (a :: rest) = 1 := by
    rcases rest with _ | ⟨b, rest⟩
    · rfl
    refine brokenLength_eq_one ?_
    have hne (n : UInt8) (hn : 0xc2 ≤ n.toNat) : a ≠ n := fun h => by
      rw [h] at h'
      omega
    have hlt : ¬ (0xe1 : UInt8) ≤ a := by
      rw [UInt8.le_iff_toNat_le]
      exact Nat.not_le_of_lt (h'.trans (by decide))
    rw [continuesFirst, if_neg (hne _ (by decide)), if_neg (hne _ (by decide)),
      if_neg (hne _ (by decide)), if_neg (hne _ (by decide)), decide_eq_false hlt,
      Bool.false_and, Bool.false_and]
  rw [lossy_broken hnone, hone]
  rfl

/-- Half of a pair is three marks. -/
theorem lossy_writeHalf {n : ℕ} (hn : n < 2048) :
    lossy (Letter.writeHalf n ++ rest) = List.replicate 3 replacement ++ lossy rest := by
  have hsecond : (UInt8.ofNat (0xa0 + n / 64)).toNat = 0xa0 + n / 64 := by
    rw [UInt8.toNat_ofNat']
    omega
  have hthird : (UInt8.ofNat (0x80 + n % 64)).toNat = 0x80 + n % 64 := by
    rw [UInt8.toNat_ofNat']
    omega
  have hnone (l : List UInt8) :
      decodeChar? (0xed :: UInt8.ofNat (0xa0 + n / 64) :: l) = none := by
    rcases hdecode : decodeChar? (0xed :: UInt8.ofNat (0xa0 + n / 64) :: l) with _ | c
    · rfl
    · obtain ⟨l', rest, hc, hl⟩ := decodeChar?_cons hdecode
      obtain ⟨b, l', rfl, hb⟩ := second_utf8EncodeChar hc
      obtain ⟨rfl, -⟩ := List.cons.inj hl
      omega
  have hone (l : List UInt8) :
      brokenLength (0xed :: UInt8.ofNat (0xa0 + n / 64) :: l) = 1 := by
    have hgt : ¬ UInt8.ofNat (0xa0 + n / 64) ≤ 0x9f := by
      rw [UInt8.le_iff_toNat_le, hsecond]
      exact Nat.not_le_of_lt (Nat.lt_of_lt_of_le (by decide) (Nat.le_add_right _ _))
    refine brokenLength_eq_one ?_
    rw [continuesFirst, if_neg (by decide), if_pos rfl, decide_eq_false hgt, Bool.and_false]
  rw [Letter.writeHalf, List.cons_append, List.cons_append, List.cons_append, List.nil_append,
    lossy_broken (hnone _), hone, List.drop_one, List.tail_cons,
    lossy_stray (by omega) (by omega), lossy_stray (by omega) (by omega)]
  rfl

theorem lossy_letter (x : Letter) : lossy (x.write ++ rest) = x.mangle ++ lossy rest := by
  rcases x with c | n
  · rw [Letter.write, Letter.mangle]
    by_cases hzero : c.toNat = 0
    · rw [if_pos hzero, if_pos hzero, List.cons_append, List.cons_append, List.nil_append,
        lossy_stray (by decide) (by decide), lossy_stray (by decide) (by decide)]
      rfl
    rw [if_neg hzero, if_neg hzero]
    by_cases hunit : c.toNat < 0x10000
    · rw [if_pos hunit, if_pos hunit, lossy_encode_cons]
      rfl
    · have hvalid := c.valid
      have hc : c.toNat = c.val.toNat := rfl
      rw [UInt32.isValidChar, Nat.isValidChar] at hvalid
      rw [if_neg hunit, if_neg hunit, List.append_assoc, lossy_writeHalf (by omega),
        lossy_writeHalf (by omega)]
      rfl
  · exact lossy_writeHalf n.isLt

/-- A text that is written is read with marks for what is not plain. -/
theorem lossy_write : lossy t.write = t.mangle := by
  induction t with
  | nil => rfl
  | cons x t ih =>
    rw [Text.write, List.flatMap_cons, lossy_letter, Text.mangle, List.flatMap_cons]
    exact congrArg (x.mangle ++ ·) ih

end Lossy

namespace Text

variable {t : Text} {cs : List Char} {x : Letter} {c : Char}

theorem mangle_cons : mangle (x :: t) = x.mangle ++ mangle t := List.flatMap_cons

theorem plain_cons : Plain (x :: t) ↔ x.Plain ∧ Plain t := List.forall_mem_cons

theorem mangle_of_plain (h : (Letter.char c).Plain) : (Letter.char c).mangle = [c] := by
  rw [Letter.mangle, if_neg h.1, if_pos h.2]

/-- What is not plain becomes more than one mark. -/
theorem mangle_of_not_plain (h : ¬ x.Plain) :
    ∃ n, x.mangle = List.replicate (n + 2) replacement := by
  rcases x with c | n
  · rw [Letter.mangle]
    by_cases hzero : c.toNat = 0
    · exact ⟨0, by rw [if_pos hzero]⟩
    by_cases hunit : c.toNat < 0x10000
    · exact absurd ⟨hzero, hunit⟩ h
    · exact ⟨4, by rw [if_neg hzero, if_neg hunit]⟩
  · exact ⟨1, rfl⟩

/-- A letter is read as it is, or as marks. -/
theorem mangle_cases (x : Letter) : (∃ c, x = .char c ∧ x.mangle = [c]) ∨
    ∃ n, x.mangle = List.replicate (n + 2) replacement := by
  by_cases hplain : x.Plain
  · rcases x with c | n
    · exact .inl ⟨c, rfl, mangle_of_plain hplain⟩
    · exact hplain.elim
  · exact .inr (mangle_of_not_plain hplain)

/-- What is read is plain. -/
theorem plain_mangle (t : Text) : ∀ c ∈ t.mangle, (Letter.char c).Plain := by
  intro c hc
  obtain ⟨x, -, hx⟩ := List.mem_flatMap.1 hc
  by_cases hplain : x.Plain
  · rcases x with d | n
    · rw [mangle_of_plain hplain, List.mem_singleton] at hx
      rwa [hx]
    · exact hplain.elim
  · obtain ⟨n, hn⟩ := mangle_of_not_plain hplain
    rw [hn] at hx
    rw [List.eq_of_mem_replicate hx]
    exact ⟨by decide, by decide⟩

/-- A text is read as it is if and only if it is plain. -/
theorem mangle_eq_iff : t.mangle.map Letter.char = t ↔ t.Plain := by
  refine ⟨fun h x hx => ?_, fun h => ?_⟩
  · rw [← h] at hx
    obtain ⟨c, hc, rfl⟩ := List.mem_map.1 hx
    exact plain_mangle t c hc
  · induction t with
    | nil => rfl
    | cons x t ih =>
      obtain ⟨hx, ht⟩ := plain_cons.1 h
      rcases x with c | n
      · rw [mangle_cons, mangle_of_plain hx, List.singleton_append, List.map_cons, ih ht]
      · exact hx.elim

/-- Characters without a mark are read only of these characters. -/
theorem mangle_eq_of_not_mem (h : replacement ∉ cs) (ht : t.mangle = cs) :
    t = cs.map Letter.char := by
  have hplain : t.Plain := by
    intro x hx
    by_contra hno
    obtain ⟨n, hn⟩ := mangle_of_not_plain hno
    refine h (ht ▸ List.mem_flatMap.2 ⟨x, hx, ?_⟩)
    rw [hn]
    exact List.mem_replicate.2 ⟨Nat.succ_ne_zero _, rfl⟩
  rw [← ht, mangle_eq_iff.2 hplain]

end Text

end Smrt
