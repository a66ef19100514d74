import Mathlib.Data.String.Basic

/-!
# Bytes as text, whatever they are

Bytes that are not UTF-8 are read as a text too (`fromUtf8Lossy`): where no character is encoded,
the longest beginning of one that there is stands for a mark.
-/

namespace Smrt

/-- The mark for what is not a character. -/
def replacement : Char := Char.ofNat 0xfffd

/-- The character that is encoded at the start of the bytes. -/
def decodeChar? (l : List UInt8) : Option Char := l.toByteArray.utf8DecodeChar? 0

/-- A byte that continues a character. -/
def continues (b : UInt8) : Bool := 0x80 ≤ b && b ≤ 0xbf

/-- A byte that can come second in a character of three bytes or four, after such a first one. -/
def continuesFirst (a b : UInt8) : Bool :=
  if a = 0xe0 then 0xa0 ≤ b && b ≤ 0xbf
  else if a = 0xed then 0x80 ≤ b && b ≤ 0x9f
  else if a = 0xf0 then 0x90 ≤ b && b ≤ 0xbf
  else if a = 0xf4 then 0x80 ≤ b && b ≤ 0x8f
  else 0xe1 ≤ a && a ≤ 0xf3 && continues b

/-- How many bytes are the beginning of a character that does not go on. -/
def brokenLength : List UInt8 → ℕ
  | a :: b :: rest =>
    if continuesFirst a b then
      match rest with
      | c :: _ => if 0xf0 ≤ a && continues c then 3 else 2
      | [] => 2
    else 1
  | _ => 1

/-- The text of so many bytes at most. -/
def lossyFrom : ℕ → List UInt8 → List Char
  | 0, _ => []
  | _ + 1, [] => []
  | fuel + 1, b :: l =>
    match decodeChar? (b :: l) with
    | some c => c :: lossyFrom fuel ((b :: l).drop c.utf8Size)
    | none => replacement :: lossyFrom fuel ((b :: l).drop (brokenLength (b :: l)))

def lossy (l : List UInt8) : List Char := lossyFrom l.length l

def fromUtf8Lossy (l : List UInt8) : String := String.ofList (lossy l)

/-! ## Characters in bytes -/

section Bytes

variable {c : Char}

/-- A character is one byte, or several of which none is a character of one byte. -/
theorem utf8EncodeChar_cases (c : Char) :
    (c.toNat < 128 ∧ String.utf8EncodeChar c = [UInt8.ofNat c.toNat]) ∨
    (128 ≤ c.toNat ∧ ∀ b ∈ String.utf8EncodeChar c, 128 ≤ b.toNat) := by
  have hc : c.toNat = c.val.toNat := rfl
  by_cases h : c.toNat < 128
  · refine .inl ⟨h, ?_⟩
    rw [String.utf8EncodeChar, if_pos (by omega)]
    rfl
  · refine .inr ⟨by omega, fun b hb => ?_⟩
    rw [String.utf8EncodeChar, if_neg (by omega)] at hb
    have hle (n : ℕ) (h : 128 ≤ n) (h' : n < 256) : 128 ≤ (UInt8.ofNat n).toNat := by
      rw [UInt8.toNat_ofNat']
      omega
    split_ifs at hb
    all_goals
      simp only [List.mem_cons, List.not_mem_nil, or_false] at hb
    · rcases hb with rfl | rfl
      all_goals exact hle _ (by omega) (by omega)
    · rcases hb with rfl | rfl | rfl
      all_goals exact hle _ (by omega) (by omega)
    · rcases hb with rfl | rfl | rfl | rfl
      all_goals exact hle _ (by omega) (by omega)

/-- A byte of a character is this character of one byte only if it is all of it. -/
theorem eq_of_mem_utf8EncodeChar {d : Char} (hd : d.toNat < 128) {b : UInt8}
    (hb : b ∈ String.utf8EncodeChar c) (he : b = d.toUInt8) : c = d := by
  have hval : b.toNat = d.toNat := by
    have hsame : d.toUInt8 = UInt8.ofNat d.toNat := rfl
    rw [he, hsame, UInt8.toNat_ofNat']
    omega
  obtain ⟨hc, hone⟩ | ⟨-, hall⟩ := utf8EncodeChar_cases c
  · rw [hone, List.mem_singleton] at hb
    rw [hb, UInt8.toNat_ofNat', Nat.mod_eq_of_lt (by omega)] at hval
    exact Char.toNat_inj.1 hval
  · have := hall b hb
    omega

end Bytes

/-! ## Reading -/

section Lossy

variable {l rest : List UInt8} {b : UInt8} {c : Char} {text : List Char} {fuel fuel' : ℕ}

theorem decodeChar?_encode : decodeChar? (String.utf8EncodeChar c ++ rest) = some c := by
  rw [decodeChar?, List.toByteArray_append]
  exact ByteArray.utf8DecodeChar?_utf8EncodeChar_append

/-- What is decoded was encoded. -/
theorem eq_of_decodeChar? (h : decodeChar? l = some c) :
    l = String.utf8EncodeChar c ++ l.drop c.utf8Size := by
  obtain ⟨b, hb⟩ := ByteArray.exists_of_utf8DecodeChar?_eq_some h
  have hl : l = String.utf8EncodeChar c ++ b.data.toList := by
    have hdata := congrArg (fun b => b.data.toList) hb
    simpa using hdata
  rw [← String.length_utf8EncodeChar, hl, List.drop_left]

theorem brokenLength_pos (l : List UInt8) : 0 < brokenLength l := by
  rcases l with _ | ⟨a, _ | ⟨b, _ | ⟨c, l⟩⟩⟩
  · exact Nat.one_pos
  · exact Nat.one_pos
  all_goals
    simp only [brokenLength]
    split_ifs <;> omega

theorem brokenLength_eq_one {a : UInt8} (h : continuesFirst a b = false) :
    brokenLength (a :: b :: l) = 1 := by
  have hif : brokenLength (a :: b :: l) = if continuesFirst a b then brokenLength (a :: b :: l)
      else 1 := by
    rcases l with _ | ⟨c, l⟩
    all_goals
      simp only [brokenLength]
      split_ifs <;> rfl
  rw [hif, h]
  rfl

/-- It is enough to go on to the end of the bytes. -/
theorem lossyFrom_congr (h : l.length ≤ fuel) (h' : l.length ≤ fuel') :
    lossyFrom fuel l = lossyFrom fuel' l := by
  induction fuel generalizing l fuel' with
  | zero =>
    obtain rfl := List.length_eq_zero_iff.1 (Nat.le_zero.1 h)
    rcases fuel' with _ | fuel' <;> rfl
  | succ fuel ih =>
    rcases l with _ | ⟨b, l⟩
    · rcases fuel' with _ | fuel' <;> rfl
    obtain ⟨fuel', rfl⟩ : ∃ n, fuel' = n + 1 :=
      ⟨fuel' - 1, by rw [List.length_cons] at h'; omega⟩
    have hnext {n : ℕ} (hn : 0 < n) :
        lossyFrom fuel ((b :: l).drop n) = lossyFrom fuel' ((b :: l).drop n) := by
      rw [List.length_cons] at h h'
      refine ih ?_ ?_
      all_goals
        rw [List.length_drop, List.length_cons]
        omega
    rw [lossyFrom, lossyFrom, hnext (brokenLength_pos _)]
    rcases decodeChar? (b :: l) with _ | c
    · rfl
    · exact congrArg (c :: ·) (hnext c.utf8Size_pos)

theorem lossyFrom_eq (h : l.length ≤ fuel) : lossyFrom fuel l = lossy l :=
  lossyFrom_congr h le_rfl

/-- A character is read, and then what follows. -/
theorem lossy_encode_cons : lossy (String.utf8EncodeChar c ++ rest) = c :: lossy rest := by
  have hdecode : decodeChar? (String.utf8EncodeChar c ++ rest) = some c := decodeChar?_encode
  have hdrop : (String.utf8EncodeChar c ++ rest).drop c.utf8Size = rest := by
    rw [← String.length_utf8EncodeChar, List.drop_left]
  have hlen : (String.utf8EncodeChar c ++ rest).length = c.utf8Size + rest.length := by
    rw [List.length_append, String.length_utf8EncodeChar]
  have hpos := c.utf8Size_pos
  rcases hl : String.utf8EncodeChar c ++ rest with _ | ⟨b, l⟩
  all_goals rw [hl] at hdecode hdrop hlen
  · rw [List.length_nil] at hlen
    omega
  · rw [List.length_cons] at hlen
    rw [lossy, List.length_cons, lossyFrom, hdecode]
    dsimp only
    rw [hdrop, lossyFrom_eq (by omega)]

/-- Of text that is encoded the text is read. -/
theorem lossy_encode : lossy (text.flatMap String.utf8EncodeChar ++ rest) = text ++ lossy rest := by
  induction text with
  | nil => rfl
  | cons c text ih =>
    rw [List.flatMap_cons, List.append_assoc, lossy_encode_cons, ih, List.cons_append]

/-- Where no character is, a mark is read. -/
theorem lossy_broken (h : decodeChar? (b :: l) = none) :
    lossy (b :: l) = replacement :: lossy ((b :: l).drop (brokenLength (b :: l))) := by
  have hpos := brokenLength_pos (b :: l)
  rw [lossy, List.length_cons, lossyFrom, h]
  dsimp only
  rw [lossyFrom_eq]
  rw [List.length_drop, List.length_cons]
  omega

/-- Bytes that are read without a mark are the text that is encoded. -/
theorem eq_encode_of_lossy (h : replacement ∉ lossy l) :
    l = (lossy l).flatMap String.utf8EncodeChar := by
  have hlen : ∃ n, l.length ≤ n := ⟨_, le_rfl⟩
  obtain ⟨n, hn⟩ := hlen
  induction n generalizing l with
  | zero =>
    obtain rfl := List.length_eq_zero_iff.1 (Nat.le_zero.1 hn)
    rfl
  | succ n ih =>
    rcases l with _ | ⟨b, l⟩
    · rfl
    rcases hdecode : decodeChar? (b :: l) with _ | c
    · rw [lossy_broken hdecode] at h
      exact absurd List.mem_cons_self h
    · have hl := eq_of_decodeChar? hdecode
      have hlossy : lossy (b :: l) = c :: lossy ((b :: l).drop c.utf8Size) := by
        conv_lhs => rw [hl]
        exact lossy_encode_cons
      have hpos := c.utf8Size_pos
      rw [hlossy] at h ⊢
      rw [List.flatMap_cons, ← ih (fun hmem => h (List.mem_cons_of_mem _ hmem))
        (by rw [List.length_drop, List.length_cons] at *; omega)]
      exact hl

/-- Bytes are read as a text without marks only if they are it. -/
theorem fromUtf8Lossy_eq_iff {s : String} (h : replacement ∉ s.toList) :
    fromUtf8Lossy l = s ↔ l = s.toList.flatMap String.utf8EncodeChar := by
  refine ⟨fun hl => ?_, fun hl => ?_⟩
  · subst hl
    rw [fromUtf8Lossy, String.toList_ofList] at *
    exact eq_encode_of_lossy h
  · have hread : lossy l = s.toList := by
      have hnil : lossy ([] : List UInt8) = [] := rfl
      rw [hl, ← List.append_nil (s.toList.flatMap _), lossy_encode, hnil, List.append_nil]
    rw [fromUtf8Lossy, hread, String.ofList_toList]

end Lossy

end Smrt
