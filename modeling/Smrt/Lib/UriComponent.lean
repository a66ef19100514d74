import Smrt.Lib.Lossy
import Smrt.Lib.Percent

/-!
# Components of an address

A text is escaped so that it can stand between the slashes of an address (`encodeURIComponent`), and
read again (`decodeURIComponent`). What is read is no text at all where a percent sign begins no
escape, or where the bytes that are escaped are not UTF-8.

* `decodeURIComponent_encodeURIComponent`: what was escaped is read as it was;
* `wellEncoded_append_slash_iff`: a slash cuts what can be read into parts that can.
-/

namespace Smrt

open String

/-- A letter that is not escaped. -/
def unescaped (c : Char) : Bool :=
  c.isAlphanum || ['-', '_', '.', '!', '~', '*', '\'', '(', ')'].contains c

def encodeURIComponent (s : String) : String := percentEncode (fun c => !unescaped c) s

/-- The two digits that come after a percent sign. -/
def startsEscape : List Char → Bool
  | h :: k :: _ => (hexValue h).isSome && (hexValue k).isSome
  | _ => false

/-- Every percent sign begins the escape of a byte. -/
def escapesWhole : List Char → Bool
  | [] => true
  | c :: l => (c ≠ '%' || startsEscape l) && escapesWhole l

/-- The text that is read, if it is not malformed. -/
def decodeURIComponent (s : String) : Option String :=
  if escapesWhole s.toList then fromUTF8? (decodeChars s.toList).toByteArray else none

/-- The escapes are whole, and are those of characters. -/
def WellEncoded (l : List Char) : Prop :=
  escapesWhole l = true ∧ ∃ m : List Char, decodeChars l = m.flatMap utf8EncodeChar

variable {a b l r : List Char} {c : Char}

theorem fromUTF8?_eq_some {bs : List UInt8} {s : String} :
    fromUTF8? bs.toByteArray = some s ↔ bs = s.toList.flatMap utf8EncodeChar := by
  constructor
  · intro h
    by_cases hvalid : bs.toByteArray.IsValidUTF8
    · rw [fromUTF8?, dif_pos hvalid] at h
      have hbytes : bs.toByteArray = s.toByteArray :=
        congrArg String.toByteArray (Option.some.inj h)
      rw [← utf8Encode_toList] at hbytes
      have hdata := congrArg (fun b => b.data.toList) hbytes
      simpa [List.utf8Encode] using hdata
    · rw [fromUTF8?, dif_neg hvalid] at h
      exact absurd h.symm (Option.some_ne_none s)
  · intro h
    rw [h, fromUTF8?_utf8Encode, ofList_toList]

theorem exists_decodeURIComponent {s : String} :
    (∃ t, decodeURIComponent s = some t) ↔ WellEncoded s.toList := by
  constructor
  · rintro ⟨t, ht⟩
    rw [decodeURIComponent] at ht
    split_ifs at ht with hwhole
    exact ⟨hwhole, t.toList, fromUTF8?_eq_some.1 ht⟩
  · rintro ⟨hwhole, m, hm⟩
    refine ⟨ofList m, ?_⟩
    rw [decodeURIComponent, if_pos hwhole, fromUTF8?_eq_some, toList_ofList, hm]

/-! ## What was escaped -/

theorem hexDigit_ne_percent : ∀ n < 16, hexDigit n ≠ '%' := by decide

theorem escapesWhole_cons (h : c ≠ '%') : escapesWhole (c :: l) = escapesWhole l := by
  simp [escapesWhole, h]

theorem escapesWhole_encodeByte (n : UInt8) :
    escapesWhole (encodeByte n ++ r) = escapesWhole r := by
  have hn : n.toNat < 256 := UInt8.toNat_lt n
  have hhigh : n.toNat / 16 < 16 := by omega
  have hlow : n.toNat % 16 < 16 := Nat.mod_lt _ (by omega)
  have hstarts : startsEscape (hexDigit (n.toNat / 16) :: hexDigit (n.toNat % 16) :: r) = true := by
    rw [startsEscape, hexValue_hexDigit _ hhigh, hexValue_hexDigit _ hlow]
    rfl
  have hrest := escapesWhole_cons (l := hexDigit (n.toNat % 16) :: r) (hexDigit_ne_percent _ hhigh)
  rw [escapesWhole_cons (hexDigit_ne_percent _ hlow)] at hrest
  simp only [encodeByte, List.cons_append, List.nil_append]
  rw [escapesWhole, hstarts, hrest, Bool.or_true, Bool.true_and]

theorem escapesWhole_encodeBytes (bs : List UInt8) :
    escapesWhole (bs.flatMap encodeByte ++ r) = escapesWhole r := by
  induction bs with
  | nil => rfl
  | cons n bs ih => rw [List.flatMap_cons, List.append_assoc, escapesWhole_encodeByte, ih]

theorem escapesWhole_encode (l : List Char) :
    escapesWhole (l.flatMap (encodeChar fun c => !unescaped c)) = true := by
  induction l with
  | nil => rfl
  | cons c l ih =>
    rw [List.flatMap_cons, encodeChar]
    split_ifs with hc
    · have hne : c ≠ '%' := by
        rintro rfl
        exact absurd hc.2 (by decide)
      rw [List.singleton_append, escapesWhole_cons hne, ih]
    · rw [escapesWhole_encodeBytes, ih]

theorem decodeURIComponent_encodeURIComponent (s : String) :
    decodeURIComponent (encodeURIComponent s) = some s := by
  rw [decodeURIComponent, encodeURIComponent, percentEncode, toList_ofList,
    if_pos (escapesWhole_encode _), fromUTF8?_eq_some]
  exact decodeChars_encodeChars (by decide) _

/-- A text without escapes is read as it is. -/
theorem decodeURIComponent_of_not_mem {s : String} (h : '%' ∉ s.toList) :
    decodeURIComponent s = some s := by
  have hwhole : ∀ l : List Char, '%' ∉ l →
      escapesWhole l = true ∧ decodeChars l = l.flatMap utf8EncodeChar := by
    intro l hl
    induction l with
    | nil => exact ⟨rfl, rfl⟩
    | cons c l ih =>
      obtain ⟨hc, hl⟩ := List.ne_and_not_mem_of_not_mem_cons hl
      obtain ⟨hesc, hread⟩ := ih hl
      refine ⟨by rw [escapesWhole_cons hc.symm, hesc], ?_⟩
      rw [decodeChars_cons hc.symm, hread, List.flatMap_cons]
  rw [decodeURIComponent, if_pos (hwhole _ h).1, fromUTF8?_eq_some, (hwhole _ h).2]

theorem wellEncoded_of_not_mem (h : '%' ∉ l) : WellEncoded l := by
  have hread := exists_decodeURIComponent.1
    ⟨_, decodeURIComponent_of_not_mem (s := ofList l) (by rwa [toList_ofList])⟩
  rwa [toList_ofList] at hread

/-! ## Cutting at a slash -/

theorem escapesWhole_append_slash (a b : List Char) :
    escapesWhole (a ++ '/' :: b) = (escapesWhole a && escapesWhole b) := by
  induction a with
  | nil => rfl
  | cons c a ih =>
    have hstarts : startsEscape (a ++ '/' :: b) = startsEscape a := by
      rcases a with _ | ⟨h, _ | ⟨k, a⟩⟩
      · rcases b with _ | ⟨d, b⟩ <;> rfl
      · exact Bool.and_false _
      · rfl
    rw [List.cons_append, escapesWhole, escapesWhole, ih, hstarts, Bool.and_assoc]

/-- After whole escapes one reads on. -/
theorem decodeChars_append (h : escapesWhole a = true) :
    decodeChars (a ++ b) = decodeChars a ++ decodeChars b := by
  obtain ⟨n, hn⟩ : ∃ n, a.length ≤ n := ⟨_, le_rfl⟩
  induction n generalizing a with
  | zero =>
    obtain rfl := List.length_eq_zero_iff.1 (Nat.le_zero.1 hn)
    rfl
  | succ n ih =>
    rcases a with _ | ⟨c, a⟩
    · rfl
    rw [List.length_cons] at hn
    rw [escapesWhole, Bool.and_eq_true] at h
    by_cases hc : c = '%'
    · subst hc
      -- two digits follow, which are read together with the percent sign
      rcases a with _ | ⟨d, _ | ⟨e, a⟩⟩
      · exact absurd h.1 (by decide)
      · exact absurd h.1 (by simp [startsEscape])
      rw [escapesWhole, escapesWhole, Bool.and_eq_true, Bool.and_eq_true] at h
      obtain ⟨hdigits, -, -, hrest⟩ := h
      obtain ⟨hd, he⟩ : (hexValue d).isSome ∧ (hexValue e).isSome := by
        simpa [startsEscape] using hdigits
      obtain ⟨x, hx⟩ := Option.isSome_iff_exists.1 hd
      obtain ⟨y, hy⟩ := Option.isSome_iff_exists.1 he
      simp only [List.cons_append, decodeChars, hx, hy]
      rw [ih hrest (by simp only [List.length_cons] at hn; omega)]
    · rw [List.cons_append, decodeChars_cons hc, decodeChars_cons hc, ih h.2 (by omega),
        List.append_assoc]

/-- The byte of a slash is a slash. -/
theorem exists_of_encode_eq {m : List Char} {x y : List UInt8}
    (h : m.flatMap utf8EncodeChar = x ++ '/'.toUInt8 :: y) :
    ∃ m₁ m₂ : List Char, x = m₁.flatMap utf8EncodeChar ∧ y = m₂.flatMap utf8EncodeChar := by
  induction m generalizing x with
  | nil => exact absurd (congrArg List.length h) (by simp)
  | cons c m ih =>
    rw [List.flatMap_cons, List.append_eq_append_iff] at h
    obtain ⟨x', rfl, hrest⟩ | ⟨z, henc, hrest⟩ := h
    · obtain ⟨m₁, m₂, rfl, rfl⟩ := ih hrest
      exact ⟨c :: m₁, m₂, by rw [List.flatMap_cons], rfl⟩
    · rcases z with _ | ⟨w, z⟩
      · obtain ⟨m₁, m₂, hnil, rfl⟩ := ih (x := []) hrest.symm
        exact ⟨[c], m₂, by simpa using henc.symm, rfl⟩
      · -- a byte of `c` is a slash, so that `c` is
        obtain ⟨rfl, hy⟩ := List.cons.inj hrest
        have hslash : c = '/' := eq_of_mem_utf8EncodeChar (by decide)
          (by rw [henc]; exact List.mem_append_right _ List.mem_cons_self) rfl
        rw [hslash] at henc
        have hlen := congrArg List.length henc
        rw [length_utf8EncodeChar, List.length_append, List.length_cons] at hlen
        have hone : ('/' : Char).utf8Size = 1 := by decide
        obtain rfl : x = [] := List.length_eq_zero_iff.1 (by omega)
        obtain rfl : z = [] := List.length_eq_zero_iff.1 (by omega)
        exact ⟨[], m, rfl, hy⟩

theorem wellEncoded_append_slash_iff :
    WellEncoded (a ++ '/' :: b) ↔ WellEncoded a ∧ WellEncoded b := by
  have hread (ha : escapesWhole a = true) :
      decodeChars (a ++ '/' :: b) = decodeChars a ++ '/'.toUInt8 :: decodeChars b := by
    rw [decodeChars_append ha, decodeChars_cons (by decide)]
    rfl
  rw [WellEncoded, escapesWhole_append_slash, Bool.and_eq_true]
  constructor
  · rintro ⟨⟨ha, hb⟩, m, hm⟩
    rw [hread ha] at hm
    obtain ⟨m₁, m₂, h₁, h₂⟩ := exists_of_encode_eq hm.symm
    exact ⟨⟨ha, m₁, h₁⟩, hb, m₂, h₂⟩
  · rintro ⟨⟨ha, m₁, h₁⟩, hb, m₂, h₂⟩
    refine ⟨⟨ha, hb⟩, m₁ ++ '/' :: m₂, ?_⟩
    rw [hread ha, h₁, h₂, List.flatMap_append, List.flatMap_cons]
    rfl

end Smrt
