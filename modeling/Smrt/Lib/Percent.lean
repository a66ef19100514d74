import Mathlib.Data.String.Basic

/-!
# Percent-encoding

A text is encoded letter by letter: what is not ASCII, and what is to be escaped, as the hexadecimal
digits of its bytes (`percentEncode`). What is decoded are bytes (`decodeChars`), which are read
as UTF-8; how bytes are read that are none is a parameter (`percentDecode`).

What was encoded is decoded to what it was, if the percent sign is escaped
(`percentDecode_percentEncode`).
-/

namespace Smrt

open String

/-- The digit of half a byte. -/
def hexDigit (n : ℕ) : Char := Char.ofNat (if n < 10 then 48 + n else 55 + n)

def hexValue (c : Char) : Option ℕ :=
  if c.isDigit then some (c.toNat - 48)
  else if 'A' ≤ c ∧ c ≤ 'F' then some (c.toNat - 55)
  else if 'a' ≤ c ∧ c ≤ 'f' then some (c.toNat - 87)
  else none

/-- The escape of a byte. -/
def encodeByte (b : UInt8) : List Char := ['%', hexDigit (b.toNat / 16), hexDigit (b.toNat % 16)]

section Encode

variable (escaped : Char → Bool)

def encodeChar (c : Char) : List Char :=
  if c.toNat < 128 ∧ escaped c = false then [c] else (utf8EncodeChar c).flatMap encodeByte

def percentEncode (s : String) : String := ofList (s.toList.flatMap (encodeChar escaped))

end Encode

/-- The bytes of a text whose escapes are undone. -/
def decodeChars : List Char → List UInt8
  | [] => []
  | '%' :: h :: l :: r =>
    match hexValue h, hexValue l with
    | some a, some b => UInt8.ofNat (16 * a + b) :: decodeChars r
    | _, _ => utf8EncodeChar '%' ++ decodeChars (h :: l :: r)
  | c :: r => utf8EncodeChar c ++ decodeChars r

def percentDecode (lossy : List UInt8 → String) (s : String) : String :=
  (fromUTF8? (decodeChars s.toList).toByteArray).getD (lossy (decodeChars s.toList))

/-! ## Decoding what was encoded -/

section RoundTrip

variable {escaped : Char → Bool} {c : Char} {l r : List Char}

theorem hexValue_hexDigit : ∀ n < 16, hexValue (hexDigit n) = some n := by decide

theorem hexDigit_ne_slash : ∀ n < 16, hexDigit n ≠ '/' := by decide

theorem decodeChars_encodeByte (b : UInt8) :
    decodeChars (encodeByte b ++ r) = b :: decodeChars r := by
  have hb : b.toNat < 256 := UInt8.toNat_lt b
  have hhi := hexValue_hexDigit (b.toNat / 16) (by omega)
  have hlo := hexValue_hexDigit (b.toNat % 16) (Nat.mod_lt _ (by omega))
  simp only [encodeByte, List.cons_append, List.nil_append, decodeChars, hhi, hlo, Nat.div_add_mod,
    UInt8.ofNat_toNat]

theorem decodeChars_encodeBytes (bs : List UInt8) :
    decodeChars (bs.flatMap encodeByte ++ r) = bs ++ decodeChars r := by
  induction bs with
  | nil => rfl
  | cons b bs ih =>
    rw [List.flatMap_cons, List.append_assoc, decodeChars_encodeByte, ih, List.cons_append]

theorem decodeChars_cons (h : c ≠ '%') :
    decodeChars (c :: r) = utf8EncodeChar c ++ decodeChars r := by
  rw [decodeChars.eq_def]
  split
  · next h' => cases h'
  · next h' => exact absurd (List.cons.inj h').1 h
  · next h' => obtain ⟨rfl, rfl⟩ := List.cons.inj h'; rfl

theorem decodeChars_encodeChars (h : escaped '%' = true) (l : List Char) :
    decodeChars (l.flatMap (encodeChar escaped)) = l.flatMap utf8EncodeChar := by
  induction l with
  | nil => rfl
  | cons c l ih =>
    rw [List.flatMap_cons, List.flatMap_cons, encodeChar]
    split_ifs with hc
    · have hne : c ≠ '%' := fun he => by rw [he, h] at hc; exact absurd hc.2 (by decide)
      rw [List.singleton_append, decodeChars_cons hne, ih]
    · rw [decodeChars_encodeBytes, ih]

theorem fromUTF8?_utf8Encode (l : List Char) :
    fromUTF8? (l.flatMap utf8EncodeChar).toByteArray = some (ofList l) := by
  have hvalid : (l.flatMap utf8EncodeChar).toByteArray.IsValidUTF8 := (ofList l).isValidUTF8
  rw [fromUTF8?, dif_pos hvalid]
  rfl

/-- What was encoded is decoded to what it was. -/
theorem percentDecode_percentEncode (h : escaped '%' = true) {lossy : List UInt8 → String}
    (s : String) : percentDecode lossy (percentEncode escaped s) = s := by
  rw [percentDecode, percentEncode, toList_ofList, decodeChars_encodeChars h,
    fromUTF8?_utf8Encode, Option.getD_some, ofList_toList]

theorem percentEncode_injective (h : escaped '%' = true) {s t : String}
    (he : percentEncode escaped s = percentEncode escaped t) : s = t := by
  have hd := congrArg (percentDecode fun _ => "") he
  rwa [percentDecode_percentEncode h, percentDecode_percentEncode h] at hd

/-- A letter that is escaped, and in no escape, is not in what was encoded. -/
theorem not_mem_percentEncode (h : escaped c = true) (hpercent : c ≠ '%')
    (hdigit : ∀ n < 16, hexDigit n ≠ c) (s : String) : c ∉ (percentEncode escaped s).toList := by
  rw [percentEncode, toList_ofList, List.mem_flatMap]
  rintro ⟨d, -, hd⟩
  rw [encodeChar] at hd
  split_ifs at hd with hkeep
  · rw [← List.mem_singleton.1 hd, h] at hkeep
    exact absurd hkeep.2 (by decide)
  · obtain ⟨b, -, hb⟩ := List.mem_flatMap.1 hd
    have hlt : b.toNat < 256 := UInt8.toNat_lt b
    simp only [encodeByte, List.mem_cons, List.not_mem_nil, or_false] at hb
    rcases hb with hb | hb | hb
    · exact hpercent hb
    · exact hdigit (b.toNat / 16) (by omega) hb.symm
    · exact hdigit (b.toNat % 16) (Nat.mod_lt _ (by omega)) hb.symm

theorem slash_not_mem_percentEncode (h : escaped '/' = true) (s : String) :
    '/' ∉ (percentEncode escaped s).toList :=
  not_mem_percentEncode h (by decide) hexDigit_ne_slash s

end RoundTrip

end Smrt
