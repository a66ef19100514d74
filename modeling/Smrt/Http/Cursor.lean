import Mathlib.Data.Set.Function
import Smrt.Http.Page
import Smrt.Lib.Percent
import Smrt.Lib.Sextets

/-!
# What a cursor may hold

The parts of a cursor are joined with a separator and split at it again, so they come back if the
separator is in none of them, and only then (`comesBack_iff`): a part with a separator in it is read
as two (`not_comesBack_separator`). Either way the cursor goes through a query string as it is
(`Survives`).

Of the coding in base 64 it is asked that it is undone by its decoding, and that it writes letters,
digits, `-` and `_`; the one that the source uses does (`urlSafeNoPad`).
-/

namespace Smrt

namespace PageQuery

/-! ## Base 64 -/

/-- Only letters that may stand in an address are written. -/
def UrlSafe (b : Base64) : Prop := ∀ s, ∀ c ∈ (b.encode s).toList, c ∈ sextetLetters

/-- Base 64 with the alphabet for addresses, without padding. -/
def urlSafeNoPad : Base64 where
  encode s := String.ofList (sextets s.toUTF8.data.toList)
  decode cursor := (fromSextets cursor.toList).map fun bytes => ⟨bytes.toArray⟩

theorem urlSafeNoPad_inverts : urlSafeNoPad.Inverts := by
  intro s
  rw [urlSafeNoPad]
  dsimp only
  rw [String.toList_ofList, fromSextets_sextets]
  rfl

theorem urlSafeNoPad_urlSafe : UrlSafe urlSafeNoPad := by
  intro s c hc
  rw [urlSafeNoPad] at hc
  dsimp only at hc
  rw [String.toList_ofList] at hc
  exact mem_sextets c hc

/-! ## Query strings -/

/-- A value in a query string, as it is read. -/
def formDecode (lossy : List UInt8 → String) (value : String) : String :=
  percentDecode lossy (String.ofList (value.toList.map fun c => if c = '+' then ' ' else c))

/-- A text that ends no value in a query string, and is read as it is. -/
structure Survives (value : String) : Prop where
  undelimited : ∀ c ∈ value.toList, c ∉ ['&', '=', '#', ' ']
  undecoded : ∀ lossy, formDecode lossy value = value

/-- The letters of base 64 survive. -/
theorem survives_of_urlSafe {value : String} (h : ∀ c ∈ value.toList, c ∈ sextetLetters) :
    Survives value := by
  have hall : (sextetLetters.all fun c =>
      decide (c ∉ ['&', '=', '#', ' '] ∧ c ≠ '+' ∧ c ≠ '%')) = true := by decide +kernel
  have hplain : ∀ c ∈ sextetLetters, c ∉ ['&', '=', '#', ' '] ∧ c ≠ '+' ∧ c ≠ '%' :=
    fun c hc => of_decide_eq_true (List.all_eq_true.1 hall c hc)
  refine ⟨fun c hc => (hplain c (h c hc)).1, fun lossy => ?_⟩
  have hplus : (value.toList.map fun c => if c = '+' then ' ' else c) = value.toList := by
    refine (List.map_congr_left fun c hc => ?_).trans (List.map_id _)
    exact if_neg (hplain c (h c hc)).2.1
  have hbytes : ∀ l : List Char, (∀ c ∈ l, c ∈ sextetLetters) →
      decodeChars l = l.flatMap String.utf8EncodeChar := by
    intro l hl
    induction l with
    | nil => rfl
    | cons c l ih =>
      rw [List.forall_mem_cons] at hl
      rw [decodeChars_cons (hplain c hl.1).2.2, ih hl.2, List.flatMap_cons]
  rw [formDecode, hplus, String.ofList_toList, percentDecode, hbytes _ h, fromUTF8?_utf8Encode,
    Option.getD_some, String.ofList_toList]

/-! ## Round trips -/

/-- No part has the separator in it. -/
def Plain (parts : List String) : Prop := ∀ p ∈ parts, unitSeparator ∉ p.toList

/-- The parts of a cursor come back if there is no separator in them, and only then; of these lists
no two are written alike. Any cursor survives a query string. -/
theorem comesBack_iff (b : Base64) (hb : b.Inverts) (hsafe : UrlSafe b) :
    (∀ parts, parts ≠ [] → (decode b (encode b parts) = some parts ↔ Plain parts)) ∧
      Set.InjOn (encode b) {parts | parts ≠ [] ∧ Plain parts} ∧
      ∀ parts, Survives (encode b parts) := by
  refine ⟨fun parts hne => ⟨fun hback p hp => ?_, decode_encode hb hne⟩, ?_, fun parts => ?_⟩
  · rw [decode_encode_eq hb, Option.some_inj] at hback
    rw [← hback] at hp
    obtain ⟨piece, hpiece, rfl⟩ := List.mem_map.1 hp
    rw [String.toList_ofList]
    exact not_mem_of_mem_pieces List.not_mem_nil hpiece
  · rintro parts ⟨hne, hplain⟩ parts' ⟨hne', hplain'⟩ he
    have hback := decode_encode hb hne hplain
    rw [he, decode_encode hb hne' hplain'] at hback
    exact (Option.some_inj.1 hback).symm
  · exact survives_of_urlSafe (hsafe _)

theorem comesBack_urlSafeNoPad :
    (∀ parts, parts ≠ [] →
        (decode urlSafeNoPad (encode urlSafeNoPad parts) = some parts ↔ Plain parts)) ∧
      Set.InjOn (encode urlSafeNoPad) {parts | parts ≠ [] ∧ Plain parts} ∧
      ∀ parts, Survives (encode urlSafeNoPad parts) :=
  comesBack_iff _ urlSafeNoPad_inverts urlSafeNoPad_urlSafe

/-- A name with the separator in it comes back as two. -/
theorem not_comesBack_separator :
    decode urlSafeNoPad (encode urlSafeNoPad ["iron\x1fchest", "42"]) ≠
      some ["iron\x1fchest", "42"] := by
  rw [decode_encode_eq urlSafeNoPad_inverts]
  decide

end PageQuery

end Smrt
