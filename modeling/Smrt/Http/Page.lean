import Smrt.Lib.Decimal
import Smrt.Lib.Pages
import Smrt.Lib.Split

/-!
# Pages of a listing

A listing answers whole, or a page of it if a limit is asked for: one row more than the page is read,
to tell a full page from the last one, and the last row of the page is the cursor that the next one
comes after (`PageQuery.split`). A cursor is the parts of the key of a row, joined, in base 64; one
that cannot be read is no cursor.

The coding in base 64 is not modelled: it is the parameter `Base64`, and all that is said of it is
that a text comes back (`Base64.Inverts`).

* `cursor_encode`: a cursor is read as what was written;
* `split_limited`: a page of the rows that were read for it is a page of all of them.
-/

namespace Smrt

/-- A coding of texts, by their bytes. -/
structure Base64 where
  encode : String → String
  decode : String → Option ByteArray

/-- A text that was coded is decoded. -/
def Base64.Inverts (b : Base64) : Prop := ∀ s, b.decode (b.encode s) = some s.toUTF8

/-- The paging half of a query. -/
structure PageQuery where
  limit : Option ℕ
  after : Option String

/-- What parts of a cursor are joined with. -/
def unitSeparator : Char := .ofNat 0x1f

namespace PageQuery

section Cursor

variable (b : Base64)

def encode (parts : List String) : String :=
  b.encode (String.ofList ([unitSeparator].intercalate (parts.map String.toList)))

def decode (cursor : String) : Option (List String) :=
  (b.decode cursor).bind fun raw => (String.fromUTF8? raw).map fun text =>
    (pieces [unitSeparator] 0 [] text.toList).map String.ofList

end Cursor

def maxPage : ℕ := 500

/-- A page has a row at least, and not more than the ceiling. -/
def clamp (n : ℕ) : ℕ := min (max n 1) maxPage

variable (page : PageQuery)

/-- How many rows are read for the page. -/
def probe : Option ℕ := page.limit.map fun n => clamp n + 1

/-- How many rows there are on a full page. -/
def size : Option ℕ := page.limit.map clamp

variable (b : Base64)

def cursor : Option (List String) := page.after.bind (decode b)

/-- The rows that fit on the page, and the cursor of the next one, if there is more. -/
def split {ρ : Type} (rows : List ρ) (key : ρ → List String) : List ρ × Option String :=
  match page.size with
  | none => (rows, none)
  | some size =>
    let more := size < rows.length
    let rows := rows.take size
    (rows, if more then rows.getLast?.map fun last => encode b (key last) else none)

/-! ## Cursors -/

section Cursor

variable {b : Base64} {parts : List String}

/-- What is decoded is the text of the parts, split again. -/
theorem decode_encode_eq (hb : b.Inverts) (parts : List String) :
    decode b (encode b parts) = some ((pieces [unitSeparator] 0 []
      ([unitSeparator].intercalate (parts.map String.toList))).map String.ofList) := by
  have htext : ∀ s : String, String.fromUTF8? s.toUTF8 = some s := fun s =>
    dif_pos s.isValidUTF8
  rw [decode, encode, hb, Option.bind_some, htext, Option.map_some, String.toList_ofList]

theorem decode_encode (hb : b.Inverts) (hne : parts ≠ [])
    (hsep : ∀ p ∈ parts, unitSeparator ∉ p.toList) :
    decode b (encode b parts) = some parts := by
  have hpieces : pieces [unitSeparator] 0 []
      ([unitSeparator].intercalate (parts.map String.toList)) = parts.map String.toList := by
    refine pieces_intercalate (mt List.map_eq_nil_iff.1 hne) fun p hp => ?_
    obtain ⟨part, hpart, rfl⟩ := List.mem_map.1 hp
    exact hsep part hpart
  rw [decode_encode_eq hb, hpieces, List.map_map]
  congr 1
  exact (List.map_congr_left fun p _ => String.ofList_toList).trans (List.map_id _)

/-- A number has no separator in it. -/
theorem unitSeparator_notMem (n : ℤ) : unitSeparator ∉ (toString n).toList := by
  intro h
  rcases mem_toString h with hdigit | hsign
  · exact absurd hdigit (by decide)
  · exact absurd hsign (by decide)

/-- A cursor is read as what was written. -/
theorem cursor_encode (hb : b.Inverts) (limit : Option ℕ) {keys : List ℤ} (hne : keys ≠ []) :
    cursor ⟨limit, some (encode b (keys.map toString))⟩ b = some (keys.map toString) := by
  refine decode_encode hb (mt List.map_eq_nil_iff.1 hne) fun p hp => ?_
  obtain ⟨n, -, rfl⟩ := List.mem_map.1 hp
  exact unitSeparator_notMem n

end Cursor

/-! ## Pages -/

variable {b : Base64} {ρ : Type} {rows : List ρ} {key : ρ → List String} {limit : ℕ}
  {after : Option String}

theorem clamp_pos : 0 < clamp limit := by
  rw [clamp, maxPage]
  omega

@[simp] theorem split_none : split ⟨none, after⟩ b rows key = (rows, none) := rfl

/-- A page is cut from the rows that were read for it as from all of them. -/
theorem split_limited :
    split ⟨some limit, after⟩ b (Pages.limited (probe ⟨some limit, after⟩) rows) key =
      Pages.cut (clamp limit) (fun r => encode b (key r)) rows :=
  Pages.cut_take

end PageQuery

end Smrt
