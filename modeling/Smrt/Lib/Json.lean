import Mathlib.Algebra.Group.Int.Defs
import Mathlib.Algebra.Group.Nat.Defs
import Mathlib.Data.Int.Notation
import Mathlib.Data.List.Basic

/-!
# JSON values, and reading records out of them

JSON as a program holds it after parsing: a number is an integer or a double, and
an object is the list of its members. Only the lookup of a key matters of an
object (`List.lookup`), never the order of its members.

Records are read and written member by member, with the rules that a serialiser
derived from the record's type follows:

* `must`, `may`, `orDefault`: a member that must be there; one whose
  absence, like `null`, is "none"; one whose absence is a default (where `null` is
  a value like any other, so an error for most types);
* `members`: the members that are written, an optional one left out when there is
  nothing to say (`skipWhen`), or written as `null` (`orNull`);
* `record keys`: a record may be given as an object, or by position as an array of
  its members, in which the last ones may be missing;
* `listOf`, `variant`: arrays of records, and enumerations by name.

An unknown member is ignored, and reading gives `none` on anything else than what
the type says.
-/

namespace Smrt

/-- A JSON value. -/
inductive Json
  | null
  | bool (b : Bool)
  | int (n : ℤ)
  | float (bits : UInt64)
  | str (s : String)
  | arr (items : List Json)
  | obj (members : List (String × Json))

namespace Json

/-- The members of an object. -/
abbrev Members := List (String × Json)

/-! ## Equality -/

mutual

/-- Equality of values is decidable. -/
def decEq : (a b : Json) → Decidable (a = b)
  | .null, .null => isTrue rfl
  | .bool a, .bool b => decidable_of_iff (a = b) (by simp)
  | .int a, .int b => decidable_of_iff (a = b) (by simp)
  | .float a, .float b => decidable_of_iff (a = b) (by simp)
  | .str a, .str b => decidable_of_iff (a = b) (by simp)
  | .arr a, .arr b => @decidable_of_iff _ (a = b) (by simp) (decEqItems a b)
  | .obj a, .obj b => @decidable_of_iff _ (a = b) (by simp) (decEqMembers a b)
  | .null, .bool _ | .null, .int _ | .null, .float _ | .null, .str _ | .null, .arr _
  | .null, .obj _ | .bool _, .null | .bool _, .int _ | .bool _, .float _ | .bool _, .str _
  | .bool _, .arr _ | .bool _, .obj _ | .int _, .null | .int _, .bool _ | .int _, .float _
  | .int _, .str _ | .int _, .arr _ | .int _, .obj _ | .float _, .null | .float _, .bool _
  | .float _, .int _ | .float _, .str _ | .float _, .arr _ | .float _, .obj _ | .str _, .null
  | .str _, .bool _ | .str _, .int _ | .str _, .float _ | .str _, .arr _ | .str _, .obj _
  | .arr _, .null | .arr _, .bool _ | .arr _, .int _ | .arr _, .float _ | .arr _, .str _
  | .arr _, .obj _ | .obj _, .null | .obj _, .bool _ | .obj _, .int _ | .obj _, .float _
  | .obj _, .str _ | .obj _, .arr _ => isFalse (by simp)

/-- Equality of arrays is decidable. -/
def decEqItems : (a b : List Json) → Decidable (a = b)
  | [], [] => isTrue rfl
  | [], _ :: _ => isFalse (by simp)
  | _ :: _, [] => isFalse (by simp)
  | a :: as, b :: bs =>
    @decidable_of_iff _ (a = b ∧ as = bs) (by simp)
      (@instDecidableAnd _ _ (decEq a b) (decEqItems as bs))

/-- Equality of objects, member by member, is decidable. -/
def decEqMembers : (a b : List (String × Json)) → Decidable (a = b)
  | [], [] => isTrue rfl
  | [], _ :: _ => isFalse (by simp)
  | _ :: _, [] => isFalse (by simp)
  | (k, a) :: as, (l, b) :: bs =>
    @decidable_of_iff _ (k = l ∧ a = b ∧ as = bs) (by simp [and_assoc])
      (@instDecidableAnd _ _ inferInstance
        (@instDecidableAnd _ _ (decEq a b) (decEqMembers as bs)))

end

instance : DecidableEq Json := decEq

/-! ## Objects -/

/-- The object without the member `k`. -/
def erase (k : String) (o : Members) : Members := o.filter fun m => m.1 ≠ k

/-- The object with the member `k` set to `v`. -/
def set (k : String) (v : Json) (o : Members) : Members := (k, v) :: erase k o

theorem lookup_erase (k k' : String) (o : Members) :
    (erase k o).lookup k' = if k' = k then none else o.lookup k' := by
  induction o with
  | nil => simp [erase]
  | cons m o ih =>
    obtain ⟨l, v⟩ := m
    simp only [erase, List.filter_cons] at ih ⊢
    by_cases hl : l = k
    · by_cases hk : k' = k
      · simpa [hl, hk] using ih
      · simpa [hl, hk, List.lookup_cons, beq_eq_false_iff_ne.2 hk] using ih
    · by_cases hk : k' = l
      · simp [hk, hl]
      · simpa [hl, List.lookup_cons, beq_eq_false_iff_ne.2 hk] using ih

@[simp] theorem lookup_set_self (k : String) (v : Json) (o : Members) :
    (set k v o).lookup k = some v := by
  simp [set]

theorem lookup_set_of_ne {k k' : String} (h : k' ≠ k) (v : Json) (o : Members) :
    (set k v o).lookup k' = o.lookup k' := by
  rw [set, List.lookup_cons, beq_eq_false_iff_ne.2 h, lookup_erase, if_neg h]

/-! ## Reading values -/

/-- A string. -/
def asStr : Json → Option String
  | .str s => some s
  | _ => none

/-- A truth value. -/
def asBool : Json → Option Bool
  | .bool b => some b
  | _ => none

/-- A signed 64-bit integer; a double is not one, however whole. -/
def asInt64 : Json → Option Int64
  | .int n => if -2 ^ 63 ≤ n ∧ n < 2 ^ 63 then some (Int64.ofInt n) else none
  | _ => none

/-- An unsigned 32-bit integer. -/
def asUInt32 : Json → Option UInt32
  | .int n => if 0 ≤ n ∧ n < 2 ^ 32 then some (UInt32.ofNat n.toNat) else none
  | _ => none

/-- The variant of an enumeration: its name, alone or as the one member of an object
    with nothing in it. -/
def variant : Json → Option String
  | .str s => some s
  | .obj [(s, .null)] => some s
  | _ => none

/-- An array of the values `dec` reads. -/
def listOf {β : Type*} (dec : Json → Option β) : Json → Option (List β)
  | .arr items => items.mapM dec
  | _ => none

/-- The members of a record with the keys `keys`, in this order, given as an object
    or by position. -/
def record (keys : List String) : Json → Option Members
  | .obj o => some o
  | .arr items => if items.length ≤ keys.length then some (keys.zip items) else none
  | _ => none

section Members

variable {β : Type*} (dec : Json → Option β)

/-- A member that must be there. -/
def must : Option Json → Option β
  | some j => dec j
  | none => none

/-- A member that may be missing or `null`. -/
def may : Option Json → Option (Option β)
  | none | some .null => some none
  | some j => (dec j).map some

/-- A member whose absence means `d`. -/
def orDefault (d : β) : Option Json → Option β
  | some j => dec j
  | none => some d

@[simp] theorem must_some (j : Json) : must dec (some j) = dec j := by rw [must]
@[simp] theorem must_none : must dec none = none := rfl
@[simp] theorem may_none : may dec none = some none := rfl
@[simp] theorem may_null : may dec (some .null) = some none := rfl
@[simp] theorem orDefault_some (d : β) (j : Json) : orDefault dec d (some j) = dec j := by rw [orDefault]
@[simp] theorem orDefault_none (d : β) : orDefault dec d none = some d := rfl

theorem may_of_ne_null {j : Json} (h : j ≠ .null) :
    may dec (some j) = (dec j).map some := by
  cases j <;> first | exact absurd rfl h | rfl

end Members

/-! ## Writing values -/

/-- An optional value: `null` when there is none. -/
def orNull : Option Json → Json
  | some j => j
  | none => .null

/-- A member that is left out when `skip` says so. -/
def skipWhen (skip : Bool) (j : Json) : Option Json := if skip then none else some j

/-- The members that are not left out. -/
def members (fields : List (String × Option Json)) : Members :=
  fields.filterMap fun f => f.2.map fun j => (f.1, j)

@[simp] theorem mem_members {fields : List (String × Option Json)} {k : String} {j : Json} :
    (k, j) ∈ members fields ↔ (k, some j) ∈ fields := by
  simp only [members, List.mem_filterMap, Option.map_eq_some_iff]
  constructor
  · rintro ⟨⟨l, i⟩, hf, a, rfl, ha⟩
    cases ha
    exact hf
  · exact fun h => ⟨_, h, j, rfl, rfl⟩

/-- A member of a record is found under its key. -/
theorem lookup_members {fields : List (String × Option Json)}
    (h : (fields.map fun f => f.1).Nodup) (k : String) :
    (members fields).lookup k = (fields.lookup k).join := by
  induction fields with
  | nil => rfl
  | cons f fields ih =>
    obtain ⟨l, j⟩ := f
    rw [List.map_cons, List.nodup_cons] at h
    by_cases hk : k = l
    · subst hk
      cases j with
      | some j => simp [members]
      | none =>
        -- The member left out comes nowhere else.
        have hl : (members fields).lookup k = none := by
          refine List.lookup_eq_none_iff.2 fun m hm => bne_iff_ne.2 fun hkm => h.1 ?_
          exact List.mem_map.2 ⟨_, mem_members.1 hm, hkm.symm⟩
        simpa [members] using hl
    · have hb : (k == l) = false := beq_eq_false_iff_ne.2 hk
      cases j with
      | some j => simpa [members, List.lookup_cons, hb] using ih h.2
      | none => simpa [members, List.lookup_cons, hb] using ih h.2

/-! ## Reading what was written -/

section RoundTrip

variable {β : Type*} {enc : β → Json} {dec : Json → Option β} (h : ∀ a, dec (enc a) = some a)
  (hn : ∀ a, enc a ≠ .null)

include h

theorem listOf_map (l : List β) : listOf dec (.arr (l.map enc)) = some l := by
  rw [listOf]
  induction l with
  | nil => rfl
  | cons a l ih => simp [List.mapM_cons, h, ih]

/-- A list left out when it is empty reads back, if its absence means the empty list. -/
theorem orDefault_skipWhen (l : List β) :
    orDefault (listOf dec) [] (skipWhen l.isEmpty (.arr (l.map enc))) = some l := by
  cases l with
  | nil => rfl
  | cons a l => exact listOf_map h (a :: l)

include hn

/-- An optional member reads back, if no value is written as `null`. -/
theorem may_map (a : Option β) : may dec (a.map enc) = some a := by
  cases a with
  | none => rfl
  | some a => rw [Option.map_some, may_of_ne_null _ (hn a), h, Option.map_some]

theorem may_orNull (a : Option β) : may dec (some (orNull (a.map enc))) = some a := by
  cases a with
  | none => rfl
  | some a => rw [Option.map_some, orNull, may_of_ne_null _ (hn a), h, Option.map_some]

end RoundTrip

section Strings

variable (a : Option String) (l : List String)

@[simp] theorem listOf_map_str : listOf asStr (.arr (l.map .str)) = some l :=
  @listOf_map _ .str asStr (fun _ => rfl) l

@[simp] theorem orDefault_skipWhen_str :
    orDefault (listOf asStr) [] (skipWhen l.isEmpty (.arr (l.map .str))) = some l :=
  @orDefault_skipWhen _ .str asStr (fun _ => rfl) l

@[simp] theorem may_map_str : may asStr (a.map .str) = some a :=
  @may_map _ .str asStr (fun _ => rfl) (by simp) a

@[simp] theorem may_orNull_str : may asStr (some (orNull (a.map .str))) = some a :=
  @may_orNull _ .str asStr (fun _ => rfl) (by simp) a

end Strings

@[simp] theorem asInt64_toInt (n : Int64) : asInt64 (.int n.toInt) = some n := by
  rw [asInt64, if_pos ⟨Int64.le_toInt n, Int64.toInt_lt n⟩, Int64.ofInt_toInt]

@[simp] theorem asUInt32_toNat (n : UInt32) : asUInt32 (.int n.toNat) = some n := by
  rw [asUInt32, if_pos ⟨Int.natCast_nonneg _, by exact_mod_cast n.toNat_lt⟩, Int.toNat_natCast,
    UInt32.ofNat_toNat]

@[simp] theorem asStr_str (s : String) : asStr (.str s) = some s := rfl
@[simp] theorem asBool_bool (b : Bool) : asBool (.bool b) = some b := rfl
@[simp] theorem record_obj (keys : List String) (o : Members) : record keys (.obj o) = some o := rfl

end Json

end Smrt
