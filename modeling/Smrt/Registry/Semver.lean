import Mathlib.Data.List.GetD
import Mathlib.Order.PiLex
import Smrt.Authoring.Manifest

/-!
# Versions and windows

A version is compared if it is dotted numbers and nothing else, what is behind a `+` apart
(`Semver.cmp`); numbers are in the order of their places (`compareNumbers_eq_gt`). A window is an
interval, a bound with an operator before it, or a bare lower bound; it is undecided unless both
sides of it can be compared (`Semver.inRange`).
-/

namespace Smrt

namespace Semver

/-- The beginning of a text, up to a letter. -/
def upTo (c : Char) (s : String) : String := String.ofList (s.toList.takeWhile fun d => d ≠ c)

/-- The numbers of a version, if it is nothing else. -/
def parse (s : String) : Option (List UInt64) :=
  let s := upTo '+' (trim s)
  let s := ((stripPrefix s "v").or (stripPrefix s "V")).getD s
  if s = "" then none
  else (s.toList.splitOnP fun c => c = '.').mapM fun seg => parseU64 (String.ofList seg)

/-- Numbers place by place, missing ones being zero. -/
def compareNumbers (a b : List UInt64) : Ordering :=
  let places := (List.range (max a.length b.length)).map fun i => compare (a.getD i 0) (b.getD i 0)
  (places.find? fun ord => ord ≠ .eq).getD .eq

def cmp (a b : String) : Option Ordering := do
  let pa ← parse a
  let pb ← parse b
  pure (compareNumbers pa pb)

/-- A number for each place, of which the first ones count most. -/
def Places : Type := Lex (ℕ → ℕ)

noncomputable instance : LinearOrder Places := inferInstanceAs (LinearOrder (Lex (ℕ → ℕ)))

def Places.get (p : Places) (i : ℕ) : ℕ := ofLex p i

theorem Places.lt_iff {p q : Places} :
    p < q ↔ ∃ i, (∀ j < i, p.get j = q.get j) ∧ p.get i < q.get i := Iff.rfl

/-- The numbers as they are compared, with zero behind the last. -/
def placeValues (a : List UInt64) : Places := toLex fun i => (a.getD i 0).toNat

theorem get_placeValues {a : List UInt64} {i : ℕ} :
    (placeValues a).get i = (a.getD i 0).toNat := rfl

theorem compare_eq_gt {x y : UInt64} : compare x y = .gt ↔ y.toNat < x.toNat := by
  rw [← UInt64.lt_iff_toNat_lt]
  exact compareOfLessAndEq_eq_gt UInt64.le_antisymm UInt64.le_total UInt64.not_le x y

/-- A number is greater if it is so in the first place in which the two differ. -/
theorem compareNumbers_eq_gt {a b : List UInt64} :
    compareNumbers a b = .gt ↔ placeValues b < placeValues a := by
  have hfirst : compareNumbers a b = .gt ↔ ∃ i, compare (a.getD i 0) (b.getD i 0) = .gt ∧
      i < max a.length b.length ∧ ∀ j < i, compare (a.getD j 0) (b.getD j 0) = .eq := by
    have hgt : ∀ o : Option Ordering, o.getD .eq = .gt ↔ o = some .gt := by
      intro o
      cases o <;> simp
    rw [compareNumbers, hgt, List.find?_map, Option.map_eq_some_iff]
    refine exists_congr fun i => ?_
    rw [List.find?_range_eq_some, List.mem_range]
    constructor
    · rintro ⟨⟨-, hi, hlow⟩, h⟩
      exact ⟨h, hi, fun j hj => by simpa using hlow j hj⟩
    · rintro ⟨h, hi, hlow⟩
      refine ⟨⟨?_, hi, fun j hj => by simpa using hlow j hj⟩, h⟩
      rw [Function.comp_apply, h]
      rfl
  rw [hfirst, Places.lt_iff]
  refine exists_congr fun i => ?_
  simp only [compare_eq_gt, Std.compare_eq_iff_eq, ← UInt64.toNat_inj, get_placeValues]
  constructor
  · rintro ⟨h, -, hlow⟩
    exact ⟨fun j hj => (hlow j hj).symm, h⟩
  · rintro ⟨hlow, h⟩
    refine ⟨h, ?_, fun j hj => (hlow j hj).symm⟩
    -- Behind the last number of both there is nothing to differ.
    refine lt_max_of_lt_left (not_le.1 fun hle => ?_)
    have hzero : a.getD i 0 = 0 := List.getD_eq_default _ _ hle
    rw [hzero] at h
    exact absurd h (Nat.not_lt_zero _)

/-- What a window asks of a version. -/
inductive Op
  | ge
  | gt
  | le
  | lt
  | eq
  /-- A tilde or a caret, of which only the lower bound is read. -/
  | lower
  deriving DecidableEq

/-- Whether a version that compares so with the bound is in the window. -/
def Op.admits : Op → Ordering → Bool
  | .ge, ord | .lower, ord => ord ≠ .lt
  | .gt, ord => ord = .gt
  | .le, ord => ord ≠ .gt
  | .lt, ord => ord = .lt
  | .eq, ord => ord = .eq

/-- The operators as they are written, the ones of two letters first. -/
def operators : List (String × Op) :=
  [(">=", .ge), ("<=", .le), ("==", .eq), (">", .gt), ("<", .lt), ("=", .eq), ("~", .lower),
    ("^", .lower)]

/-- The operator of a window and the bound behind it; a bare bound is a lower one. -/
def splitOp (r : String) : Op × String :=
  (operators.findSome? fun p => (stripPrefix r p.1).map fun rest => (p.2, rest)).getD (.ge, r)

/-- Whether a version is on the right side of one end of an interval; an empty end is open. -/
def withinEnd (version bound : String) (inclusive : Bool) (within : Ordering) : Option Bool :=
  if bound = "" then some true
  else (cmp version bound).map fun ord => ord = within ∨ (ord = .eq ∧ inclusive)

def interval (version r : String) : Option Bool :=
  let closing := r.toList.getLast?
  if closing ≠ some ']' ∧ closing ≠ some ')' then none
  else
    let inner := r.toList.tail.dropLast
    let lo := trim (String.ofList (inner.takeWhile fun c => c ≠ ','))
    match inner.dropWhile fun c => c ≠ ',' with
    -- A single value in brackets is that value, whatever the brackets are.
    | [] => (cmp version lo).map fun ord => ord = .eq
    | _ :: rest =>
      let hi := trim (String.ofList rest)
      match withinEnd version lo (r.toList.head? = some '[') .gt with
      | some true => withinEnd version hi (closing = some ']') .lt
      | answer => answer

/-- Whether a version is in a window, if that can be read off them. -/
def inRange (version range : String) : Option Bool :=
  let r := trim range
  if r = "" ∨ r = "*" ∨ r.toList.map Char.toLower = "any".toList then none
  else if r.toList.head? = some '[' ∨ r.toList.head? = some '(' then interval version r
  else
    let (op, bound) := splitOp r
    (cmp version (trim bound)).map op.admits

example : inRange "0.6.13+mc1.21.1" "[0.8.12+mc1.21.1,)" = some false := by decide +kernel

example : inRange "9.9.9" "~1.2.0" = some true := by decide +kernel

example : inRange "4.1.0-beta" "[4.0,)" = none := by decide +kernel

end Semver

end Smrt
