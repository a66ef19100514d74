import Mathlib.Algebra.Group.Nat.Defs
import Mathlib.Data.List.Basic
import Mathlib.Data.Nat.Notation

/-!
# Pack versions

A version is compared number by number, so that `.10` comes after `.2` (`comparePackVersions`).
-/

namespace Smrt

/-- Decimal digits, and not none. -/
def isDigits (s : List Char) : Bool := s ≠ [] ∧ s.all Char.isDigit

def parseU64 (s : String) : Option UInt64 :=
  let digits := match s.toList with
    | '+' :: r => r
    | r => r
  let n := digits.foldl (fun n c => 10 * n + (c.toNat - 48)) 0
  if isDigits digits ∧ n < 2 ^ 64 then some (.ofNat n) else none

/-- The numbers of a version; what is not a number is zero. -/
def packVersionTuple (version : String) : List UInt64 :=
  (version.toList.splitOnP fun c => c = '.').map fun seg => (parseU64 (String.ofList seg)).getD 0

/-- Versions are compared number by number, and what is missing is zero. -/
def comparePackVersions (a b : String) : Ordering :=
  let n := max (packVersionTuple a).length (packVersionTuple b).length
  compare ((packVersionTuple a).rightpad n 0) ((packVersionTuple b).rightpad n 0)

theorem comparePackVersions_self (v : String) : comparePackVersions v v = .eq := by
  rw [comparePackVersions]
  exact Std.ReflCmp.compare_self

example : comparePackVersions "2026.05.22.10" "2026.05.22.2" = .gt := by decide +kernel

end Smrt
