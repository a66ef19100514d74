import Smrt.Domain.Version
import Smrt.Lib.Decimal

/-!
# The order of pack versions

Versions are compared as if they had as many numbers as one likes, the missing ones being zero
(`comparePackVersions_eq`). So their comparison is an order, though not of the texts: different
versions may be equal in it. A number is what its digits say (`decimal_eq_some`).
-/

namespace Smrt

section Compare

variable {a b c : List UInt64} {x y : UInt64}

theorem compare_self (a : List UInt64) : compare a a = .eq := Std.ReflCmp.compare_self

theorem compare_cons : compare (x :: a) (y :: b) = (compare x y).then (compare a b) :=
  List.compareLex_cons_cons

/-- What follows both is not compared, if it is the same and in the same place. -/
theorem compare_append_right (h : a.length = b.length) :
    compare (a ++ c) (b ++ c) = compare a b := by
  induction a generalizing b with
  | nil =>
    obtain rfl := List.length_eq_zero_iff.1 h.symm
    rw [List.nil_append, compare_self, compare_self]
  | cons x a ih =>
    obtain ⟨y, b, rfl⟩ := List.exists_cons_of_length_eq_add_one h.symm
    rw [List.cons_append, List.cons_append, compare_cons, ih (Nat.succ.inj h), compare_cons]

/-- What comes before both is not compared, if it is the same. -/
theorem compare_append_left : compare (c ++ a) (c ++ b) = compare a b := by
  induction c with
  | nil => rfl
  | cons x c ih =>
    have hx : compare x x = .eq := Std.ReflCmp.compare_self
    rw [List.cons_append, List.cons_append, compare_cons, ih, hx, Ordering.eq_then]

theorem rightpad_rightpad {n m : ℕ} (hn : a.length ≤ n) (hm : n ≤ m) :
    a.rightpad m 0 = a.rightpad n 0 ++ List.replicate (m - n) 0 := by
  rw [List.rightpad, List.rightpad, List.append_assoc, List.replicate_append_replicate]
  congr 2
  omega

end Compare

section Order

variable {u v w : String}

/-- The numbers may be compared with more zeros behind them. -/
theorem comparePackVersions_eq {n : ℕ} (hu : (packVersionTuple u).length ≤ n)
    (hv : (packVersionTuple v).length ≤ n) : comparePackVersions u v =
      compare ((packVersionTuple u).rightpad n 0) ((packVersionTuple v).rightpad n 0) := by
  have hmax := Nat.max_le.2 ⟨hu, hv⟩
  rw [comparePackVersions, rightpad_rightpad (Nat.le_max_left _ _) hmax,
    rightpad_rightpad (Nat.le_max_right _ _) hmax, compare_append_right]
  rw [List.length_rightpad, List.length_rightpad]
  omega

/-- A version is not after another one. -/
def PackVersionLe (u v : String) : Prop := comparePackVersions u v ≠ .gt

instance : DecidableRel PackVersionLe := fun u v =>
  inferInstanceAs (Decidable (comparePackVersions u v ≠ .gt))

theorem PackVersionLe.trans (huv : PackVersionLe u v) (hvw : PackVersionLe v w) :
    PackVersionLe u w := by
  obtain ⟨n, hu, hv, hw⟩ : ∃ n, (packVersionTuple u).length ≤ n ∧ (packVersionTuple v).length ≤ n ∧
      (packVersionTuple w).length ≤ n :=
    ⟨(packVersionTuple u).length + (packVersionTuple v).length + (packVersionTuple w).length,
      by omega, by omega, by omega⟩
  rw [PackVersionLe, comparePackVersions_eq hu hv, ne_eq, ← Ordering.isLE_iff_ne_gt] at huv
  rw [PackVersionLe, comparePackVersions_eq hv hw, ne_eq, ← Ordering.isLE_iff_ne_gt] at hvw
  rw [PackVersionLe, comparePackVersions_eq hu hw, ne_eq, ← Ordering.isLE_iff_ne_gt]
  exact Std.TransCmp.isLE_trans huv hvw

theorem comparePackVersions_swap : comparePackVersions u v = (comparePackVersions v u).swap := by
  rw [comparePackVersions, comparePackVersions, Nat.max_comm]
  exact Std.OrientedCmp.eq_swap

theorem PackVersionLe.of_not (h : ¬ PackVersionLe u v) : PackVersionLe v u := by
  rw [PackVersionLe, not_not] at h
  rw [PackVersionLe, comparePackVersions_swap, h]
  exact nofun

end Order

/-! ## How a number is read -/

section Numbers

variable {s : String} {n : ℕ}

theorem decimal_eq_some {l : List Char} :
    decimal l = some n ↔ isDigits l = true ∧ Nat.ofDigitChars 10 l 0 = n := by
  rw [decimal, isDigits, decide_eq_true_iff]
  split_ifs with h
  · rw [Option.some.injEq, and_iff_right h]
  · exact iff_of_false not_false fun hn => h hn.1

/-- A number without a sign before it is read by its digits. -/
theorem parseU64_eq (h : '+' ∉ s.toList) : parseU64 s =
    if isDigits s.toList = true ∧ Nat.ofDigitChars 10 s.toList 0 < 2 ^ 64 then
      some (.ofNat (Nat.ofDigitChars 10 s.toList 0))
    else none := by
  rw [parseU64]
  split
  · rename_i r hr
    exact absurd (hr ▸ List.mem_cons_self) h
  · rfl

/-- A letter is in a piece, or it separates pieces. -/
theorem mem_splitOnP {α : Type*} {p : α → Bool} {l : List α} {a : α} (h : a ∈ l) :
    p a = true ∨ ∃ seg ∈ l.splitOnP p, a ∈ seg := by
  induction l with
  | nil => exact absurd h List.not_mem_nil
  | cons b l ih =>
    rw [List.splitOnP_cons_eq_if_modifyHead]
    by_cases hb : p b = true
    · rw [if_pos hb]
      rcases List.mem_cons.1 h with rfl | h
      · exact .inl hb
      · exact (ih h).imp_right fun ⟨seg, hseg, ha⟩ => ⟨seg, List.mem_cons_of_mem _ hseg, ha⟩
    · rw [if_neg hb]
      rcases hs : l.splitOnP p with _ | ⟨seg, segs⟩
      · exact absurd hs (List.splitOnP_ne_nil p l)
      rw [List.modifyHead_cons]
      rw [hs] at ih
      rcases List.mem_cons.1 h with rfl | h
      · exact .inr ⟨_, List.mem_cons_self, List.mem_cons_self⟩
      · refine (ih h).imp_right ?_
        rintro ⟨seg', hseg, ha⟩
        rcases List.mem_cons.1 hseg with rfl | hseg
        · exact ⟨_, List.mem_cons_self, List.mem_cons_of_mem _ ha⟩
        · exact ⟨seg', List.mem_cons_of_mem _ hseg, ha⟩

end Numbers

end Smrt
