import Mathlib.Data.List.Basic
import Mathlib.Order.Lattice.Nat
import Mathlib.Tactic.SplitIfs

/-!
# The smallest edit

An edit of a list puts some elements in the place of some others next to each other (`Patch.splice`).
`patch` skips what two lists begin with, then what they end with, and replaces what is left.

* `splice_of_patch`: it makes the second list of the first one;
* `patch_smallest`: no edit that does removes less, or inserts less;
* `le_common`, `le_tail`: what is skipped is all there is to skip.
-/

namespace Smrt

/-- An edit of a list: how much to remove at a place, and what to insert there. -/
structure Patch (α : Type*) where
  index : ℕ
  remove : ℕ
  insert : List α
  deriving DecidableEq

namespace Patch

variable {α : Type*}

def splice (p : Patch α) (l : List α) : List α :=
  l.take p.index ++ p.insert ++ l.drop (p.index + p.remove)

variable [DecidableEq α]

/-- How many elements two lists begin with alike. -/
def common : List α → List α → ℕ
  | a :: l, b :: m => if a = b then common l m + 1 else 0
  | _, _ => 0

/-- How many elements they end with alike, beside those that they begin with. -/
def tail (l m : List α) : ℕ :=
  let rest := min l.length m.length - common l m
  common (l.reverse.take rest) (m.reverse.take rest)

/-- The smallest edit that makes the second list of the first one. -/
def patch (l m : List α) : Option (Patch α) :=
  if l = m then none
  else some {
    index := common l m
    remove := l.length - common l m - tail l m
    insert := (m.take (m.length - tail l m)).drop (common l m) }

variable {l m : List α} {n : ℕ} {p : Patch α}

/-- What lists begin with alike. -/
theorem le_common : n ≤ common l m ↔ n ≤ l.length ∧ n ≤ m.length ∧ l.take n = m.take n := by
  induction l generalizing m n with
  | nil =>
    rw [common, Nat.le_zero]
    · exact ⟨fun h => by simp [h], fun h => Nat.le_zero.1 h.1⟩
    · simp
  | cons a l ih =>
    rcases m with _ | ⟨b, m⟩
    · rw [common, Nat.le_zero]
      · exact ⟨fun h => by simp [h], fun h => Nat.le_zero.1 h.2.1⟩
      · simp
    · rcases n with _ | n
      · simp
      · rw [common]
        split_ifs with hab
        · rw [Nat.add_le_add_iff_right, ih, hab]
          simp
        · simp [hab]

/-- What they end with alike. -/
theorem le_tail : n ≤ tail l m ↔ n ≤ min l.length m.length - common l m ∧
    l.drop (l.length - n) = m.drop (m.length - n) := by
  have hrest : min l.length m.length - common l m ≤ min l.length m.length := Nat.sub_le ..
  rw [tail, le_common]
  simp only [List.length_take, List.length_reverse, List.take_take]
  constructor
  · rintro ⟨h₁, -, h⟩
    have hn : n ≤ min l.length m.length - common l m := h₁.trans (Nat.min_le_left ..)
    rw [Nat.min_eq_left hn, List.take_reverse, List.take_reverse, List.reverse_inj] at h
    exact ⟨hn, h⟩
  · rintro ⟨hn, h⟩
    rw [Nat.min_eq_left hn, List.take_reverse, List.take_reverse, h]
    exact ⟨by omega, by omega, rfl⟩

theorem common_le_left : common l m ≤ l.length := (le_common.1 (Nat.le_refl _)).1

theorem common_le_right : common l m ≤ m.length := (le_common.1 (Nat.le_refl _)).2.1

theorem take_common : l.take (common l m) = m.take (common l m) :=
  (le_common.1 (Nat.le_refl _)).2.2

theorem tail_le : tail l m ≤ min l.length m.length - common l m :=
  (le_tail.1 (Nat.le_refl _)).1

theorem drop_tail : l.drop (l.length - tail l m) = m.drop (m.length - tail l m) :=
  (le_tail.1 (Nat.le_refl _)).2

theorem patch_eq_none : patch l m = none ↔ l = m := by
  rw [patch]
  split_ifs with h
  · exact iff_of_true rfl h
  · simp [h]

/-- The edit makes the second list of the first one. -/
theorem splice_of_patch (h : patch l m = some p) : p.splice l = m := by
  rw [patch] at h
  split_ifs at h
  obtain rfl := Option.some.inj h
  have hl : common l m ≤ l.length := common_le_left
  have hm : common l m ≤ m.length := common_le_right
  have ht : tail l m ≤ min l.length m.length - common l m := tail_le
  have hend : common l m + (l.length - common l m - tail l m) = l.length - tail l m := by omega
  show l.take (common l m) ++ (m.take (m.length - tail l m)).drop (common l m) ++
    l.drop (common l m + (l.length - common l m - tail l m)) = m
  rw [hend, drop_tail, take_common,
    show m.take (common l m) = (m.take (m.length - tail l m)).take (common l m) by
      rw [List.take_take, Nat.min_eq_left (by omega)],
    List.take_append_drop, List.take_append_drop]

/-- No edit that does removes less, or inserts less. -/
theorem patch_smallest (h : patch l m = some p) {q : Patch α}
    (hq : q.index + q.remove ≤ l.length) (hm : q.splice l = m) :
    p.remove ≤ q.remove ∧ p.insert.length ≤ q.insert.length := by
  rw [patch] at h
  split_ifs at h
  obtain rfl := Option.some.inj h
  have hlen : m.length = q.index + q.insert.length + (l.length - (q.index + q.remove)) := by
    rw [← hm, splice, List.length_append, List.length_append, List.length_take, List.length_drop]
    omega
  have hindex : q.index ≤ common l m := by
    refine le_common.2 ⟨by omega, by omega, ?_⟩
    rw [← hm, splice, List.append_assoc, List.take_append_of_le_length, List.take_take,
      Nat.min_self]
    rw [List.length_take]
    omega
  -- What comes after the edit is alike, and so is any shorter end of it.
  have hdrop (k : ℕ) (hk : k ≤ l.length - (q.index + q.remove)) :
      l.drop (l.length - k) = m.drop (m.length - k) := by
    have hsuffix : m.drop (q.index + q.insert.length) = l.drop (q.index + q.remove) := by
      rw [← hm, splice, List.drop_append_of_le_length]
      · rw [List.drop_eq_nil_of_le, List.nil_append]
        rw [List.length_append, List.length_take]
        omega
      · rw [List.length_append, List.length_take]
        omega
    rw [show m.length - k = q.index + q.insert.length + (l.length - (q.index + q.remove) - k) by
        omega, ← List.drop_drop, hsuffix, List.drop_drop]
    congr 1
    omega
  have htail : min (l.length - (q.index + q.remove)) (min l.length m.length - common l m) ≤
      tail l m :=
    le_tail.2 ⟨Nat.min_le_right .., hdrop _ (Nat.min_le_left ..)⟩
  have hl : common l m ≤ l.length := common_le_left
  have hr : common l m ≤ m.length := common_le_right
  have ht : tail l m ≤ min l.length m.length - common l m := tail_le
  constructor
  · show l.length - common l m - tail l m ≤ q.remove
    omega
  · show ((m.take (m.length - tail l m)).drop (common l m)).length ≤ q.insert.length
    rw [List.length_drop, List.length_take]
    omega

end Patch

end Smrt
