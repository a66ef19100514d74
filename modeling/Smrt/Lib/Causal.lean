import Mathlib.Logic.Function.Iterate
import Mathlib.Order.Lattice.Nat

/-!
# Updates that follow others

A replica of a document is given updates, in any order, and some of them never. An update follows
others; it takes effect as soon as all of these have, and is held until then (`Ready`).

* `mem_shown`: the updates that have taken effect are those of the rounds of a loop over what is
  held, each of which adds the updates that follow only what the last one had (`shown`);
* `Ready.mono`: what is given later takes nothing back;
* `Ready.subset`: a replica that holds all that takes effect in another one shows all that it does.
-/

namespace Smrt.Causal

variable {ι : Type*}

/-- An update: its name, and the names of the updates that it follows. -/
structure Update (ι : Type*) where
  name : ι
  after : List ι
  deriving DecidableEq

/-- The update of a name takes effect where these updates are held. -/
inductive Ready (held : List (Update ι)) : ι → Prop
  | of {u : Update ι} : u ∈ held → (∀ i ∈ u.after, Ready held i) → Ready held u.name

section Ready

variable {held held' : List (Update ι)} {i : ι}

theorem Ready.exists (h : Ready held i) :
    ∃ u ∈ held, u.name = i ∧ ∀ j ∈ u.after, Ready held j := by
  obtain ⟨hu, hafter⟩ := h
  exact ⟨_, hu, rfl, hafter⟩

/-- A replica that holds all that takes effect in another one shows all that it does. -/
theorem Ready.subset (h : Ready held i) (hsub : ∀ u ∈ held, Ready held u.name → u ∈ held') :
    Ready held' i := by
  induction h with
  | of hu hafter ih => exact .of (hsub _ hu (.of hu hafter)) ih

/-- What is given later takes nothing back. -/
theorem Ready.mono (h : Ready held i) (hsub : ∀ u ∈ held, u ∈ held') : Ready held' i :=
  h.subset fun u hu _ => hsub u hu

end Ready

/-! ## Rounds -/

variable [DecidableEq ι] (held : List (Update ι))

/-- The updates that follow only what is done. -/
def free (done : List ι) : List (Update ι) := held.filter fun u => u.after.all (· ∈ done)

def round (done : List ι) : List ι := (free held done).map Update.name

/-- The names of the updates that take effect. -/
def shown : List ι := (round held)^[held.length] []

variable {held} {i : ι}

theorem mem_free {done : List ι} {u : Update ι} :
    u ∈ free held done ↔ u ∈ held ∧ ∀ i ∈ u.after, i ∈ done := by
  rw [free, List.mem_filter, List.all_eq_true]
  simp only [decide_eq_true_eq]

theorem free_sublist {done done' : List ι} (h : done ⊆ done') :
    (free held done).Sublist (free held done') := by
  refine List.monotone_filter_right held fun u hu => ?_
  rw [List.all_eq_true] at hu ⊢
  intro i hi
  exact decide_eq_true (h (of_decide_eq_true (hu i hi)))

theorem round_subset {done done' : List ι} (h : done ⊆ done') :
    round held done ⊆ round held done' :=
  List.map_subset _ (free_sublist h).subset

theorem iterate_round_subset (held : List (Update ι)) (k : ℕ) :
    (round held)^[k] [] ⊆ (round held)^[k + 1] [] := by
  induction k with
  | zero => exact List.nil_subset _
  | succ k ih =>
    rw [Function.iterate_succ_apply', Function.iterate_succ_apply' _ (k + 1)]
    exact round_subset ih

/-- A round that changes nothing is the last one; every other one adds an update. -/
theorem iterate_round (held : List (Update ι)) (k : ℕ) :
    (round held)^[k + 1] [] = (round held)^[k] [] ∨
      k + 1 ≤ (free held ((round held)^[k] [])).length := by
  induction k with
  | zero =>
    rcases hf : free held [] with _ | ⟨u, l⟩
    · left
      show (free held []).map Update.name = []
      rw [hf, List.map_nil]
    · right
      show 0 + 1 ≤ (free held []).length
      rw [hf]
      exact Nat.le_add_left ..
  | succ k ih =>
    rcases ih with ih | ih
    · left
      rw [Function.iterate_succ_apply' _ (k + 1), ih, ← Function.iterate_succ_apply' (round held), ih]
    · have hsub : (free held ((round held)^[k] [])).Sublist (free held ((round held)^[k + 1] [])) :=
        free_sublist (iterate_round_subset held k)
      rcases Nat.lt_or_ge (free held ((round held)^[k] [])).length
        (free held ((round held)^[k + 1] [])).length with hlt | hge
      · exact .inr (ih.trans_lt hlt)
      · left
        rw [Function.iterate_succ_apply' _ (k + 1), round, ← hsub.eq_of_length_le hge, ← round,
          ← Function.iterate_succ_apply' (round held)]

/-- After as many rounds as there are updates, another one changes nothing. -/
theorem round_shown : round held (shown held) = shown held := by
  rw [shown, ← Function.iterate_succ_apply' (round held)]
  rcases iterate_round held held.length with h | h
  · exact h
  · exact absurd (h.trans (List.length_filter_le ..)) (Nat.not_succ_le_self _)

theorem ready_of_mem_iterate {k : ℕ} (h : i ∈ (round held)^[k] []) : Ready held i := by
  induction k generalizing i with
  | zero => exact absurd h List.not_mem_nil
  | succ k ih =>
    rw [Function.iterate_succ_apply'] at h
    obtain ⟨u, hu, rfl⟩ := List.mem_map.1 h
    obtain ⟨hheld, hafter⟩ := mem_free.1 hu
    exact .of hheld fun j hj => ih (hafter j hj)

theorem mem_shown : i ∈ shown held ↔ Ready held i := by
  constructor
  · exact ready_of_mem_iterate
  · intro h
    induction h with
    | of hu _ ih =>
      rw [← round_shown]
      exact List.mem_map_of_mem (mem_free.2 ⟨hu, ih⟩)

instance (held : List (Update ι)) : DecidablePred (Ready held) := fun _ =>
  decidable_of_iff _ mem_shown

end Smrt.Causal
