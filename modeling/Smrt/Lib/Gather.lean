import Mathlib.Data.List.Nodup

/-!
# Gathering

A pass over a list gathers things in a state. What is in the state after the pass was there before
it, or was brought by an element of the list (`foldl_iff`), if that is so of one element. A part of
the state is what the last element made it that did (`foldl_last`), or the first (`foldl_first`), or
what they all brought (`foldl_grows`). Things may be put at the end of a list if they are not to be
skipped, and are new: these are there once (`mem_pushNew`, `nodup_pushNew`).
-/

namespace Smrt

variable {σ α β : Type*} {f : σ → α → σ}

/-- What holds after a pass: it did before, or an element made it so, if what one element does is to
    make it so or to leave it as it was. -/
theorem foldl_iff {Q : σ → Prop} {P : α → Prop} (hf : ∀ s a, Q (f s a) ↔ Q s ∨ P a)
    (l : List α) (s : σ) : Q (l.foldl f s) ↔ Q s ∨ ∃ a ∈ l, P a := by
  induction l generalizing s with
  | nil => simp
  | cons a l ih => rw [List.foldl_cons, ih, hf, or_assoc, List.exists_mem_cons_iff]

/-- What every element keeps holds after a pass. -/
theorem foldl_keeps {Q : σ → Prop} (hf : ∀ s a, Q s → Q (f s a)) (l : List α) {s : σ} (h : Q s) :
    Q (l.foldl f s) := by
  induction l generalizing s with
  | nil => exact h
  | cons a l ih => exact ih (hf s a h)

/-! ## Parts of a state -/

section Parts

variable {γ : Type*}

/-- A part of a state that elements set is what the last one of them set it to. -/
theorem foldl_last (get : σ → γ) {g : α → Option γ}
    (h : ∀ s a, get (f s a) = (g a).getD (get s)) (l : List α) (s : σ) :
    get (l.foldl f s) = ((l.filterMap g).getLast?).getD (get s) := by
  induction l generalizing s with
  | nil => rfl
  | cons a l ih =>
    rw [List.foldl_cons, ih, h]
    rcases hg : g a with _ | b
    · rw [List.filterMap_cons_none hg]
      rfl
    · rw [List.filterMap_cons_some hg, List.getLast?_cons]
      rfl

/-- A part of a state that is set once is what the first element sets it to that does. -/
theorem foldl_first (get : σ → Option γ) {g : α → Option γ}
    (h : ∀ s a, get (f s a) = (get s).or (g a)) (l : List α) (s : σ) :
    get (l.foldl f s) = (get s).or (l.findSome? g) := by
  induction l generalizing s with
  | nil => exact (Option.or_none).symm
  | cons a l ih =>
    rw [List.foldl_cons, ih, h, Option.or_assoc, List.findSome?_cons]
    rcases g a with _ | b
    · rw [Option.none_or]
    · rw [Option.some_or]

/-- A part of a state that grows has what the elements bring, in their order. -/
theorem foldl_grows (get : σ → List γ) {g : α → List γ}
    (h : ∀ s a, get (f s a) = get s ++ g a) (l : List α) (s : σ) :
    get (l.foldl f s) = get s ++ l.flatMap g := by
  induction l generalizing s with
  | nil => exact (List.append_nil _).symm
  | cons a l ih => rw [List.foldl_cons, ih, h, List.append_assoc, List.flatMap_cons]

end Parts

/-! ## What is found in some elements -/

section Filter

variable {p : α → Bool}

theorem filterMap_ite (l : List α) :
    (l.filterMap fun a => if p a then some a else none) = l.filter p :=
  congrFun List.filterMap_eq_filter l

theorem findSome?_filter (g : α → Option β) (l : List α) :
    (l.findSome? fun a => if p a then g a else none) = (l.filter p).findSome? g := by
  induction l with
  | nil => rfl
  | cons a l ih =>
    rw [List.findSome?_cons, List.filter_cons, ih]
    by_cases h : p a = true
    · rw [if_pos h, if_pos h, List.findSome?_cons]
    · rw [if_neg h, if_neg h]

theorem flatMap_filter (g : α → List β) (l : List α) :
    (l.flatMap fun a => if p a then g a else []) = (l.filter p).flatMap g := by
  induction l with
  | nil => rfl
  | cons a l ih =>
    rw [List.flatMap_cons, List.filter_cons, ih]
    by_cases h : p a = true
    · rw [if_pos h, if_pos h, List.flatMap_cons]
    · rw [if_neg h, if_neg h, List.nil_append]

/-- The last one of all parts is the last one of those that have one. -/
theorem getLast?_parts (parts : List (List α)) :
    (parts.filterMap fun l => (l.filter p).getLast?).getLast? =
      (parts.flatten.filter p).getLast? := by
  induction parts with
  | nil => rfl
  | cons l parts ih =>
    rw [List.flatten_cons, List.filter_append, List.getLast?_append, ← ih, List.filterMap_cons]
    rcases (l.filter p).getLast? with _ | a
    · exact Option.or_none.symm
    · dsimp only
      rw [List.getLast?_cons, Option.or_some]

theorem findSome?_parts (g : α → Option β) (parts : List (List α)) :
    (parts.findSome? fun l => (l.filter p).findSome? g) =
      (parts.flatten.filter p).findSome? g := by
  induction parts with
  | nil => rfl
  | cons l parts ih =>
    rw [List.flatten_cons, List.filter_append, List.findSome?_append, ← ih, List.findSome?_cons]
    rcases (l.filter p).findSome? g with _ | b <;> rfl

theorem flatMap_parts (g : α → List β) (parts : List (List α)) :
    (parts.flatMap fun l => (l.filter p).flatMap g) = (parts.flatten.filter p).flatMap g := by
  induction parts with
  | nil => rfl
  | cons l parts ih =>
    rw [List.flatten_cons, List.filter_append, List.flatMap_append, ← ih, List.flatMap_cons]

end Filter

section Push

variable [DecidableEq β] {skip : Prop} [Decidable skip] {acc : List β} {b t : β}

/-- A new element at the end of a list, unless it is one to skip. -/
theorem mem_pushNew :
    t ∈ (if skip ∨ b ∈ acc then acc else acc ++ [b]) ↔ t ∈ acc ∨ ¬ skip ∧ b = t := by
  by_cases h : skip ∨ b ∈ acc
  · rw [if_pos h]
    refine (or_iff_left_of_imp ?_).symm
    intro hb
    exact hb.2 ▸ h.resolve_left hb.1
  · rw [if_neg h, List.mem_append, List.mem_singleton, eq_comm (a := b)]
    exact or_congr_right (and_iff_right (not_or.1 h).1).symm

theorem nodup_pushNew (h : acc.Nodup) : (if skip ∨ b ∈ acc then acc else acc ++ [b]).Nodup := by
  by_cases hb : skip ∨ b ∈ acc
  · rw [if_pos hb]
    exact h
  · rw [if_neg hb]
    exact h.append (List.nodup_singleton b) (List.disjoint_singleton.2 (not_or.1 hb).2)

end Push

end Smrt
