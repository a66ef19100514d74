import Mathlib.Data.List.Infix
import Mathlib.Data.String.Basic

/-!
# Ends of texts

A text without what it ends with, once (`stripSuffix`) or as often as it ends with it
(`trimEndMatches`).

* `stripSuffix_eq_some`: stripping takes back what was appended;
* `trimEndMatches_append`, `trimEndMatches_eq_self`: trimming takes back all of it, and leaves alone
  what does not end so.
-/

namespace Smrt

section List

variable {α : Type*} [DecidableEq α] {w l : List α}

/-- A list without the end `w`, taken off so many times at most. -/
def dropEnds (w : List α) : ℕ → List α → List α
  | 0, l => l
  | n + 1, l => if w <:+ l then dropEnds w n (l.take (l.length - w.length)) else l

theorem dropEnds_of_not {n : ℕ} (h : ¬ w <:+ l) : dropEnds w n l = l := by
  rcases n with _ | n
  · rfl
  · rw [dropEnds, if_neg h]

theorem dropEnds_append {n : ℕ} : dropEnds w (n + 1) (l ++ w) = dropEnds w n l := by
  rw [dropEnds, if_pos (List.suffix_append l w), List.length_append, Nat.add_sub_cancel,
    List.take_left]

/-- What is left when the end is taken off as often as there are letters does not end so. -/
theorem not_suffix_dropEnds (hw : w ≠ []) {n : ℕ} (hn : l.length ≤ n) : ¬ w <:+ dropEnds w n l := by
  induction n generalizing l with
  | zero =>
    obtain rfl := List.length_eq_zero_iff.1 (Nat.le_zero.1 hn)
    exact fun h => hw (List.suffix_nil.1 h)
  | succ n ih =>
    by_cases h : w <:+ l
    · obtain ⟨r, rfl⟩ := h
      have hpos := List.length_pos_of_ne_nil hw
      rw [List.length_append] at hn
      rw [dropEnds_append]
      exact ih (by omega)
    · rwa [dropEnds_of_not h]

/-- Nothing is left that was not there. -/
theorem dropEnds_subset {n : ℕ} : dropEnds w n l ⊆ l := by
  induction n generalizing l with
  | zero => exact List.Subset.refl _
  | succ n ih =>
    by_cases h : w <:+ l
    · rw [dropEnds, if_pos h]
      exact List.Subset.trans ih (List.take_subset _ _)
    · rw [dropEnds_of_not h]
      exact List.Subset.refl _

end List

variable {s r w : String}

/-- What comes before an end. -/
def stripSuffix (s w : String) : Option String :=
  if w.toList <:+ s.toList then
    some (String.ofList (s.toList.take (s.toList.length - w.toList.length)))
  else none

theorem stripSuffix_eq_some : stripSuffix s w = some r ↔ s = r ++ w := by
  rw [stripSuffix]
  constructor
  · intro h
    by_cases hw : w.toList <:+ s.toList
    · rw [if_pos hw, Option.some.injEq] at h
      obtain ⟨l, hl⟩ := hw
      rw [← hl, List.length_append, Nat.add_sub_cancel, List.take_left] at h
      rw [← String.toList_inj, String.toList_append, ← hl, ← h, String.toList_ofList]
    · rw [if_neg hw] at h
      exact absurd h nofun
  · rintro rfl
    rw [String.toList_append, if_pos (List.suffix_append _ _), List.length_append,
      Nat.add_sub_cancel, List.take_left, String.ofList_toList]

/-- The text without the ends that are `w`. -/
def trimEndMatches (s w : String) : String :=
  String.ofList (dropEnds w.toList s.toList.length s.toList)

/-- A text that does not end so stays as it is, and no other does. -/
theorem trimEndMatches_eq_self (hw : w ≠ "") :
    trimEndMatches s w = s ↔ ¬ w.toList <:+ s.toList := by
  have hne : w.toList ≠ [] := fun he => hw (String.toList_eq_nil_iff.1 he)
  constructor
  · intro h hs
    have hdrop := not_suffix_dropEnds hne (le_refl s.toList.length)
    rw [← String.toList_ofList (l := dropEnds _ _ _)] at hdrop
    exact hdrop (by rwa [← trimEndMatches, h])
  · intro h
    rw [trimEndMatches, dropEnds_of_not h, String.ofList_toList]

/-- An end that is appended is taken off again, with all that end so too. -/
theorem trimEndMatches_append (hw : w ≠ "") : trimEndMatches (s ++ w) w = trimEndMatches s w := by
  have hpos : 0 < w.toList.length :=
    List.length_pos_of_ne_nil fun he => hw (String.toList_eq_nil_iff.1 he)
  -- More rounds than are needed change nothing.
  have hmore : ∀ {l : List Char} {n m : ℕ}, l.length ≤ n → n ≤ m →
      dropEnds w.toList m l = dropEnds w.toList n l := by
    intro l n
    induction n generalizing l with
    | zero =>
      intro m hl _
      obtain rfl := List.length_eq_zero_iff.1 (Nat.le_zero.1 hl)
      exact dropEnds_of_not fun hs => by rw [List.suffix_nil.1 hs] at hpos; exact absurd hpos nofun
    | succ n ih =>
      intro m hl hm
      obtain ⟨m, rfl⟩ : ∃ k, m = k + 1 := ⟨m - 1, by omega⟩
      by_cases hs : w.toList <:+ l
      · obtain ⟨r, rfl⟩ := hs
        rw [List.length_append] at hl
        rw [dropEnds_append, dropEnds_append]
        exact ih (by omega) (by omega)
      · rw [dropEnds_of_not hs, dropEnds_of_not hs]
  rw [trimEndMatches, String.toList_append, List.length_append, trimEndMatches]
  obtain ⟨k, hk⟩ : ∃ k, s.toList.length + w.toList.length = k + 1 := ⟨_, (Nat.succ_pred_eq_of_pos
    (by omega)).symm⟩
  rw [hk, dropEnds_append, hmore (le_refl _) (by omega)]

theorem mem_of_mem_trimEndMatches {c : Char} (h : c ∈ (trimEndMatches s w).toList) :
    c ∈ s.toList := by
  rw [trimEndMatches, String.toList_ofList] at h
  exact dropEnds_subset h

/-- What is left does not end so. -/
theorem not_suffix_trimEndMatches (hw : w ≠ "") : ¬ w.toList <:+ (trimEndMatches s w).toList := by
  rw [trimEndMatches, String.toList_ofList]
  exact not_suffix_dropEnds (fun he => hw (String.toList_eq_nil_iff.1 he)) (le_refl _)

end Smrt
