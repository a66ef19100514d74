import Mathlib.Data.List.Basic

/-!
# Maps in the order of insertion

A map is the list of its rows in the order in which their keys were first set. A key that is set
again keeps its place (`set`); a map of lists collects values under their keys (`pushTo`), in the
order in which they come (`lookup_foldl_pushTo`).
-/

namespace Smrt.Assoc

variable {κ α β : Type*} [DecidableEq κ]

def set (k : κ) (a : α) : List (κ × α) → List (κ × α)
  | [] => [(k, a)]
  | p :: map => if p.1 = k then (k, a) :: map else p :: set k a map

/-- A value is appended to the list of its key. -/
def pushTo (map : List (κ × List α)) (key : κ) (value : α) : List (κ × List α) :=
  match map.lookup key with
  | some bucket => set key (bucket ++ [value]) map
  | none => set key [value] map

theorem lookup_cons (p : κ × α) (map : List (κ × α)) (k : κ) :
    (p :: map).lookup k = if k = p.1 then some p.2 else map.lookup k := by
  obtain ⟨k', a⟩ := p
  by_cases h : k = k'
  · simp [h]
  · simp [List.lookup_cons, h, beq_eq_false_iff_ne.2 h]

theorem lookup_set (k : κ) (a : α) (map : List (κ × α)) (k' : κ) :
    (set k a map).lookup k' = if k' = k then some a else map.lookup k' := by
  induction map with
  | nil => exact lookup_cons (k, a) [] k'
  | cons p map ih =>
    rw [set]
    by_cases hp : p.1 = k
    · rw [if_pos hp, lookup_cons, lookup_cons, hp]
      split_ifs <;> rfl
    · rw [if_neg hp, lookup_cons, lookup_cons, ih]
      by_cases h : k' = k
      · rw [if_pos h, if_pos h, if_neg fun he => hp (he.symm.trans h)]
      · rw [if_neg h, if_neg h]

theorem getD_lookup_pushTo (map : List (κ × List α)) (key : κ) (value : α) (k : κ) :
    ((pushTo map key value).lookup k).getD [] =
      (map.lookup k).getD [] ++ if k = key then [value] else [] := by
  rw [pushTo]
  rcases hbucket : map.lookup key with _ | bucket <;> dsimp only <;> rw [lookup_set] <;>
    by_cases h : k = key
  · rw [if_pos h, if_pos h, h, hbucket]
    rfl
  · rw [if_neg h, if_neg h, List.append_nil]
  · rw [if_pos h, if_pos h, h, hbucket]
    rfl
  · rw [if_neg h, if_neg h, List.append_nil]

/-- What is collected under a key. -/
theorem lookup_foldl_pushTo (key : β → κ) (value : β → α) (l : List β) (map : List (κ × List α))
    (k : κ) : ((l.foldl (fun map b => pushTo map (key b) (value b)) map).lookup k).getD [] =
      (map.lookup k).getD [] ++ (l.filter fun b => key b = k).map value := by
  induction l generalizing map with
  | nil => rw [List.foldl_nil, List.filter_nil, List.map_nil, List.append_nil]
  | cons b l ih =>
    rw [List.foldl_cons, ih, getD_lookup_pushTo, List.append_assoc, List.filter_cons]
    refine congrArg _ ?_
    by_cases h : key b = k
    · rw [if_pos h.symm, if_pos (decide_eq_true h)]
      rfl
    · rw [if_neg (Ne.symm h), if_neg fun he => h (of_decide_eq_true he), List.nil_append]

end Smrt.Assoc
