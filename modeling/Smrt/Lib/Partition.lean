import Mathlib.Data.List.Basic
import Mathlib.Logic.Relation

/-!
# Partitions

A partition of keys, each of which has an owner or none (`Together`: two keys have the same owner).
Lists of keys are joined one after the other: a key of the list, and one whose owner is that of a key
of the list, go to a new owner, or to an owner that one of these keys had (`Joined`).

After any number of lists, two keys are together if and only if a chain links them (`Linked`): every
two neighbours were together before, or are in one list (`Joins.together_iff`). So the order of the
lists does not matter, whatever the owners are called.
-/

namespace Smrt

variable {κ ι : Type}

/-- Two keys have the same owner. -/
def Together (owner : κ → Option ι) (a b : κ) : Prop := ∃ i, owner a = some i ∧ owner b = some i

theorem Together.symm {owner : κ → Option ι} {a b : κ} (h : Together owner a b) :
    Together owner b a := by
  obtain ⟨i, ha, hb⟩ := h
  exact ⟨i, hb, ha⟩

theorem Together.trans {owner : κ → Option ι} {a b c : κ} (h : Together owner a b)
    (h' : Together owner b c) : Together owner a c := by
  obtain ⟨i, ha, hb⟩ := h
  obtain ⟨j, hb', hc⟩ := h'
  obtain rfl := Option.some.inj (hb.symm.trans hb')
  exact ⟨i, ha, hc⟩

/-- A key goes with a list: it is in it, or together with one of its keys. -/
def GoesWith (owner : κ → Option ι) (l : List κ) (k : κ) : Prop :=
  k ∈ l ∨ ∃ a ∈ l, Together owner a k

/-- The keys of a list, and those that go with them, have one owner now; the others have theirs. -/
structure Joined (l : List κ) (owner owner' : κ → Option ι) : Prop where
  one : ∃ i, ∀ k, GoesWith owner l k → owner' k = some i
  other : ∀ k, ¬ GoesWith owner l k → owner' k = owner k
  /-- No other key has the owner that the list has now. -/
  fresh : ∀ k k', GoesWith owner l k → ¬ GoesWith owner l k' → owner' k ≠ owner' k'

/-- Two keys are together after a list is joined if they were, or if both go with it. -/
theorem Joined.together_iff {l : List κ} {owner owner' : κ → Option ι} (h : Joined l owner owner')
    {a b : κ} : Together owner' a b ↔
      Together owner a b ∨ GoesWith owner l a ∧ GoesWith owner l b := by
  obtain ⟨i, hi⟩ := h.one
  have hwith : ∀ {k k'}, Together owner k k' → GoesWith owner l k → GoesWith owner l k' := by
    rintro k k' hk (hl | ⟨c, hc, hck⟩)
    · exact .inr ⟨k, hl, hk⟩
    · exact .inr ⟨c, hc, hck.trans hk⟩
  constructor
  · rintro ⟨j, ha, hb⟩
    by_cases hla : GoesWith owner l a
    · by_cases hlb : GoesWith owner l b
      · exact .inr ⟨hla, hlb⟩
      · exact absurd (ha.trans hb.symm) (h.fresh a b hla hlb)
    · by_cases hlb : GoesWith owner l b
      · exact absurd (hb.trans ha.symm) (h.fresh b a hlb hla)
      · exact .inl ⟨j, (h.other a hla).symm.trans ha, (h.other b hlb).symm.trans hb⟩
  · rintro (hab | ⟨hla, hlb⟩)
    · by_cases hla : GoesWith owner l a
      · exact ⟨i, hi a hla, hi b (hwith hab hla)⟩
      · have hlb : ¬ GoesWith owner l b := fun hlb => hla (hwith hab.symm hlb)
        obtain ⟨j, ha, hb⟩ := hab
        exact ⟨j, (h.other a hla).trans ha, (h.other b hlb).trans hb⟩
    · exact ⟨i, hi a hla, hi b hlb⟩

/-- Lists of keys are joined one after the other. -/
inductive Joins : List (List κ) → (κ → Option ι) → (κ → Option ι) → Prop
  | nil (owner : κ → Option ι) : Joins [] owner owner
  | cons {l : List κ} {ls : List (List κ)} {owner owner₁ owner₂ : κ → Option ι} :
      Joined l owner owner₁ → Joins ls owner₁ owner₂ → Joins (l :: ls) owner owner₂

/-- Two keys were together before, or they are in one list. -/
def Linked (owner : κ → Option ι) (ls : List (List κ)) (a b : κ) : Prop :=
  Together owner a b ∨ ∃ l ∈ ls, a ∈ l ∧ b ∈ l

/-- What a list links is linked before it is joined. -/
theorem transGen_linked_of_joined {l : List κ} {ls : List (List κ)} {owner owner' : κ → Option ι}
    (h : Joined l owner owner') {a b : κ} :
    Relation.TransGen (Linked owner' ls) a b ↔ Relation.TransGen (Linked owner (l :: ls)) a b := by
  have hgo : ∀ {k}, GoesWith owner l k → ∃ c ∈ l, Relation.TransGen (Linked owner (l :: ls)) c k ∧
      Relation.TransGen (Linked owner (l :: ls)) k c := by
    rintro k (hk | ⟨c, hc, hck⟩)
    · have hkk : Linked owner (l :: ls) k k := .inr ⟨l, List.mem_cons_self, hk, hk⟩
      exact ⟨k, hk, .single hkk, .single hkk⟩
    · exact ⟨c, hc, .single (.inl hck), .single (.inl hck.symm)⟩
  constructor
  · refine Relation.TransGen.closed (fun x y hxy => ?_) a b
    rcases hxy with hxy | ⟨l', hl', hx, hy⟩
    · rcases h.together_iff.1 hxy with hold | ⟨hx, hy⟩
      · exact .single (.inl hold)
      · obtain ⟨c, hc, -, hxc⟩ := hgo hx
        obtain ⟨d, hd, hdy, -⟩ := hgo hy
        exact hxc.trans ((Relation.TransGen.single (.inr ⟨l, List.mem_cons_self, hc, hd⟩)).trans hdy)
    · exact .single (.inr ⟨l', List.mem_cons_of_mem _ hl', hx, hy⟩)
  · refine Relation.TransGen.mono (fun x y hxy => ?_) a b
    rcases hxy with hxy | ⟨l', hl', hx, hy⟩
    · exact .inl (h.together_iff.2 (.inl hxy))
    · rcases List.mem_cons.1 hl' with rfl | hl'
      · exact .inl (h.together_iff.2 (.inr ⟨.inl hx, .inl hy⟩))
      · exact .inr ⟨l', hl', hx, hy⟩

theorem transGen_together_iff {owner : κ → Option ι} {a b : κ} :
    Relation.TransGen (Linked owner []) a b ↔ Together owner a b := by
  constructor
  · intro h
    induction h with
    | single hxy =>
      rcases hxy with hxy | ⟨l, hl, -⟩
      · exact hxy
      · cases hl
    | tail _ hyz ih =>
      rcases hyz with hyz | ⟨l, hl, -⟩
      · exact ih.trans hyz
      · cases hl
  · exact fun h => .single (.inl h)

/-- Two keys are together in the end if and only if a chain links them. -/
theorem Joins.together_iff {ls : List (List κ)} {owner owner' : κ → Option ι}
    (h : Joins ls owner owner') {a b : κ} :
    Together owner' a b ↔ Relation.TransGen (Linked owner ls) a b := by
  induction h with
  | nil owner => exact transGen_together_iff.symm
  | cons hl _ ih => exact ih.trans (transGen_linked_of_joined hl)

/-- The order of the lists does not matter. -/
theorem Joins.together_iff_of_perm {ls ls' : List (List κ)} {owner owner₁ owner₂ : κ → Option ι}
    (h : Joins ls owner owner₁) (h' : Joins ls' owner owner₂) (hperm : ls.Perm ls') {a b : κ} :
    Together owner₁ a b ↔ Together owner₂ a b := by
  have hlinked : Linked owner ls = Linked owner ls' := by
    funext x y
    simp only [Linked, hperm.mem_iff]
  rw [h.together_iff, h'.together_iff, hlinked]

end Smrt
