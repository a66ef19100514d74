import Mathlib.Data.List.Nodup
import Mathlib.Tactic.SplitIfs

/-!
# Updates that skip

An update of the rows of a table with a unique key that skips the rows whose new key another row has
(`updateOrIgnore`): the rows go one by one, so what a row meets are the rows before it as they are
now, and those behind it as they were.

When the rows that it picks move away together (their new keys differ if the old ones did, and none
is the key of a row that is picked), this does not matter: a row is skipped if some row that stays
has its new key (`updateOrIgnore_eq_map`). So a row that is skipped has a twin among those that
stay, and it can be dropped (`moveRows`).
-/

namespace Smrt

variable {ρ κ : Type} [DecidableEq κ]

/-- The rows that `p` picks are changed, each unless another row has its new key; `done` are the
    rows before. -/
def updateOrIgnore (key : ρ → κ) (p : ρ → Bool) (f : ρ → ρ) : List ρ → List ρ → List ρ
  | done, [] => done
  | done, r :: l => updateOrIgnore key p f
      (done ++ [if p r ∧ key (f r) ∉ (done ++ l).map key then f r else r]) l

/-- The rows that `p` picks are changed, and those of which there is one already are dropped. -/
def moveRows (key : ρ → κ) (p : ρ → Bool) (f : ρ → ρ) (l : List ρ) : List ρ :=
  (updateOrIgnore key p f [] l).filter fun r => !p r

/-- The rows that `p` picks move away together. -/
structure MovesAway (key : ρ → κ) (p : ρ → Bool) (f : ρ → ρ) (l : List ρ) : Prop where
  unpicked : ∀ r ∈ l, p r → ¬ p (f r)
  inj : ∀ r ∈ l, ∀ r' ∈ l, p r → p r' → key (f r) = key (f r') → r = r'
  apart : ∀ r ∈ l, ∀ r' ∈ l, p r → p r' → key (f r) ≠ key r'

variable {key : ρ → κ} {p : ρ → Bool} {f : ρ → ρ} {l : List ρ}

theorem updateOrIgnore_eq_append (pre : List ρ) {done : List ρ} (hnodup : (pre ++ l).Nodup)
    (hmoves : MovesAway key p f (pre ++ l))
    (hdone : done = pre.map fun r =>
      if p r ∧ key (f r) ∉ (pre ++ l).map key then f r else r) :
    updateOrIgnore key p f done l = (pre ++ l).map fun r =>
      if p r ∧ key (f r) ∉ (pre ++ l).map key then f r else r := by
  induction l generalizing pre done with
  | nil =>
    rw [updateOrIgnore, hdone]
    simp only [List.append_nil]
  | cons r l ih =>
    have hall : pre ++ r :: l = pre ++ [r] ++ l := by simp
    have hr : r ∈ pre ++ r :: l := by simp
    have hnot : r ∉ pre := by
      intro hpre
      exact (List.disjoint_of_nodup_append hnodup) hpre List.mem_cons_self
    -- The row meets the rows as they were: those that have moved have moved elsewhere.
    have hmeets : p r → (key (f r) ∈ (done ++ l).map key ↔ key (f r) ∈ (pre ++ r :: l).map key) := by
      intro hp
      rw [List.mem_map, List.mem_map]
      constructor
      · rintro ⟨r', hr', hkey⟩
        rcases List.mem_append.1 hr' with hr' | hr'
        · rw [hdone] at hr'
          obtain ⟨r'', hr'', rfl⟩ := List.mem_map.1 hr'
          have hmem : r'' ∈ pre ++ r :: l := List.mem_append_left _ hr''
          split_ifs at hkey with hmoved
          · have he := hmoves.inj r'' hmem r hr hmoved.1 hp hkey
            exact absurd (he ▸ hr'') hnot
          · exact ⟨r'', hmem, hkey⟩
        · exact ⟨r', List.mem_append_right _ (List.mem_cons_of_mem _ hr'), hkey⟩
      · rintro ⟨r', hr', hkey⟩
        have hp' : ¬ p r' := fun hp' => hmoves.apart r hr r' hr' hp hp' hkey.symm
        refine ⟨r', ?_, hkey⟩
        rcases List.mem_append.1 hr' with hpre | htail
        · rw [hdone]
          exact List.mem_append_left _ (List.mem_map.2 ⟨r', hpre, if_neg fun h => hp' h.1⟩)
        · rcases List.mem_cons.1 htail with rfl | hl
          · exact absurd hp hp'
          · exact List.mem_append_right _ hl
    rw [updateOrIgnore, hall]
    refine ih (pre ++ [r]) (hall ▸ hnodup) (hall ▸ hmoves) ?_
    refine Eq.trans ?_ List.map_append.symm
    rw [List.map_singleton, ← hall, ← hdone]
    congr 2
    exact if_congr (and_congr_right fun hp => not_congr (hmeets hp)) rfl rfl

/-- A row is skipped if some row has its new key. -/
theorem updateOrIgnore_eq_map (hnodup : l.Nodup) (hmoves : MovesAway key p f l) :
    updateOrIgnore key p f [] l =
      l.map fun r => if p r ∧ key (f r) ∉ l.map key then f r else r :=
  updateOrIgnore_eq_append [] hnodup hmoves rfl

/-- What there is afterwards was there, or has moved. -/
theorem mem_or_of_mem_updateOrIgnore (hnodup : l.Nodup) (hmoves : MovesAway key p f l) {r : ρ}
    (hr : r ∈ updateOrIgnore key p f [] l) : r ∈ l ∨ ∃ r' ∈ l, f r' = r := by
  rw [updateOrIgnore_eq_map hnodup hmoves] at hr
  obtain ⟨r', hr', rfl⟩ := List.mem_map.1 hr
  split_ifs
  · exact .inr ⟨r', hr', rfl⟩
  · exact .inl hr'

theorem mem_moveRows (hnodup : l.Nodup) (hmoves : MovesAway key p f l) {r : ρ} :
    r ∈ moveRows key p f l ↔
      (r ∈ l ∧ ¬ p r) ∨ ∃ r' ∈ l, p r' ∧ key (f r') ∉ l.map key ∧ f r' = r := by
  rw [moveRows, updateOrIgnore_eq_map hnodup hmoves, List.mem_filter, List.mem_map]
  constructor
  · rintro ⟨⟨r', hr', rfl⟩, hp⟩
    split_ifs at hp ⊢ with hmoved
    · exact .inr ⟨r', hr', hmoved.1, hmoved.2, rfl⟩
    · exact .inl ⟨hr', by simpa using hp⟩
  · rintro (⟨hr, hp⟩ | ⟨r', hr', hp, hkey, rfl⟩)
    · exact ⟨⟨r, hr, if_neg fun h => hp h.1⟩, by simpa using hp⟩
    · refine ⟨⟨r', hr', if_pos ⟨hp, hkey⟩⟩, ?_⟩
      simpa using hmoves.unpicked r' hr' hp

/-- The keys stay unique. -/
theorem nodup_updateOrIgnore (hkey : (l.map key).Nodup) (hmoves : MovesAway key p f l) :
    ((updateOrIgnore key p f [] l).map key).Nodup := by
  have hnodup : l.Nodup := hkey.of_map
  rw [updateOrIgnore_eq_map hnodup hmoves, List.map_map]
  refine hnodup.map_on fun r hr r' hr' he => ?_
  simp only [Function.comp_apply] at he
  split_ifs at he with hmoved hmoved' hmoved'
  · exact hmoves.inj r hr r' hr' hmoved.1 hmoved'.1 he
  · exact absurd (List.mem_map.2 ⟨r', hr', he.symm⟩) hmoved.2
  · exact absurd (List.mem_map.2 ⟨r, hr, he⟩) hmoved'.2
  · exact List.inj_on_of_nodup_map hkey hr hr' he

end Smrt
