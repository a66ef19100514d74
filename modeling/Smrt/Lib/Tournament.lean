import Mathlib.Data.List.Induction
import Mathlib.Logic.Function.Basic
import Mathlib.Order.Lattice.Nat

/-!
# Tournaments

Candidates come one after the other, and the best one so far is kept (`champion`). A candidate beats
another one if its rank is better, or if the ranks are the same and it reads as greater; when one of
the two cannot be read, the later one wins (`Contest.Beats`). So beating is not transitive: with a
greater and a smaller reading and an unreadable one between them in time, each of the three beats
the one before it.

* `Contest.champion_leads`: what is known of the one that is kept in the end;
* `Contest.Leads.unbeaten_iff`: when no candidate beats it by rank or by reading;
* `foldl_update_apply`: tournaments that are held side by side, one for each key.
-/

namespace Smrt

variable {α β ι ρ κ : Type*}

/-- The better one of the best one so far and a new one. -/
def keepBest (beats : α → α → Bool) (best : Option α) (x : α) : Option α :=
  match best with
  | none => some x
  | some b => if beats x b then some x else some b

def champion (beats : α → α → Bool) (l : List α) : Option α := l.foldl (keepBest beats) none

theorem champion_concat {beats : α → α → Bool} {l : List α} {x : α} :
    champion beats (l ++ [x]) =
      some ((champion beats l).elim x fun b => if beats x b then x else b) := by
  rw [champion, List.foldl_append, List.foldl_cons, List.foldl_nil, ← champion]
  cases champion beats l with
  | none => rfl
  | some b => exact (apply_ite some ..).symm

@[simp] theorem champion_nil {beats : α → α → Bool} : champion beats [] = none := rfl

theorem champion_isSome {beats : α → α → Bool} {l : List α} :
    (champion beats l).isSome ↔ ∃ x, x ∈ l := by
  induction l using List.reverseRecOn with
  | nil => simp
  | append_singleton l x ih =>
    rw [champion_concat, Option.isSome_some]
    exact iff_of_true rfl ⟨x, List.mem_concat_self⟩

/-- Folds that are done side by side, each on what has its key. -/
theorem foldl_update_apply [DecidableEq ι] {f : Option β → α → Option β} {key : α → ι} {i : ι}
    {l : List α} {best : ι → Option β} :
    l.foldl (fun best x => Function.update best (key x) (f (best (key x)) x)) best i =
      (l.filter fun x => key x = i).foldl f (best i) := by
  induction l generalizing best with
  | nil => rfl
  | cons x l ih =>
    rw [List.foldl_cons, ih, List.filter_cons]
    by_cases h : key x = i
    · rw [if_pos (decide_eq_true h), List.foldl_cons, ← h, Function.update_self]
    · rw [if_neg (by simpa using h), Function.update_of_ne (Ne.symm h)]

/-- What candidates are compared by: when they come, their rank, and what they read as, if they
    can be read. -/
structure Contest (α ρ κ : Type*) where
  place : α → ℕ
  rank : α → ρ
  reading : α → Option κ

namespace Contest

variable [LinearOrder ρ] [LinearOrder κ] (c : Contest α ρ κ)

/-- Candidate `x` wins against `b`. -/
def Beats (x b : α) : Prop :=
  c.rank b < c.rank x ∨ c.rank x = c.rank b ∧
    ((∃ i ∈ c.reading x, ∃ k ∈ c.reading b, k < i) ∨
      (c.reading x = none ∨ c.reading b = none) ∧ c.place b < c.place x)

/-- Candidate `x` comes after all those of its rank that cannot be read. -/
def Fresh (l : List α) (x : α) : Prop :=
  ∀ u ∈ l, c.rank u = c.rank x → c.reading u = none → c.place u < c.place x

/-- No candidate is of a better rank, and none of the same one reads as greater. -/
def Unbeaten (l : List α) (b : α) : Prop :=
  ∀ x ∈ l, c.rank x ≤ c.rank b ∧
    (c.rank x = c.rank b → ∀ i ∈ c.reading x, ∀ k ∈ c.reading b, i ≤ k)

/-- If some candidate of the best rank is read and comes after those that are not, then one that
    does reads as great as any of the rank. -/
def Settled (l : List α) : Prop :=
  ∀ x ∈ l, (∀ y ∈ l, c.rank y ≤ c.rank x) → (c.reading x).isSome → c.Fresh l x →
    ∀ y ∈ l, c.rank y = c.rank x → ∀ i ∈ c.reading y,
      ∃ z ∈ l, c.rank z = c.rank x ∧ c.Fresh l z ∧ ∃ k ∈ c.reading z, i ≤ k

/-- The best one so far: of the best rank; if it cannot be read, the last one of the rank, and if it
    can, the greatest one of those that come after what cannot. -/
structure Leads (l : List α) (b : α) : Prop where
  mem : b ∈ l
  top : ∀ x ∈ l, c.rank x ≤ c.rank b
  last : c.reading b = none → ∀ x ∈ l, c.rank x = c.rank b → c.place x ≤ c.place b
  fresh : (c.reading b).isSome → c.Fresh l b
  great : ∀ k ∈ c.reading b, ∀ x ∈ l, c.rank x = c.rank b → c.Fresh l x →
    ∀ i ∈ c.reading x, i ≤ k

variable {c} {l : List α} {b x : α}

omit [LinearOrder ρ] [LinearOrder κ] in
/-- Fresh among more candidates is fresh among fewer. -/
theorem Fresh.of_append {l' : List α} (h : c.Fresh (l ++ l') x) : c.Fresh l x :=
  fun u hu => h u (List.mem_append_left _ hu)

/-- A later candidate of the same rank that does not win is read, and not as greater. -/
theorem readings_of_not_beats (h : ¬ c.Beats x b) (hplace : c.place b < c.place x)
    (hrank : c.rank x = c.rank b) : ∃ i ∈ c.reading x, ∃ k ∈ c.reading b, i ≤ k := by
  have hread := not_or.1 fun hwins => h (.inr ⟨hrank, hwins⟩)
  have hboth := not_or.1 fun hnone => hread.2 ⟨hnone, hplace⟩
  obtain ⟨i, hi⟩ := Option.ne_none_iff_exists'.1 hboth.1
  obtain ⟨k, hk⟩ := Option.ne_none_iff_exists'.1 hboth.2
  exact ⟨i, hi, k, hk, not_lt.1 fun hlt => hread.1 ⟨i, hi, k, hk, hlt⟩⟩

theorem leads_singleton : c.Leads [x] x where
  mem := List.mem_singleton_self x
  top y hy := (congrArg c.rank (List.mem_singleton.1 hy)).le
  last _ y hy _ := (congrArg c.place (List.mem_singleton.1 hy)).le
  fresh hsome u hu _ hnone := by
    rw [← List.mem_singleton.1 hu, hnone] at hsome
    cases hsome
  great k hk y hy _ _ i hi := by
    rw [List.mem_singleton.1 hy] at hi
    exact (Option.mem_unique hi hk).le

namespace Leads

variable (h : c.Leads l b) (hlater : ∀ y ∈ l, c.place y < c.place x)

include h hlater

/-- A later candidate that wins leads. -/
theorem concat_of_beats (hbeats : c.Beats x b) : c.Leads (l ++ [x]) x where
  mem := List.mem_concat_self
  top y hy := by
    have hbx : c.rank b ≤ c.rank x := hbeats.elim le_of_lt fun h => h.1.ge
    rcases List.mem_append.1 hy with hy | hy
    · exact (h.top y hy).trans hbx
    · exact (congrArg c.rank (List.mem_singleton.1 hy)).le
  last _ y hy _ := by
    rcases List.mem_append.1 hy with hy | hy
    · exact (hlater y hy).le
    · exact (congrArg c.place (List.mem_singleton.1 hy)).le
  fresh hsome u hu _ hnone := by
    rcases List.mem_append.1 hu with hu | hu
    · exact hlater u hu
    · rw [← List.mem_singleton.1 hu, hnone] at hsome
      cases hsome
  great k hk y hy hrank hfresh i hi := by
    rcases List.mem_append.1 hy with hyl | hyx
    · rcases hbeats with hlt | ⟨heq, hread⟩
      · exact absurd (hrank ▸ h.top y hyl) hlt.not_ge
      · have hyb := hrank.trans heq
        cases hb : c.reading b with
        | none =>
          -- What cannot be read was the last of its rank, so nothing is fresh.
          have hby := hfresh b (List.mem_append_left _ h.mem) (heq.symm.trans hrank.symm) hb
          exact absurd hby (h.last hb y hyl hyb).not_gt
        | some j =>
          rcases hread with ⟨k', hk', j', hj', hlt⟩ | ⟨hnone, -⟩
          · obtain rfl := Option.mem_unique hk hk'
            obtain rfl := Option.mem_unique hb hj'
            exact (h.great j hb y hyl hyb hfresh.of_append i hi).trans hlt.le
          · rw [Option.mem_def.1 hk, hb] at hnone
            rcases hnone with hnone | hnone <;> cases hnone
    · rw [List.mem_singleton.1 hyx] at hi
      exact (Option.mem_unique hi hk).le

/-- A later candidate that does not win changes nothing. -/
theorem concat_of_not_beats (hbeats : ¬ c.Beats x b) : c.Leads (l ++ [x]) b where
  mem := List.mem_append_left _ h.mem
  top y hy := by
    rcases List.mem_append.1 hy with hy | hy
    · exact h.top y hy
    · rw [List.mem_singleton.1 hy]
      exact not_lt.1 fun hlt => hbeats (.inl hlt)
  last hnone y hy hrank := by
    rcases List.mem_append.1 hy with hy | hy
    · exact h.last hnone y hy hrank
    · rw [List.mem_singleton.1 hy] at hrank
      obtain ⟨_, _, k, hk, _⟩ := readings_of_not_beats hbeats (hlater b h.mem) hrank
      rw [Option.mem_def, hnone] at hk
      cases hk
  fresh hsome u hu hrank hnone := by
    rcases List.mem_append.1 hu with hu | hu
    · exact h.fresh hsome u hu hrank hnone
    · rw [List.mem_singleton.1 hu] at hrank hnone
      obtain ⟨i, hi, _⟩ := readings_of_not_beats hbeats (hlater b h.mem) hrank
      rw [Option.mem_def, hnone] at hi
      cases hi
  great k hk y hy hrank hfresh i hi := by
    rcases List.mem_append.1 hy with hy | hy
    · exact h.great k hk y hy hrank hfresh.of_append i hi
    · rw [List.mem_singleton.1 hy] at hrank hi
      obtain ⟨i', hi', k', hk', hle⟩ := readings_of_not_beats hbeats (hlater b h.mem) hrank
      rwa [Option.mem_unique hi hi', Option.mem_unique hk hk']

omit hlater in
/-- The one that leads is unbeaten if and only if the candidates are settled. -/
theorem unbeaten_iff : c.Unbeaten l b ↔ c.Settled l := by
  constructor
  · intro hun x hx htop hsome hfresh y hy hrank i hi
    have hxb : c.rank x = c.rank b := (h.top x hx).antisymm (htop b h.mem)
    cases hb : c.reading b with
    | none =>
      have hbx := hfresh b h.mem hxb.symm hb
      exact absurd hbx (h.last hb x hx hxb).not_gt
    | some k =>
      have hbsome : (c.reading b).isSome := Option.isSome_iff_exists.2 ⟨k, hb⟩
      exact ⟨b, h.mem, hxb.symm, h.fresh hbsome, k, hb,
        (hun y hy).2 (hrank.trans hxb) i hi k hb⟩
  · intro hset x hx
    refine ⟨h.top x hx, fun hrank i hi k hk => ?_⟩
    have hsome : (c.reading b).isSome := Option.isSome_iff_exists.2 ⟨k, hk⟩
    obtain ⟨z, hz, hzrank, hzfresh, j, hj, hij⟩ :=
      hset b h.mem h.top hsome (h.fresh hsome) x hx hrank i hi
    exact hij.trans (h.great k hk z hz hzrank hzfresh j hj)

end Leads

/-- The champion of candidates in the order of their places leads. -/
theorem champion_leads {beats : α → α → Bool} (hbeats : ∀ x b, beats x b ↔ c.Beats x b)
    (hl : l.Pairwise fun x y => c.place x < c.place y) (hb : champion beats l = some b) :
    c.Leads l b := by
  induction l using List.reverseRecOn generalizing b with
  | nil => cases hb
  | append_singleton l x ih =>
    obtain ⟨hl, -, hlater⟩ := List.pairwise_append.1 hl
    rw [champion_concat] at hb
    obtain rfl := Option.some.inj hb
    cases hprev : champion beats l with
    | none =>
      have hnil : l = [] := List.eq_nil_iff_forall_not_mem.2 fun y hy => by
        rw [← Option.not_isSome_iff_eq_none, champion_isSome] at hprev
        exact hprev ⟨y, hy⟩
      rw [hnil]
      exact leads_singleton
    | some b =>
      have hlead := ih hl hprev
      have hlater' : ∀ y ∈ l, c.place y < c.place x := fun y hy =>
        hlater y hy x (List.mem_singleton_self x)
      rw [Option.elim_some]
      by_cases hx : beats x b
      · rw [if_pos hx]
        exact hlead.concat_of_beats hlater' ((hbeats x b).1 hx)
      · rw [if_neg hx]
        exact hlead.concat_of_not_beats hlater' fun h => hx ((hbeats x b).2 h)

end Contest

end Smrt
