import Mathlib.Data.List.Nodup
import Mathlib.Data.Nat.Notation
import Mathlib.Order.Defs.LinearOrder
import Mathlib.Order.Lattice
import Mathlib.Tactic.SplitIfs

/-!
# Searching

A sorted list is searched for a value by halving what is left of it (`search`), and a list is
thinned out to the first entry of each key (`firsts`).

* `search_iff`: in a sorted list the search finds what is there, and nothing else;
* `mem_firsts`: an entry is kept if no entry before it has its key;
* `exists_mem_firsts`, `pairwise_firsts`: of every key one entry is kept, and not two.
-/

namespace Smrt

variable {α κ : Type*}

section Search

variable [LinearOrder κ]

/-- Whether a value is between the places `lo` and `hi`, what is left being halved `fuel` times
    at most. -/
def search (get : ℕ → κ) (want : κ) : ℕ → ℕ → ℕ → Bool
  | 0, _, _ => false
  | fuel + 1, lo, hi =>
    if lo < hi then
      let mid := (lo + hi) / 2
      if get mid < want then search get want fuel (mid + 1) hi
      else if want < get mid then search get want fuel lo mid
      else true
    else false

/-- The search finds what is between the places, if what is left is sorted. -/
theorem search_iff {get : ℕ → κ} {want : κ} {n : ℕ} (hs : ∀ i j, i < j → j < n → get i < get j)
    {fuel lo hi : ℕ} (hfuel : hi - lo ≤ fuel) (hn : hi ≤ n) :
    search get want fuel lo hi = true ↔ ∃ i, lo ≤ i ∧ i < hi ∧ get i = want := by
  induction fuel generalizing lo hi with
  | zero =>
    refine iff_of_false (by rw [search]; exact Bool.false_ne_true) ?_
    rintro ⟨i, hlo, hhi, -⟩
    omega
  | succ fuel ih =>
    rw [search]
    dsimp only
    split_ifs with hlt hless hgreater
    · -- What is at `mid` or before it is too small.
      rw [ih (by omega) hn]
      constructor
      · rintro ⟨i, hlo, hhi, hi⟩
        exact ⟨i, by omega, hhi, hi⟩
      · rintro ⟨i, hlo, hhi, hi⟩
        refine ⟨i, ?_, hhi, hi⟩
        by_contra hle
        rcases Nat.lt_or_eq_of_le (Nat.le_of_lt_succ (Nat.lt_of_not_le hle)) with h | h
        · exact absurd (hi ▸ hs i _ h (by omega)) (lt_asymm hless)
        · exact absurd (h ▸ hi) (ne_of_lt hless)
    · -- What is at `mid` or after it is too large.
      rw [ih (by omega) (by omega)]
      constructor
      · rintro ⟨i, hlo, hhi, hi⟩
        exact ⟨i, hlo, by omega, hi⟩
      · rintro ⟨i, hlo, hhi, hi⟩
        refine ⟨i, hlo, ?_, hi⟩
        by_contra hle
        rcases Nat.lt_or_eq_of_le (Nat.le_of_not_lt hle) with h | h
        · exact absurd (hi ▸ hs _ i h (by omega)) (lt_asymm hgreater)
        · exact absurd (h ▸ hi) (ne_of_gt hgreater)
    · exact iff_of_true rfl ⟨_, by omega, by omega,
        le_antisymm (not_lt.1 hgreater) (not_lt.1 hless)⟩
    · refine iff_of_false id ?_
      rintro ⟨i, hlo, hhi, -⟩
      omega

end Search

section Firsts

variable [DecidableEq κ]

/-- The first entry of each key that was not seen before. -/
def firsts (key : α → κ) : List κ → List α → List α
  | _, [] => []
  | seen, a :: l =>
    if key a ∈ seen then firsts key seen l else a :: firsts key (key a :: seen) l

variable {key : α → κ} {seen : List κ} {l : List α} {a : α}

/-- The entries that are kept are those before which there is none of their key. -/
theorem mem_firsts : a ∈ firsts key seen l ↔
    key a ∉ seen ∧ ∃ before after, l = before ++ a :: after ∧ ∀ b ∈ before, key b ≠ key a := by
  induction l generalizing seen with
  | nil =>
    refine iff_of_false List.not_mem_nil ?_
    rintro ⟨-, before, after, h, -⟩
    exact absurd (congrArg List.length h) (by simp)
  | cons b l ih =>
    rw [firsts]
    constructor
    · intro h
      split_ifs at h with hb
      · obtain ⟨hseen, before, after, rfl, hbefore⟩ := ih.1 h
        refine ⟨hseen, b :: before, after, rfl, ?_⟩
        exact List.forall_mem_cons.2 ⟨fun he => hseen (he ▸ hb), hbefore⟩
      · rcases List.mem_cons.1 h with rfl | h
        · exact ⟨hb, [], l, rfl, fun _ hc => absurd hc List.not_mem_nil⟩
        · obtain ⟨hseen, before, after, rfl, hbefore⟩ := ih.1 h
          rw [List.mem_cons, not_or] at hseen
          refine ⟨hseen.2, b :: before, after, rfl, ?_⟩
          exact List.forall_mem_cons.2 ⟨fun he => hseen.1 he.symm, hbefore⟩
    · rintro ⟨hseen, before, after, hl, hbefore⟩
      rcases before with _ | ⟨c, before⟩
      · obtain ⟨rfl, rfl⟩ := List.cons.inj hl
        rw [if_neg hseen]
        exact List.mem_cons_self
      · obtain ⟨rfl, rfl⟩ := List.cons.inj hl
        rw [List.forall_mem_cons] at hbefore
        split_ifs
        · exact ih.2 ⟨hseen, before, after, rfl, hbefore.2⟩
        · refine List.mem_cons_of_mem _ (ih.2 ⟨?_, before, after, rfl, hbefore.2⟩)
          rw [List.mem_cons, not_or]
          exact ⟨fun he => hbefore.1 he.symm, hseen⟩

theorem mem_of_mem_firsts (h : a ∈ firsts key seen l) : a ∈ l := by
  obtain ⟨-, before, after, rfl, -⟩ := mem_firsts.1 h
  exact List.mem_append_right _ List.mem_cons_self

/-- Of a key that was not seen before one entry is kept. -/
theorem exists_mem_firsts (h : a ∈ l) (hseen : key a ∉ seen) :
    ∃ b ∈ firsts key seen l, key b = key a := by
  induction l with
  | nil => exact absurd h List.not_mem_nil
  | cons c l ih =>
    rw [firsts]
    rcases List.mem_cons.1 h with rfl | h
    · rw [if_neg hseen]
      exact ⟨a, List.mem_cons_self, rfl⟩
    · split_ifs with hc
      · exact ih h
      · by_cases hca : key c = key a
        · exact ⟨c, List.mem_cons_self, hca⟩
        · obtain ⟨before, after, rfl⟩ := List.append_of_mem h
          obtain ⟨b, hb, hba⟩ := ih h
          refine ⟨b, List.mem_cons_of_mem _ ?_, hba⟩
          obtain ⟨hb, hsplit⟩ := mem_firsts.1 hb
          refine mem_firsts.2 ⟨?_, hsplit⟩
          rw [List.mem_cons, not_or]
          exact ⟨fun he => hca (he.symm.trans hba), hb⟩

/-- No key is kept twice. -/
theorem pairwise_firsts : (firsts key seen l).Pairwise fun a b => key a ≠ key b := by
  induction l generalizing seen with
  | nil => exact .nil
  | cons c l ih =>
    rw [firsts]
    split_ifs
    · exact ih
    · refine .cons (fun b hb he => ?_) ih
      exact (mem_firsts.1 hb).1 (he ▸ List.mem_cons_self)

theorem eq_of_mem_firsts {b : α} (ha : a ∈ firsts key seen l) (hb : b ∈ firsts key seen l)
    (h : key a = key b) : a = b :=
  List.inj_on_of_nodup_map (List.pairwise_map.2 pairwise_firsts) ha hb h

/-- What is kept of two lists is the first of its key in the list that it is of. -/
theorem mem_firsts_append {m : List α} (h : a ∈ firsts key seen (l ++ m)) :
    a ∈ firsts key seen l ∨ a ∈ firsts key [] m := by
  obtain ⟨hseen, before, after, hl, hbefore⟩ := mem_firsts.1 h
  rcases List.append_eq_append_iff.1 hl with ⟨c, rfl, hm⟩ | ⟨c, rfl, hm⟩
  · refine .inr (mem_firsts.2 ⟨List.not_mem_nil, c, after, hm, fun b hb => ?_⟩)
    exact hbefore b (List.mem_append_right _ hb)
  · rcases c with _ | ⟨b, c⟩
    · exact .inr (mem_firsts.2 ⟨List.not_mem_nil, [], after, hm.symm,
        fun _ hb => absurd hb List.not_mem_nil⟩)
    · obtain ⟨rfl, -⟩ := List.cons.inj hm
      exact .inl (mem_firsts.2 ⟨hseen, before, c, rfl, hbefore⟩)

theorem mem_firsts_flatMap {β : Type*} {f : β → List α} {bs : List β}
    (h : a ∈ firsts key seen (bs.flatMap f)) : ∃ b ∈ bs, a ∈ firsts key [] (f b) := by
  induction bs generalizing seen with
  | nil => exact absurd h List.not_mem_nil
  | cons b bs ih =>
    rw [List.flatMap_cons] at h
    rcases mem_firsts_append h with h | h
    · exact ⟨b, List.mem_cons_self, mem_firsts.2 ⟨List.not_mem_nil, (mem_firsts.1 h).2⟩⟩
    · obtain ⟨c, hc, hmem⟩ := ih h
      exact ⟨c, List.mem_cons_of_mem _ hc, hmem⟩

end Firsts

end Smrt
