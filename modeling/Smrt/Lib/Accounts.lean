import Mathlib.Data.Multiset.UnionInter
import Smrt.Lib.Keyed

/-!
# Accounts of rows

The difference of two lists of rows (`keyedRows`) is made in three passes: over the rows under the
same key, over those that are gone, each of which takes the first free one that points at the same,
and over those that are left. An *account* says what becomes of every row of the two lists.

* `exists_account`: the difference has an account in which every row of either list is once;
* `card_pins`: how many rows are taken is how much the two lists have in common of what they point
  at, whichever of them comes first and whatever the greedy choice was.
-/

namespace Smrt

variable {α γ : Type}

/-- Which rows of the one list are which rows of the other one, which are gone and which are new. -/
structure Account (α : Type) where
  same : List ((String × α) × String × α)
  gone : List (String × α)
  new : List (String × α)

namespace Account

/-- Every row of either list is accounted for once; rows under one key are the same, and so are no
    others than such that point at the same. -/
structure Of (pin : α → String) (was now : List (String × α)) (A : Account α) : Prop where
  before : was.Perm (A.same.map Prod.fst ++ A.gone)
  after : now.Perm (A.same.map Prod.snd ++ A.new)
  keyed : ∀ p ∈ was, ∀ q ∈ now, p.1 = q.1 → (p, q) ∈ A.same
  alike : ∀ s ∈ A.same, s.1.1 = s.2.1 ∨ pin s.1.2 = pin s.2.2

/-- What has changed about the rows that are the same. -/
def changed (changes : String → α → α → List γ) (A : Account α) : List γ :=
  A.same.flatMap fun s => changes s.2.1 s.1.2 s.2.2

end Account

/-- The rows under keys that the other list does not have. -/
def unmatched (l l' : List (String × α)) : List (String × α) :=
  l.filter fun p => (l'.lookup p.1).isNone

/-- What rows point at. -/
def pins (pin : α → String) (l : List (String × α)) : Multiset String := ↑(l.map fun p => pin p.2)

section Increasing

variable {l l' was now : List (String × α)} {p : String × α}

theorem Increasing.nodup_keys (h : Increasing l) : (l.map Prod.fst).Nodup :=
  List.pairwise_map.2 (h.imp fun hlt => hlt.ne)

theorem Increasing.nodup (h : Increasing l) : l.Nodup := h.nodup_keys.of_map _

theorem Increasing.filter (h : Increasing l) (q : String × α → Bool) : Increasing (l.filter q) :=
  h.sublist List.filter_sublist

/-- A row and those under other keys. -/
theorem Increasing.perm_cons (h : Increasing l) (hp : p ∈ l) :
    l.Perm (p :: l.filter fun q => q.1 ≠ p.1) := by
  have hfresh : p ∉ l.filter fun q => q.1 ≠ p.1 := fun hmem =>
    absurd rfl (of_decide_eq_true (List.mem_filter.1 hmem).2)
  refine (List.perm_ext_iff_of_nodup h.nodup
    (List.nodup_cons.2 ⟨hfresh, (h.filter _).nodup⟩)).2 fun q => ?_
  rw [List.mem_cons, List.mem_filter, decide_eq_true_eq]
  refine ⟨fun hq => ?_, fun hq => hq.elim (fun he => he ▸ hp) And.left⟩
  by_cases hkey : q.1 = p.1
  · have hq' : (p.1, q.2) ∈ l := hkey ▸ hq
    exact .inl (Prod.ext hkey (h.eq hq' hp))
  · exact .inr ⟨hq, hkey⟩

/-- The rows under keys of both lists, one beside the other. -/
def kept (was now : List (String × α)) : List ((String × α) × String × α) :=
  now.filterMap fun q => (was.lookup q.1).map fun old => ((q.1, old), q)

theorem map_snd_kept :
    (kept was now).map Prod.snd = now.filter fun q => (was.lookup q.1).isSome := by
  induction now with
  | nil => rfl
  | cons q now ih =>
    rw [kept, List.filterMap_cons, List.filter_cons]
    rcases was.lookup q.1 with _ | old
    · exact ih
    · exact congrArg _ ih

theorem mem_kept (h : Increasing was) {s : (String × α) × String × α} :
    s ∈ kept was now ↔ s.1 ∈ was ∧ s.2 ∈ now ∧ s.1.1 = s.2.1 := by
  rw [kept, List.mem_filterMap]
  constructor
  · rintro ⟨q, hq, hs⟩
    obtain ⟨old, hold, rfl⟩ := Option.map_eq_some_iff.1 hs
    exact ⟨mem_of_lookup hold, hq, rfl⟩
  · rintro ⟨hold, hq, hkey⟩
    refine ⟨s.2, hq, Option.map_eq_some_iff.2 ⟨s.1.2, h.lookup (hkey ▸ hold), ?_⟩⟩
    rw [← hkey]

theorem map_fst_kept (hwas : Increasing was) (hnow : Increasing now) :
    ((kept was now).map Prod.fst).Perm (was.filter fun p => (now.lookup p.1).isSome) := by
  have hkeys : ((kept was now).map Prod.fst).map Prod.fst =
      ((kept was now).map Prod.snd).map Prod.fst := by
    rw [List.map_map, List.map_map]
    exact List.map_congr_left fun s hs => ((mem_kept hwas).1 hs).2.2
  have hnodup : ((kept was now).map Prod.fst).Nodup := by
    refine List.Nodup.of_map Prod.fst ?_
    rw [hkeys, map_snd_kept]
    exact (hnow.filter _).nodup_keys
  refine (List.perm_ext_iff_of_nodup hnodup (hwas.filter _).nodup).2 fun p => ?_
  rw [List.mem_map, List.mem_filter]
  constructor
  · rintro ⟨s, hs, rfl⟩
    obtain ⟨hold, hq, hkey⟩ := (mem_kept hwas).1 hs
    have hlookup : now.lookup s.1.1 = some s.2.2 := hnow.lookup (hkey ▸ hq)
    exact ⟨hold, by rw [hlookup]; rfl⟩
  · rintro ⟨hp, hsome⟩
    obtain ⟨a, ha⟩ := Option.isSome_iff_exists.1 hsome
    exact ⟨(p, (p.1, a)), (mem_kept hwas).2 ⟨hp, mem_of_lookup ha, rfl⟩, rfl⟩

end Increasing

section Greedy

variable {pin : α → String} {changes : String → α → α → List γ} {removed added : String → α → γ}
  {was now : List (String × α)}

/-- The rows that can be taken. -/
def free (was now : List (String × α)) (taken : List String) : List (String × α) :=
  now.filter fun p => (was.lookup p.1).isNone && p.1 ∉ taken

theorem free_nil : free was now [] = unmatched now was :=
  List.filter_congr fun p _ => by simp

theorem find?_free (old : α) (taken : List String) :
    (now.find? fun p => (was.lookup p.1).isNone && p.1 ∉ taken && pin p.2 = pin old) =
      (free was now taken).find? fun p => pin p.2 = pin old := by
  rw [free, List.find?_filter]
  congr 1
  funext p
  simp [Bool.and_assoc]

/-- What is taken is not free any more. -/
theorem perm_free (hnow : Increasing now) {taken : List String} {p : String × α}
    (hp : p ∈ free was now taken) :
    (free was now taken).Perm (p :: free was now (p.1 :: taken)) := by
  have hrest : ((free was now taken).filter fun q => q.1 ≠ p.1) =
      free was now (p.1 :: taken) := by
    rw [free, free, List.filter_filter]
    refine List.filter_congr fun q _ => ?_
    by_cases hq : q.1 = p.1 <;> simp [hq]
  exact hrest ▸ (hnow.filter _).perm_cons hp

variable (pin changes removed was) in
/-- What becomes of the rows that are gone: some of them take a free row that points at the same,
    and of the others none could. -/
theorem exists_pairGone (hnow : Increasing now) (gone : List (String × α)) (taken : List String) :
    ∃ (pairs : List ((String × α) × String × α)) (left : List (String × α)),
      gone.Perm (pairs.map Prod.fst ++ left) ∧
      (free was now taken).Perm (pairs.map Prod.snd ++
        free was now (pairGone pin changes removed was now taken gone).2) ∧
      (pairGone pin changes removed was now taken gone).1.Perm
        ((pairs.flatMap fun s => changes s.2.1 s.1.2 s.2.2) ++
          left.map fun p => removed p.1 p.2) ∧
      (∀ s ∈ pairs, pin s.1.2 = pin s.2.2) ∧
      pairs.length = (pins pin gone ∩ pins pin (free was now taken)).card := by
  induction gone generalizing taken with
  | nil => exact ⟨[], [], .nil, .refl _, .nil, nofun, by simp [pins]⟩
  | cons p gone ih =>
    obtain ⟨key, old⟩ := p
    have hpins : pins pin ((key, old) :: gone) = pin old ::ₘ pins pin gone := rfl
    rw [pairGone, find?_free, hpins]
    rcases hfind : (free was now taken).find? fun p => pin p.2 = pin old with _ | q <;>
      simp only [hfind]
    · -- Nobody is free, and what is common of the rest is common of all.
      obtain ⟨pairs, left, hgone, hfree, hrows, hpin, hcard⟩ := ih taken
      have hnone : pin old ∉ pins pin (free was now taken) := by
        rw [pins, Multiset.mem_coe, List.mem_map]
        rintro ⟨q, hq, he⟩
        exact List.find?_eq_none.1 hfind q hq (decide_eq_true he)
      refine ⟨pairs, (key, old) :: left, ?_, hfree, ?_, hpin, ?_⟩
      · exact (hgone.cons _).trans List.perm_middle.symm
      · exact (hrows.cons _).trans List.perm_middle.symm
      · rw [Multiset.cons_inter_of_neg _ hnone, hcard]
    · obtain ⟨pairs, left, hgone, hfree, hrows, hpin, hcard⟩ := ih (q.1 :: taken)
      have hq := List.mem_of_find?_eq_some hfind
      have hsame : pin q.2 = pin old := by simpa using List.find?_some hfind
      have hperm := perm_free hnow hq
      have htaken : pins pin (free was now taken) =
          pin old ::ₘ pins pin (free was now (q.1 :: taken)) := by
        rw [← hsame]
        exact Multiset.coe_eq_coe.2 (hperm.map fun p => pin p.2)
      refine ⟨((key, old), q) :: pairs, left, hgone.cons _, hperm.trans (hfree.cons _), ?_, ?_, ?_⟩
      · rw [List.flatMap_cons, List.append_assoc]
        exact hrows.append_left _
      · exact List.forall_mem_cons.2 ⟨hsame.symm, hpin⟩
      · rw [htaken, Multiset.cons_inter_of_pos _ (Multiset.mem_cons_self _ _),
          Multiset.erase_cons_head, Multiset.card_cons, List.length_cons, hcard]

theorem changed_kept : (now.flatMap fun p => (was.lookup p.1).elim [] fun old =>
    changes p.1 old p.2) = (kept was now).flatMap fun s => changes s.2.1 s.1.2 s.2.2 := by
  induction now with
  | nil => rfl
  | cons q now ih =>
    rw [kept, List.filterMap_cons, List.flatMap_cons, ih]
    rcases was.lookup q.1 with _ | old
    · rfl
    · rfl

/-- How much the rows of two lists under other keys have in common of what they point at. -/
def common (pin : α → String) (was now : List (String × α)) : ℕ :=
  (pins pin (unmatched was now) ∩ pins pin (unmatched now was)).card

theorem common_comm : common pin was now = common pin now was := by
  rw [common, common, Multiset.inter_comm]

variable (pin changes removed added) in
/-- The difference of two lists of rows has an account. -/
theorem exists_account (hwas : Increasing was) (hnow : Increasing now) :
    ∃ A : Account α, A.Of pin was now ∧
      (keyedRows pin changes removed added was now).Perm (A.changed changes ++
        A.gone.map (fun p => removed p.1 p.2) ++ A.new.map fun p => added p.1 p.2) ∧
      A.gone.length + common pin was now = (unmatched was now).length ∧
      A.new.length + common pin was now = (unmatched now was).length := by
  obtain ⟨pairs, left, hgone, hfree, hrows, hpin, hcard⟩ := exists_pairGone pin changes removed
    was hnow (unmatched was now) []
  rw [free_nil] at hfree hcard
  have hsplit : ∀ l l' : List (String × α),
      ((l.filter fun p => (l'.lookup p.1).isSome) ++ unmatched l l').Perm l := by
    intro l l'
    have hnot : (unmatched l l') = l.filter fun p => !(l'.lookup p.1).isSome :=
      List.filter_congr fun p _ => by simp
    exact hnot ▸ List.filter_append_perm _ l
  refine ⟨⟨kept was now ++ pairs, left, free was now (pairGone pin changes removed was now []
    (unmatched was now)).2⟩, ⟨?_, ?_, ?_, ?_⟩, ?_, ?_, ?_⟩ <;> dsimp only
  · rw [List.map_append, List.append_assoc]
    exact (hsplit was now).symm.trans ((map_fst_kept hwas hnow).symm.append hgone)
  · rw [List.map_append, List.append_assoc, map_snd_kept]
    exact (hsplit now was).symm.trans (hfree.append_left _)
  · exact fun p hp q hq hkey => List.mem_append_left _ ((mem_kept hwas).2 ⟨hp, hq, hkey⟩)
  · intro s hs
    rcases List.mem_append.1 hs with hs | hs
    · exact .inl ((mem_kept hwas).1 hs).2.2
    · exact .inr (hpin s hs)
  · rw [keyedRows, changed_kept, Account.changed, List.flatMap_append, List.append_assoc _ _
      (left.map _)]
    exact (hrows.append_left _).append_right _
  · have hlen := hgone.length_eq
    rw [List.length_append, List.length_map, hcard] at hlen
    rw [common]
    omega
  · have hlen := hfree.length_eq
    rw [List.length_append, List.length_map, hcard] at hlen
    rw [common]
    omega

end Greedy

end Smrt
