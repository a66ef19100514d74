import Mathlib.Data.List.Destutter
import Mathlib.Data.List.Forall2
import Mathlib.Data.List.Sort
import Smrt.Lib.Except

/-!
# Lists, row by row

Two lists whose rows are related one by one (`List.Forall₂`): resolving every row of a list, or
saying which cannot be (`resolveAll`, `failures`), and sorting both lists by what the rows have in
common (`forall₂_insertionSort`).
-/

namespace Smrt

variable {α β γ ε : Type}

/-! ## Resolving -/

section Resolve

variable (name : α → String) (resolve : α → Except String β)

/-- The entries of what could be resolved. -/
def resolveAll (l : List α) : List β := l.filterMap fun a => (resolve a).toOption

/-- What could not be resolved, and why. -/
def failures (l : List α) : List String :=
  l.filterMap fun a => match resolve a with
    | .ok _ => none
    | .error e => some (name a ++ ": " ++ e)

variable {name resolve}

/-- Without failures, the entries are those of the rows, one by one. -/
theorem forall₂_resolveAll {l : List α} (h : failures name resolve l = []) :
    List.Forall₂ (fun a b => resolve a = .ok b) l (resolveAll resolve l) := by
  induction l with
  | nil => exact .nil
  | cons a l ih =>
    simp only [failures, resolveAll, List.filterMap_cons] at h ih ⊢
    rcases ha : resolve a with e | b
    · rw [ha] at h
      exact absurd h (List.cons_ne_nil _ _)
    · rw [ha] at h
      exact .cons ha (ih h)

/-- Rows that are resolved, one by one, are all the entries, and nothing fails. -/
theorem resolveAll_eq (name : α → String) {l : List α} {m : List β}
    (h : List.Forall₂ (fun a b => resolve a = .ok b) l m) :
    failures name resolve l = [] ∧ resolveAll resolve l = m := by
  induction h with
  | nil => exact ⟨rfl, rfl⟩
  | cons hab _ ih =>
    simp only [failures, resolveAll, List.filterMap_cons, hab] at ih ⊢
    exact ⟨ih.1, congrArg _ ih.2⟩

/-- Resolving every row, up to the first that cannot be. -/
theorem mapM_eq_ok {f : α → Except ε β} {l : List α} {m : List β} :
    l.mapM f = .ok m ↔ List.Forall₂ (fun a b => f a = .ok b) l m := by
  induction l generalizing m with
  | nil =>
    rw [List.mapM_nil, List.forall₂_nil_left_iff]
    exact ⟨fun h => (Except.ok.inj h).symm, fun h => h ▸ rfl⟩
  | cons a l ih =>
    rw [List.mapM_cons, List.forall₂_cons_left_iff]
    simp only [bind_eq_ok, ih]
    constructor
    · rintro ⟨b, hb, m', hm', h⟩
      exact ⟨b, m', hb, hm', (Except.ok.inj h).symm⟩
    · rintro ⟨b, m', hb, hm', rfl⟩
      exact ⟨b, hb, m', hm', rfl⟩

end Resolve

/-! ## Sorting -/

section Sorting

variable {P : α → β → Prop} {r : α → α → Prop} {s : β → β → Prop} [DecidableRel r]
  [DecidableRel s]

theorem forall₂_orderedInsert
    (hr : ∀ ⦃a b a' b'⦄, P a a' → P b b' → (r a b ↔ s a' b')) {a : α} {a' : β} (ha : P a a')
    {l : List α} {l' : List β} (h : List.Forall₂ P l l') :
    List.Forall₂ P (l.orderedInsert r a) (l'.orderedInsert s a') := by
  induction h with
  | nil => exact .cons ha .nil
  | @cons b b' l l' hb hl ih =>
    rw [List.orderedInsert_cons, List.orderedInsert_cons]
    by_cases hab : r a b
    · rw [if_pos hab, if_pos ((hr ha hb).1 hab)]
      exact .cons ha (.cons hb hl)
    · rw [if_neg hab, if_neg (mt (hr ha hb).2 hab)]
      exact .cons hb ih

/-- Sorted by what related rows have in common, the rows are still related one by one. -/
theorem forall₂_insertionSort
    (hr : ∀ ⦃a b a' b'⦄, P a a' → P b b' → (r a b ↔ s a' b')) {l : List α} {l' : List β}
    (h : List.Forall₂ P l l') : List.Forall₂ P (l.insertionSort r) (l'.insertionSort s) := by
  induction h with
  | nil => exact .nil
  | cons ha _ ih => exact forall₂_orderedInsert hr ha ih

/-- Rows that are sorted stand in a coarser order. -/
theorem pairwise_sorted {r : α → α → Prop} [DecidableRel r] {coarse : α → α → Prop}
    (hr : ∀ a b, r a b → coarse a b) (hn : ∀ a b, ¬ r a b → coarse b a)
    (htrans : ∀ a b c, coarse a b → coarse b c → coarse a c) (l : List α) :
    (l.insertionSort r).Pairwise coarse := by
  have hinsert : ∀ a (m : List α), m.Pairwise coarse → (m.orderedInsert r a).Pairwise coarse := by
    intro a m hm
    induction m with
    | nil => exact List.pairwise_singleton _ _
    | cons b m ih =>
      obtain ⟨hb, hm⟩ := List.pairwise_cons.1 hm
      rw [List.orderedInsert_cons]
      split_ifs with hab
      · refine List.pairwise_cons.2 ⟨fun c hc => ?_, List.pairwise_cons.2 ⟨hb, hm⟩⟩
        rcases List.mem_cons.1 hc with rfl | hc
        · exact hr _ _ hab
        · exact htrans _ _ _ (hr _ _ hab) (hb c hc)
      · refine List.pairwise_cons.2 ⟨fun c hc => ?_, ih hm⟩
        rcases (List.mem_orderedInsert r).1 hc with rfl | hc
        · exact hn _ _ hab
        · exact hb c hc
  induction l with
  | nil => exact .nil
  | cons a l ih => exact hinsert a _ ih

/-- Sorting by a field what is sorted by it. -/
theorem insertionSort_of_sorted {f : α → String} {l : List α}
    (h : (l.map f).Pairwise (· ≤ ·)) : l.insertionSort (fun a b => f a ≤ f b) = l :=
  (List.pairwise_map.1 h).insertionSort_eq

theorem sorted_insertionSort (f : α → String) (l : List α) :
    ((l.insertionSort fun a b => f a ≤ f b).map f).Pairwise (· ≤ ·) := by
  rw [List.map_insertionSort _ (· ≤ ·) f l fun _ _ _ _ => Iff.rfl]
  exact List.pairwise_insertionSort (· ≤ ·) _

/-- Rows that are the same in some order are the same when they are sorted by a field that tells
    them apart. -/
theorem map_insertionSort_eq_of_perm {f : α → γ} (key : γ → String) {l m : List α}
    (h : (l.map f).Perm (m.map f)) (hn : (l.map fun a => key (f a)).Nodup) :
    (l.insertionSort fun a b => key (f a) ≤ key (f b)).map f =
      (m.insertionSort fun a b => key (f a) ≤ key (f b)).map f := by
  have hperm : ((l.insertionSort fun a b => key (f a) ≤ key (f b)).map f).Perm
      ((m.insertionSort fun a b => key (f a) ≤ key (f b)).map f) :=
    (((List.perm_insertionSort _ l).map f).trans h).trans
      ((List.perm_insertionSort _ m).map f).symm
  have hsorted : ∀ n : List α, ((n.insertionSort fun a b => key (f a) ≤ key (f b)).map f).Pairwise
      fun x y => key x ≤ key y := fun n =>
    List.pairwise_map.2 (List.pairwise_map.1 (sorted_insertionSort (fun a => key (f a)) n))
  have hkey : ((l.map f).map key).Nodup := by rwa [List.map_map]
  refine hperm.eq_of_pairwise (fun x y hx hy hxy hyx => ?_) (hsorted l) (hsorted m)
  have hxl : x ∈ l.map f := ((List.perm_insertionSort _ l).map f).mem_iff.1 hx
  have hyl : y ∈ l.map f :=
    h.mem_iff.2 (((List.perm_insertionSort _ m).map f).mem_iff.1 hy)
  exact List.inj_on_of_nodup_map hkey hxl hyl (String.le_antisymm hxy hyx)

end Sorting

/-! ## Pairs and positions -/

/-- Rows each of which is related to something. -/
theorem exists_forall₂ {P : α → β → Prop} {l : List α} (h : ∀ a ∈ l, ∃ b, P a b) :
    ∃ m, List.Forall₂ P l m := by
  induction l with
  | nil => exact ⟨[], .nil⟩
  | cons a l ih =>
    obtain ⟨⟨b, hb⟩, hl⟩ := List.forall_mem_cons.1 h
    obtain ⟨m, hm⟩ := ih hl
    exact ⟨b :: m, .cons hb hm⟩

/-- A row is related to one of the other list. -/
theorem exists_mem_of_mem_left {P : α → β → Prop} {l : List α} {m : List β}
    (h : List.Forall₂ P l m) {a : α} (ha : a ∈ l) : ∃ b ∈ m, P a b := by
  induction h with
  | nil => exact absurd ha List.not_mem_nil
  | @cons a' b _ _ hab _ ih =>
    rcases List.mem_cons.1 ha with rfl | ha
    · exact ⟨b, List.mem_cons_self, hab⟩
    · obtain ⟨b', hb', hab'⟩ := ih ha
      exact ⟨b', List.mem_cons_of_mem _ hb', hab'⟩

theorem exists_mem_of_mem_right {P : α → β → Prop} {l : List α} {m : List β}
    (h : List.Forall₂ P l m) {b : β} (hb : b ∈ m) : ∃ a ∈ l, P a b :=
  exists_mem_of_mem_left h.flip hb

theorem exists_of_mem_left {P : α → β → Prop} {l : List α} {m : List β}
    (h : List.Forall₂ P l m) {a : α} (ha : a ∈ l) : ∃ b, P a b :=
  (exists_mem_of_mem_left h ha).imp fun _ hb => hb.2

theorem mem_of_mapM_eq_ok {f : α → Except ε β} {l : List α} {m : List β} (h : l.mapM f = .ok m)
    {b : β} : b ∈ m ↔ ∃ a ∈ l, f a = .ok b := by
  have hall := mapM_eq_ok.1 h
  clear h
  induction hall with
  | nil => simp
  | @cons a b' l m hab _ ih =>
    refine List.mem_cons.trans ((or_congr ?_ ih).trans (List.exists_mem_cons_iff _ _ _).symm)
    exact ⟨fun he => he ▸ hab, fun he => Except.ok.inj (he.symm.trans hab)⟩

/-- If every row can be resolved, all can. -/
theorem exists_mapM_eq_ok {f : α → Except ε β} {l : List α} (h : ∀ a ∈ l, ∃ b, f a = .ok b) :
    ∃ m, l.mapM f = .ok m := by
  obtain ⟨m, hm⟩ := exists_forall₂ h
  exact ⟨m, mapM_eq_ok.2 hm⟩

theorem exists_of_mem_right {P : α → β → Prop} {l : List α} {m : List β}
    (h : List.Forall₂ P l m) {b : β} (hb : b ∈ m) : ∃ a, P a b :=
  exists_of_mem_left h.flip hb

/-- Rows that agree on what is computed of them. -/
theorem map_eq_of_forall₂ {f : α → γ} {g : β → γ} {l : List α} {m : List β}
    (h : List.Forall₂ (fun a b => f a = g b) l m) : l.map f = m.map g := by
  induction h with
  | nil => rfl
  | cons hab _ ih => rw [List.map_cons, List.map_cons, hab, ih]

/-- Rows that look the same have the same content. -/
theorem map_eq_of_map_eq {look : α → γ} {content : α → ε}
    (h : ∀ a b, look a = look b → content a = content b) {l m : List α}
    (hlook : l.map look = m.map look) : l.map content = m.map content := by
  induction l generalizing m with
  | nil =>
    rw [List.map_nil, eq_comm, List.map_eq_nil_iff] at hlook
    rw [hlook]
  | cons a l ih =>
    rw [List.map_cons, eq_comm, List.map_eq_cons_iff] at hlook
    obtain ⟨b, m, rfl, hb, hrest⟩ := hlook
    rw [List.map_cons, List.map_cons, h a b hb.symm, ih hrest.symm]

/-- Rows that look the same are related to rows with the same content. -/
theorem map_eq_of_forall₂_of_map_eq {P : α → β → Prop} (look : α → γ) {content : β → ε}
    (hP : ∀ ⦃a b c d⦄, look a = look b → P a c → P b d → content c = content d) {l m : List α}
    {n k : List β} (h : List.Forall₂ P l n) (h' : List.Forall₂ P m k)
    (hlook : l.map look = m.map look) : n.map content = k.map content := by
  induction h generalizing m k with
  | nil =>
    rw [List.map_nil, eq_comm, List.map_eq_nil_iff] at hlook
    subst hlook
    rw [List.forall₂_nil_left_iff.1 h']
  | cons hac _ ih =>
    rw [List.map_cons, eq_comm, List.map_eq_cons_iff] at hlook
    obtain ⟨b, m, rfl, hb, hrest⟩ := hlook
    obtain ⟨d, k, hbd, hmk, rfl⟩ := List.forall₂_cons_left_iff.1 h'
    rw [List.map_cons, List.map_cons, hP hb.symm hac hbd, ih hmk hrest.symm]

/-- Rows that look like those of another list are all related to something, if those are. -/
theorem exists_forall₂_of_perm {P : α → β → Prop} {look : α → γ}
    (hP : ∀ ⦃a b c⦄, look a = look b → P a c → ∃ d, P b d) {l m : List α} {n : List β}
    (h : List.Forall₂ P l n) (hperm : (l.map look).Perm (m.map look)) :
    ∃ k, List.Forall₂ P m k := by
  refine exists_forall₂ fun b hb => ?_
  obtain ⟨a, ha, hab⟩ := List.mem_map.1 (hperm.mem_iff.2 (List.mem_map.2 ⟨b, hb, rfl⟩))
  obtain ⟨c, hac⟩ := exists_of_mem_left h ha
  exact hP hab hac

/-- Rows that are related through a third list. -/
theorem forall₂_comp {P : α → β → Prop} {Q : β → γ → Prop} {S : α → γ → Prop}
    (hs : ∀ ⦃a b c⦄, P a b → Q b c → S a c) {l : List α} {m : List β} {n : List γ}
    (h : List.Forall₂ P l m) (h' : List.Forall₂ Q m n) : List.Forall₂ S l n := by
  induction h generalizing n with
  | nil =>
    rw [List.forall₂_nil_left_iff.1 h']
    exact .nil
  | cons hab _ ih =>
    obtain ⟨c, n, hbc, hmn, rfl⟩ := List.forall₂_cons_left_iff.1 h'
    exact .cons (hs hab hbc) (ih hmn)

/-- Rows and what is made of them and their positions. -/
theorem forall₂_map_zipIdx {P : α → β → Prop} {l : List α} {f : α × ℕ → β}
    (h : ∀ a i, P a (f (a, i))) : List.Forall₂ P l (l.zipIdx.map f) := by
  have hpairs : List.Forall₂ P (l.zipIdx.map Prod.fst) (l.zipIdx.map f) := by
    rw [List.forall₂_map_left_iff, List.forall₂_map_right_iff, List.forall₂_same]
    exact fun p _ => h p.1 p.2
  rwa [List.zipIdx_map_fst] at hpairs

/-- Positions after a change that looks at them. -/
theorem zipIdx_map_zipIdx (l : List α) (f : α × ℕ → β) :
    (l.zipIdx.map f).zipIdx = l.zipIdx.map fun p => (f p, p.2) := by
  refine List.ext_getElem (by simp) fun i h h' => ?_
  simp

/-! ## Rows found by a key -/

section LastKeyed

variable {κ : Type} [DecidableEq κ] (key : α → κ)

/-- The row with a key that a map from keys to rows holds once all rows are put into it. -/
def lastKeyed (l : List α) (k : κ) : Option α := l.reverse.find? fun a => key a = k

/-- Every row now was there under its key, and looked the same; and every key is still there. -/
def Paired (look : α → β) (was now : List α) : Prop :=
  (∀ b ∈ now, ∃ a, lastKeyed key was (key b) = some a ∧ look a = look b) ∧
    ∀ a ∈ was, ∃ b ∈ now, key b = key a

variable {key} {l was now : List α} {look : α → β}

theorem of_lastKeyed {k : κ} {a : α} (h : lastKeyed key l k = some a) : a ∈ l ∧ key a = k :=
  ⟨List.mem_reverse.1 (List.mem_of_find?_eq_some h),
    of_decide_eq_true (List.find?_some (p := fun a => decide (key a = k)) h)⟩

variable (key) in
theorem exists_lastKeyed {a : α} (ha : a ∈ l) : ∃ b, lastKeyed key l (key a) = some b :=
  Option.isSome_iff_exists.1
    (List.find?_isSome.2 ⟨a, List.mem_reverse.2 ha, decide_eq_true rfl⟩)

/-- With keys that tell the rows apart, it is the row with the key. -/
theorem lastKeyed_of_nodup (hn : (l.map key).Nodup) {a : α} (ha : a ∈ l) :
    lastKeyed key l (key a) = some a := by
  obtain ⟨b, hb⟩ := exists_lastKeyed key ha
  obtain ⟨hmem, hkey⟩ := of_lastKeyed hb
  exact hb.trans (congrArg some (List.inj_on_of_nodup_map hn hmem ha hkey))

/-- With keys that told the rows apart, the rows are paired exactly if the same keys look the same
    on both sides. -/
theorem paired_iff_of_nodup (hwas : (was.map key).Nodup) :
    Paired key look was now ↔
      ∀ x, x ∈ was.map (fun a => (key a, look a)) ↔ x ∈ now.map fun b => (key b, look b) := by
  constructor
  · rintro ⟨hrow, hkey⟩ x
    constructor
    · intro hx
      obtain ⟨a, ha, rfl⟩ := List.mem_map.1 hx
      obtain ⟨b, hb, hab⟩ := hkey a ha
      obtain ⟨a', ha', hlook⟩ := hrow b hb
      rw [hab, lastKeyed_of_nodup hwas ha, Option.some.injEq] at ha'
      exact List.mem_map.2 ⟨b, hb, Prod.ext hab (ha' ▸ hlook.symm)⟩
    · intro hx
      obtain ⟨b, hb, rfl⟩ := List.mem_map.1 hx
      obtain ⟨a, ha, hlook⟩ := hrow b hb
      exact List.mem_map.2 ⟨a, (of_lastKeyed ha).1, Prod.ext (of_lastKeyed ha).2 hlook⟩
  · intro h
    refine ⟨fun b hb => ?_, fun a ha => ?_⟩
    · obtain ⟨a, ha, he⟩ := List.mem_map.1 ((h _).2 (List.mem_map_of_mem hb))
      obtain ⟨hkey, hlook⟩ := Prod.mk.inj he
      exact ⟨a, hkey ▸ lastKeyed_of_nodup hwas ha, hlook⟩
    · obtain ⟨b, hb, he⟩ := List.mem_map.1 ((h _).1 (List.mem_map_of_mem ha))
      exact ⟨b, hb, (Prod.mk.inj he).1⟩

/-- Rows are paired with themselves exactly if the same key looks the same. -/
theorem paired_self_iff : Paired key look l l ↔
    ∀ a ∈ l, ∀ b ∈ l, key a = key b → look a = look b := by
  constructor
  · rintro ⟨hrow, -⟩ a ha b hb hab
    obtain ⟨c, hc, hca⟩ := hrow a ha
    obtain ⟨d, hd, hdb⟩ := hrow b hb
    rw [hab, hd, Option.some.injEq] at hc
    rw [← hca, ← hc, hdb]
  · intro h
    refine ⟨fun b hb => ?_, fun a ha => ⟨a, ha, rfl⟩⟩
    obtain ⟨a, ha⟩ := exists_lastKeyed key hb
    exact ⟨a, ha, h a (of_lastKeyed ha).1 b hb (of_lastKeyed ha).2⟩

end LastKeyed

/-! ## In another order -/

section Order

theorem eq_nil_iff_of_perm {l m : List α} (h : l.Perm m) : l = [] ↔ m = [] := by
  rw [← List.length_eq_zero_iff, h.length_eq, List.length_eq_zero_iff]

/-- What is read of the rows of a list can be put in any order by putting the rows in one. -/
theorem exists_perm_filterMap {f : α → Option β} {l : List α} {m : List β}
    (h : (l.filterMap f).Perm m) : ∃ l' : List α, l'.Perm l ∧ l'.filterMap f = m := by
  induction m generalizing l with
  | nil => exact ⟨l, List.Perm.refl l, List.perm_nil.1 h⟩
  | cons b m ih =>
    obtain ⟨a, ha, hb⟩ := List.mem_filterMap.1 (h.mem_iff.2 List.mem_cons_self)
    obtain ⟨before, after, rfl⟩ := List.append_of_mem ha
    have hfront : (a :: (before ++ after)).Perm (before ++ a :: after) := List.perm_middle.symm
    have hrest : ((before ++ after).filterMap f).Perm m := by
      have hall := (hfront.filterMap f).trans h
      rw [List.filterMap_cons_some hb] at hall
      exact hall.cons_inv
    obtain ⟨l', hl', rfl⟩ := ih hrest
    exact ⟨a :: l', (hl'.cons a).trans hfront, List.filterMap_cons_some hb⟩

/-- The rows of each key can be put in an order of their own. -/
theorem exists_perm_filter_eq {κ : Type} [DecidableEq κ] (key : α → κ) {l : List α}
    {order : κ → List α} (h : ∀ k, (order k).Perm (l.filter fun a => key a = k)) :
    ∃ l' : List α, l'.Perm l ∧ ∀ k, (l'.filter fun a => key a = k) = order k := by
  induction hn : l.length using Nat.strong_induction_on generalizing l order with
  | _ n ih =>
    rcases l with _ | ⟨a, l⟩
    · exact ⟨[], List.Perm.refl _, fun k => (List.perm_nil.1 (h k)).symm⟩
    -- The rows of the first key come first, and the others as they do without them.
    · have hother : ∀ k, k ≠ key a → (((a :: l).filter fun b => key b ≠ key a).filter
          fun b => key b = k) = (a :: l).filter fun b => key b = k := by
        intro k hk
        rw [List.filter_filter]
        refine List.filter_congr fun b _ => ?_
        rcases eq_or_ne (key b) k with rfl | hb
        · simp [hk]
        · simp [hb]
      have hshort : ((a :: l).filter fun b => key b ≠ key a).length < n := by
        rw [← hn, List.filter_cons_of_neg (by simp)]
        exact Nat.lt_succ_of_le (List.length_filter_le ..)
      have hrows : ∀ k, (if k = key a then [] else order k).Perm
          (((a :: l).filter fun b => key b ≠ key a).filter fun b => key b = k) := by
        intro k
        by_cases hk : k = key a
        · rw [if_pos hk, List.filter_filter, List.filter_eq_nil_iff.2]
          simp [hk]
        · rw [if_neg hk, hother k hk]
          exact h k
      obtain ⟨l', hl', hkeys⟩ := ih _ hshort hrows rfl
      refine ⟨order (key a) ++ l', ?_, fun k => ?_⟩
      · have hsplit := List.filter_append_perm (fun b => decide (key b = key a)) (a :: l)
        refine ((h (key a)).append hl').trans (List.Perm.trans (List.Perm.of_eq ?_) hsplit)
        simp only [ne_eq, decide_not]
      · rw [List.filter_append, hkeys]
        by_cases hk : k = key a
        · rw [if_pos hk, List.append_nil, hk]
          refine List.filter_eq_self.2 fun b hb => ?_
          exact (List.mem_filter.1 ((h (key a)).mem_iff.1 hb)).2
        · rw [if_neg hk, List.filter_eq_nil_iff.2, List.nil_append]
          intro b hb hbk
          have hba := (List.mem_filter.1 ((h (key a)).mem_iff.1 hb)).2
          exact hk ((of_decide_eq_true hbk).symm.trans (of_decide_eq_true hba))

end Order

/-! ## Dropping repetitions -/

section Destutter

variable [DecidableEq α] {l : List α}

/-- Dropping what repeats its neighbour drops no value. -/
theorem mem_destutter_ne {b : α} : b ∈ l.destutter (· ≠ ·) ↔ b ∈ l := by
  have hcons : ∀ (l : List α) (a : α), b ∈ l.destutter' (· ≠ ·) a ↔ b ∈ a :: l := by
    intro l
    induction l with
    | nil => exact fun a => Iff.rfl
    | cons c l ih =>
      intro a
      rw [List.destutter'_cons]
      by_cases hac : a = c
      · subst hac
        rw [if_neg (not_not.2 rfl), ih, List.mem_cons, List.mem_cons, List.mem_cons, ← or_assoc,
          or_self]
      · rw [if_pos hac, List.mem_cons, ih, List.mem_cons (b := a)]
  rcases l with _ | ⟨a, l⟩
  · exact Iff.rfl
  · rw [List.destutter_cons', hcons]

/-- In a sorted list nothing is left that repeats. -/
theorem pairwise_destutter_lt {l : List ℕ} (h : l.Pairwise (· ≤ ·)) :
    (l.destutter (· ≠ ·)).Pairwise (· < ·) := by
  have hle : (l.destutter (· ≠ ·)).IsChain (· ≤ ·) :=
    (h.sublist (List.destutter_sublist _ l)).isChain
  have hne : (l.destutter (· ≠ ·)).IsChain (· ≠ ·) := List.isChain_destutter _ l
  refine List.isChain_iff_pairwise.1 (List.isChain_iff_getElem.2 fun i hi => ?_)
  exact Nat.lt_of_le_of_ne (List.isChain_iff_getElem.1 hle i hi)
    (List.isChain_iff_getElem.1 hne i hi)

end Destutter

end Smrt
