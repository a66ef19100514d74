import Mathlib.Data.List.Induction
import Mathlib.Data.String.Basic
import Mathlib.Order.Basic
import Mathlib.Tactic.SplitIfs

/-!
# Rows under keys

Rows in the order of their keys (`put`), and the difference of two such lists (`keyedRows`): a row
is the same row if its key is, and else if what it points at is (`pin`), so that a row under
another key is a move and not a departure and an arrival.

* `foldl_put`: rows that are put under fresh keys are all there;
* `of_mem_greatest`, `exists_mem_greatest`: of the rows of each key one is listed that none is
  greater than (`greatest`);
* `keyedRows_self`: rows do not differ from themselves;
* `exists_of_keyedRows_eq_nil`, `exists_of_keyedRows_eq_nil'`: without a difference, every row of
  either list is in the other one, and nothing has changed about it.
-/

namespace Smrt

variable {α γ : Type}

/-- A row is put under a key, instead of the one that was there. -/
def put (k : String) (a : α) : List (String × α) → List (String × α)
  | [] => [(k, a)]
  | (k', a') :: l =>
    if k < k' then (k, a) :: (k', a') :: l
    else if k = k' then (k, a) :: l
    else (k', a') :: put k a l

/-- The keys are in increasing order. -/
def Increasing (l : List (String × α)) : Prop := l.Pairwise fun p q => p.1 < q.1

section Put

variable {k : String} {a : α} {l : List (String × α)}

theorem mem_of_mem_put {p : String × α} (h : p ∈ put k a l) : p = (k, a) ∨ p ∈ l := by
  induction l with
  | nil => exact .inl (List.mem_singleton.1 h)
  | cons q l ih =>
    rw [put] at h
    split_ifs at h
    · exact List.mem_cons.1 h
    · rcases List.mem_cons.1 h with h | h
      · exact .inl h
      · exact .inr (List.mem_cons_of_mem _ h)
    · rcases List.mem_cons.1 h with rfl | h
      · exact .inr List.mem_cons_self
      · exact (ih h).imp_right (List.mem_cons_of_mem _)

theorem mem_put_self : (k, a) ∈ put k a l := by
  induction l with
  | nil => exact List.mem_singleton_self _
  | cons q l ih =>
    rw [put]
    split_ifs
    · exact List.mem_cons_self
    · exact List.mem_cons_self
    · exact List.mem_cons_of_mem _ ih

/-- What is under other keys stays. -/
theorem mem_put_of_ne {p : String × α} (h : p ∈ l) (hne : p.1 ≠ k) : p ∈ put k a l := by
  induction l with
  | nil => exact absurd h List.not_mem_nil
  | cons q l ih =>
    rw [put]
    split_ifs with hlt heq
    · exact List.mem_cons_of_mem _ h
    · rcases List.mem_cons.1 h with rfl | h
      · exact absurd heq.symm hne
      · exact List.mem_cons_of_mem _ h
    · rcases List.mem_cons.1 h with rfl | h
      · exact List.mem_cons_self
      · exact List.mem_cons_of_mem _ (ih h)

/-- One more key. -/
theorem mem_map_fst_put {k' : String} :
    k' ∈ (put k a l).map Prod.fst ↔ k' ∈ l.map Prod.fst ∨ k = k' := by
  simp only [List.mem_map]
  constructor
  · rintro ⟨p, hp, rfl⟩
    rcases mem_of_mem_put hp with rfl | hp
    · exact .inr rfl
    · exact .inl ⟨p, hp, rfl⟩
  · rintro (⟨p, hp, rfl⟩ | rfl)
    · by_cases hne : p.1 = k
      · exact ⟨(k, a), mem_put_self, hne.symm⟩
      · exact ⟨p, mem_put_of_ne hp hne, rfl⟩
    · exact ⟨(k, a), mem_put_self, rfl⟩

theorem Increasing.put (h : Increasing l) : Increasing (put k a l) := by
  induction l with
  | nil => exact List.pairwise_singleton _ _
  | cons q l ih =>
    obtain ⟨hq, hl⟩ := List.pairwise_cons.1 h
    rw [Smrt.put]
    split_ifs with hlt heq
    · refine List.pairwise_cons.2 ⟨fun p hp => ?_, h⟩
      rcases List.mem_cons.1 hp with rfl | hp
      · exact hlt
      · exact hlt.trans (hq p hp)
    · exact List.pairwise_cons.2 ⟨fun p hp => heq ▸ hq p hp, hl⟩
    · refine List.pairwise_cons.2 ⟨fun p hp => ?_, ih hl⟩
      rcases mem_of_mem_put hp with rfl | hp
      · exact lt_of_le_of_ne (not_lt.1 hlt) (Ne.symm heq)
      · exact hq p hp

/-- There is one row under a key. -/
theorem Increasing.eq (h : Increasing l) {b : α} (ha : (k, a) ∈ l) (hb : (k, b) ∈ l) : a = b := by
  induction l with
  | nil => exact absurd ha List.not_mem_nil
  | cons q l ih =>
    obtain ⟨hq, hl⟩ := List.pairwise_cons.1 h
    rcases List.mem_cons.1 ha with rfl | ha <;> rcases List.mem_cons.1 hb with he | hb
    · exact (congrArg Prod.snd he).symm
    · exact absurd (hq _ hb) (lt_irrefl k)
    · exact absurd (hq _ ha) (he ▸ lt_irrefl k)
    · exact ih hl ha hb

/-- Rows are put under keys that depend on what is there: if they are fresh as long as the rows are
    told apart by `R`, then all the rows are there in the end, and nothing else is. -/
theorem foldl_put {key : List (String × α) → α → String} {P : List (String × α) → Prop}
    {R : α → α → Prop} (hP : ∀ {l a}, P l → P (put (key l a) a l))
    (hfresh : ∀ {l a}, P l → (∀ p ∈ l, R p.2 a) → ∀ p ∈ l, p.1 ≠ key l a) {rows : List α}
    (hi : Increasing l) (hl : P l) (hold : ∀ p ∈ l, ∀ a ∈ rows, R p.2 a) (hrows : rows.Pairwise R) :
    let all := rows.foldl (fun l a => put (key l a) a l) l
    Increasing all ∧ (∀ p ∈ l, p ∈ all) ∧ (∀ a ∈ rows, ∃ k, (k, a) ∈ all) ∧
      ∀ p ∈ all, p ∈ l ∨ p.2 ∈ rows := by
  induction rows generalizing l with
  | nil => exact ⟨hi, fun p hp => hp, fun a ha => absurd ha List.not_mem_nil, fun p hp => .inl hp⟩
  | cons a rows ih =>
    obtain ⟨ha, hrows⟩ := List.pairwise_cons.1 hrows
    have hkeys := hfresh hl fun p hp => hold p hp a List.mem_cons_self
    have hnew : ∀ p ∈ put (key l a) a l, ∀ b ∈ rows, R p.2 b := by
      intro p hp b hb
      rcases mem_of_mem_put hp with rfl | hp
      · exact ha b hb
      · exact hold p hp b (List.mem_cons_of_mem _ hb)
    obtain ⟨hinc, hkeep, hall, honly⟩ := ih hi.put (hP hl) hnew hrows
    refine ⟨hinc, fun p hp => hkeep p (mem_put_of_ne hp (hkeys p hp)), ?_, fun p hp => ?_⟩
    · exact List.forall_mem_cons.2 ⟨⟨_, hkeep _ mem_put_self⟩, hall⟩
    · rcases honly p hp with hp | hp
      · rcases mem_of_mem_put hp with rfl | hp
        · exact .inr List.mem_cons_self
        · exact .inl hp
      · exact .inr (List.mem_cons_of_mem _ hp)

/-- A fresh key is one row more. -/
theorem perm_put (hfresh : ∀ p ∈ l, p.1 ≠ k) : (put k a l).Perm ((k, a) :: l) := by
  induction l with
  | nil => exact .refl _
  | cons q l ih =>
    rw [put]
    split_ifs with hlt heq
    · exact .refl _
    · exact absurd heq.symm (hfresh q List.mem_cons_self)
    · have htail := ih fun p hp => hfresh p (List.mem_cons_of_mem _ hp)
      exact (htail.cons q).trans (List.Perm.swap _ _ _)

/-- So rows that are put under fresh keys are all there, each as often as it was put. -/
theorem perm_foldl_put {key : List (String × α) → α → String} {P : List (String × α) → Prop}
    {R : α → α → Prop} (hP : ∀ {l a}, P l → P (put (key l a) a l))
    (hfresh : ∀ {l a}, P l → (∀ p ∈ l, R p.2 a) → ∀ p ∈ l, p.1 ≠ key l a) {rows : List α}
    (hl : P l) (hold : ∀ p ∈ l, ∀ a ∈ rows, R p.2 a) (hrows : rows.Pairwise R) :
    ((rows.foldl (fun l a => put (key l a) a l) l).map Prod.snd).Perm
      (l.map Prod.snd ++ rows) := by
  induction rows generalizing l with
  | nil => exact .of_eq (List.append_nil _).symm
  | cons a rows ih =>
    obtain ⟨ha, hrows⟩ := List.pairwise_cons.1 hrows
    have hkeys := hfresh hl fun p hp => hold p hp a List.mem_cons_self
    have hnew : ∀ p ∈ put (key l a) a l, ∀ b ∈ rows, R p.2 b := by
      intro p hp b hb
      rcases mem_of_mem_put hp with rfl | hp
      · exact ha b hb
      · exact hold p hp b (List.mem_cons_of_mem _ hb)
    have hput : ((put (key l a) a l).map Prod.snd ++ rows).Perm (a :: l.map Prod.snd ++ rows) :=
      ((perm_put hkeys).map Prod.snd).append_right rows
    exact ((ih (hP hl) hnew hrows).trans hput).trans List.perm_middle.symm

/-- Rows that have distinct names are put under these, if a name is the key as long as it is
    fresh. -/
theorem perm_foldl_put_name {key : List (String × α) → α → String} {name : α → String}
    (hkey : ∀ l a, (∀ p ∈ l, p.1 ≠ name a) → key l a = name a) {rows : List α}
    (hold : ∀ p ∈ l, ∀ a ∈ rows, p.1 ≠ name a) (hrows : (rows.map name).Nodup) :
    (rows.foldl (fun l a => put (key l a) a l) l).Perm (l ++ rows.map fun a => (name a, a)) := by
  induction rows generalizing l with
  | nil => exact .of_eq (List.append_nil _).symm
  | cons a rows ih =>
    obtain ⟨ha, hrows⟩ := List.nodup_cons.1 hrows
    have hfresh : ∀ p ∈ l, p.1 ≠ name a := fun p hp => hold p hp a List.mem_cons_self
    have hnew : ∀ p ∈ put (name a) a l, ∀ b ∈ rows, p.1 ≠ name b := by
      intro p hp b hb
      rcases mem_of_mem_put hp with rfl | hp
      · exact fun he => ha (List.mem_map.2 ⟨b, hb, he.symm⟩)
      · exact hold p hp b (List.mem_cons_of_mem _ hb)
    have hput := (perm_put (a := a) hfresh).append_right (rows.map fun a => (name a, a))
    rw [List.foldl_cons, hkey l a hfresh]
    exact ((ih hnew hrows).trans hput).trans List.perm_middle.symm

/-- Lists in the order of their keys are the same if they have the same rows. -/
theorem Increasing.eq_of_perm {l' : List (String × α)} (h : Increasing l) (h' : Increasing l')
    (hp : l.Perm l') : l = l' :=
  hp.eq_of_pairwise (fun _ _ _ _ hlt hgt => absurd (hlt.trans hgt) (lt_irrefl _)) h h'

/-- Whatever keys the rows are put under, they are in order. -/
theorem Increasing.foldl_put (h : Increasing l) (key : List (String × α) → α → String)
    (rows : List α) : Increasing (rows.foldl (fun l a => Smrt.put (key l a) a l) l) := by
  induction rows generalizing l with
  | nil => exact h
  | cons a rows ih => exact ih h.put

theorem mem_of_lookup (h : l.lookup k = some a) : (k, a) ∈ l := by
  obtain ⟨u, v, rfl, -⟩ := List.lookup_eq_some_iff.1 h
  exact List.mem_append_right _ List.mem_cons_self

theorem lookup_cons' (k' : String) :
    List.lookup k' ((k, a) :: l) = if k' = k then some a else l.lookup k' := by
  rw [List.lookup_cons]
  by_cases h : k' = k
  · rw [if_pos h, beq_iff_eq.2 h]
  · rw [if_neg h, beq_false_of_ne h]

theorem lookup_put (k' : String) :
    (put k a l).lookup k' = if k' = k then some a else l.lookup k' := by
  induction l with
  | nil => exact lookup_cons' k'
  | cons q l ih =>
    obtain ⟨kq, b⟩ := q
    rw [put]
    split
    · exact lookup_cons' k'
    split
    · next heq =>
      subst heq
      rw [lookup_cons', lookup_cons']
      by_cases hk : k' = k
      · rw [if_pos hk, if_pos hk]
      · rw [if_neg hk, if_neg hk, if_neg hk]
    · next hne =>
      rw [lookup_cons', ih, lookup_cons']
      by_cases hk : k' = k
      · rw [if_pos hk, if_pos hk, if_neg fun he => hne (hk.symm.trans he)]
      · rw [if_neg hk, if_neg hk]

/-- What is under a key is found there. -/
theorem Increasing.lookup (h : Increasing l) (ha : (k, a) ∈ l) : l.lookup k = some a := by
  rcases hl : l.lookup k with _ | b
  · exact absurd (List.lookup_eq_none_iff.1 hl _ ha) (by simp)
  · rw [h.eq ha (mem_of_lookup hl)]

end Put

/-! ## The greatest of each key -/

section Greatest

variable {α : Type} (key : α → String) (lt : α → α → Bool)

/-- Of the rows of each key the greatest one, in the order of the keys; the first one of several. -/
def greatest (l : List α) : List (String × α) :=
  l.foldl (fun m a =>
    if (m.lookup (key a)).all fun b => lt b a then put (key a) a m else m) []

variable {key lt}

theorem greatest_concat (l : List α) (a : α) : greatest key lt (l ++ [a]) =
    if ((greatest key lt l).lookup (key a)).all fun b => lt b a then
      put (key a) a (greatest key lt l) else greatest key lt l := by
  rw [greatest, List.foldl_append]
  rfl

theorem increasing_greatest (l : List α) : Increasing (greatest key lt l) := by
  induction l using List.reverseRecOn with
  | nil => exact .nil
  | append_singleton l a ih =>
    rw [greatest_concat]
    split_ifs
    · exact ih.put
    · exact ih

theorem lookup_filter {p : String → Bool} {k : String} (hk : p k = true) (l : List (String × α)) :
    (l.filter fun q => p q.1).lookup k = l.lookup k := by
  induction l with
  | nil => rfl
  | cons q l ih =>
    rw [List.filter_cons, lookup_cons' k]
    split_ifs with hp hq hq
    · rw [lookup_cons', if_pos hq]
    · rw [lookup_cons', if_neg hq, ih]
    · exact absurd (hq ▸ hk) hp
    · exact ih

/-- A row that is put under a key is among those that are kept if its key is. -/
theorem filter_put {p : String → Bool} {k : String} {a : α} {l : List (String × α)}
    (h : Increasing l) : (put k a l).filter (fun q => p q.1) =
      if p k then put k a (l.filter fun q => p q.1) else l.filter fun q => p q.1 := by
  have hfirst : ∀ l : List (String × α), (∀ q ∈ l, k < q.1) → put k a l = (k, a) :: l := by
    intro l hl
    rcases l with _ | ⟨q, l⟩
    · rfl
    · rw [put, if_pos (hl q List.mem_cons_self)]
  induction l with
  | nil =>
    rw [put, List.filter_cons]
    split_ifs <;> rfl
  | cons q l ih =>
    obtain ⟨hq, hl⟩ := List.pairwise_cons.1 h
    rw [put]
    by_cases hk : p k = true
    · rw [if_pos hk]
      split_ifs with hlt heq
      · have hall : ∀ r ∈ q :: l, k < r.1 :=
          List.forall_mem_cons.2 ⟨hlt, fun r hr => hlt.trans (hq r hr)⟩
        rw [List.filter_cons_of_pos (by exact hk),
          hfirst _ fun r hr => hall r (List.mem_of_mem_filter hr)]
      · rw [List.filter_cons_of_pos (by exact hk), List.filter_cons_of_pos (by exact heq ▸ hk), put,
          if_neg hlt, if_pos heq]
      · rw [List.filter_cons, List.filter_cons, ih hl, if_pos hk]
        split_ifs with hpq
        · rw [put, if_neg hlt, if_neg heq]
        · rfl
    · rw [if_neg hk]
      split_ifs with hlt heq
      · rw [List.filter_cons_of_neg (by exact hk)]
      · rw [List.filter_cons_of_neg (by exact hk), List.filter_cons_of_neg (by exact heq ▸ hk)]
      · rw [List.filter_cons, List.filter_cons, ih hl, if_neg hk]

/-- A row is listed under its key. -/
theorem key_of_mem_greatest {l : List α} {q : String × α} (h : q ∈ greatest key lt l) :
    key q.2 = q.1 := by
  induction l using List.reverseRecOn with
  | nil => exact absurd h List.not_mem_nil
  | append_singleton l a ih =>
    rw [greatest_concat] at h
    split_ifs at h
    · rcases mem_of_mem_put h with rfl | h
      · rfl
      · exact ih h
    · exact ih h

/-- The rows of the keys that are kept. -/
theorem filter_greatest (p : String → Bool) (l : List α) :
    (greatest key lt l).filter (fun q => p q.1) =
      greatest key lt (l.filter fun a => p (key a)) := by
  induction l using List.reverseRecOn with
  | nil => rfl
  | append_singleton l a ih =>
    rw [greatest_concat, List.filter_append, List.filter_cons, List.filter_nil]
    by_cases hp : p (key a) = true
    · rw [if_pos hp, greatest_concat, ← ih, lookup_filter hp]
      split_ifs
      · rw [filter_put (increasing_greatest l), if_pos hp]
      · rfl
    · rw [if_neg hp, List.append_nil, ← ih]
      split_ifs
      · rw [filter_put (increasing_greatest l), if_neg hp]
      · rfl

/-- Every key is listed. -/
theorem exists_mem_greatest {l : List α} {a : α} (ha : a ∈ l) :
    ∃ b, (key a, b) ∈ greatest key lt l := by
  induction l using List.reverseRecOn with
  | nil => exact absurd ha List.not_mem_nil
  | append_singleton l c ih =>
    rw [greatest_concat]
    rcases List.mem_append.1 ha with ha | ha
    · obtain ⟨b, hb⟩ := ih ha
      split_ifs
      · by_cases hkey : key a = key c
        · exact ⟨c, hkey ▸ mem_put_self⟩
        · exact ⟨b, mem_put_of_ne hb hkey⟩
      · exact ⟨b, hb⟩
    · obtain rfl := List.mem_singleton.1 ha
      split_ifs with hless
      · exact ⟨a, mem_put_self⟩
      · rcases hold : (greatest key lt l).lookup (key a) with _ | b
        · exact absurd (by rw [hold]; rfl) hless
        · exact ⟨b, mem_of_lookup hold⟩

/-- What is listed is a row of its key, and no other one is greater. -/
theorem of_mem_greatest (htrans : ∀ a b c, lt a b = true → lt b c = true → lt a c = true)
    (hirrefl : ∀ a, lt a a = false) {l : List α} {k : String} {a : α}
    (ha : (k, a) ∈ greatest key lt l) :
    a ∈ l ∧ key a = k ∧ ∀ b ∈ l, key b = k → lt a b = false := by
  induction l using List.reverseRecOn generalizing k a with
  | nil => exact absurd ha List.not_mem_nil
  | append_singleton l c ih =>
    have hall : ∀ {d : α}, (∀ b ∈ l, key b = k → lt d b = false) → (key c = k → lt d c = false) →
        ∀ b ∈ l ++ [c], key b = k → lt d b = false :=
      fun hl hc => List.forall_mem_append.2 ⟨hl, List.forall_mem_singleton.2 hc⟩
    rw [greatest_concat] at ha
    split_ifs at ha with hless
    · by_cases hkey : k = key c
      · -- The new row is greater than the one that it replaces, which none is greater than.
        subst hkey
        obtain rfl := (increasing_greatest l).put.eq ha mem_put_self
        refine ⟨List.mem_append_right _ (List.mem_singleton_self _), rfl,
          hall (fun b hb hkey => ?_) fun _ => hirrefl _⟩
        obtain ⟨d, hd⟩ : ∃ d, (key b, d) ∈ greatest key lt l := exists_mem_greatest hb
        rw [hkey] at hd
        rw [(increasing_greatest l).lookup hd, Option.all_some] at hless
        have hdb := (ih hd).2.2 b hb hkey
        by_contra hab
        rw [Bool.not_eq_false] at hab
        exact Bool.false_ne_true (hdb.symm.trans (htrans _ _ _ hless hab))
      · rcases mem_of_mem_put ha with he | ha
        · exact absurd (congrArg Prod.fst he) hkey
        · obtain ⟨hmem, hk, hl⟩ := ih ha
          exact ⟨List.mem_append_left _ hmem, hk, hall hl fun he => absurd he.symm hkey⟩
    · obtain ⟨hmem, hk, hl⟩ := ih ha
      refine ⟨List.mem_append_left _ hmem, hk, hall hl fun he => ?_⟩
      subst he
      rw [(increasing_greatest l).lookup ha, Option.all_some, Bool.not_eq_true] at hless
      exact hless

end Greatest

/-! ## Association lists in another order -/

section Perm

variable {α κ : Type} [BEq κ] [LawfulBEq κ]

/-- A key that is there once has what is under it. -/
theorem lookup_eq_some {l : List (κ × α)} (hn : (l.map Prod.fst).Nodup) {k : κ} {a : α}
    (h : (k, a) ∈ l) : l.lookup k = some a := by
  induction l with
  | nil => exact absurd h List.not_mem_nil
  | cons p l ih =>
    obtain ⟨hk, hn⟩ := List.nodup_cons.1 hn
    rcases List.mem_cons.1 h with rfl | h
    · rw [List.lookup_cons_self]
    · have hne : k ≠ p.1 := fun he => hk (List.mem_map.2 ⟨_, h, he⟩)
      rw [List.lookup_cons, beq_false_of_ne hne]
      exact ih hn h

/-- In what order distinct keys are listed does not matter. -/
theorem lookup_eq_of_perm {l m : List (κ × α)} (h : l.Perm m) (hn : (l.map Prod.fst).Nodup)
    (k : κ) : l.lookup k = m.lookup k := by
  rcases hl : l.lookup k with _ | a
  · have hnone := List.lookup_eq_none_iff.1 hl
    exact (List.lookup_eq_none_iff.2 fun p hp => hnone p (h.mem_iff.2 hp)).symm
  · obtain ⟨u, v, rfl, -⟩ := List.lookup_eq_some_iff.1 hl
    exact (lookup_eq_some ((h.map _).nodup_iff.1 hn)
      (h.mem_iff.1 (List.mem_append_right _ List.mem_cons_self))).symm

end Perm

/-! ## Differences -/

section Rows

variable (pin : α → String) (changes : String → α → α → List γ) (removed added : String → α → γ)

/-- The rows of `was` that are not in `now`, each of them with the first row of `now` that points at
    the same, is under a new key and is not taken yet; and the keys that are taken. -/
def pairGone (was now : List (String × α)) (taken : List String) :
    List (String × α) → List γ × List String
  | [] => ([], taken)
  | (key, old) :: gone =>
    match now.find? fun p => (was.lookup p.1).isNone && p.1 ∉ taken && pin p.2 = pin old with
    | some (newKey, new) =>
      let (rows, taken) := pairGone was now (newKey :: taken) gone
      (changes newKey old new ++ rows, taken)
    | none =>
      let (rows, taken) := pairGone was now taken gone
      (removed key old :: rows, taken)

/-- What is different: what has changed of the rows under the same key, then the rows that were
    moved or removed, then those that were added. -/
def keyedRows (was now : List (String × α)) : List γ :=
  let moved := pairGone pin changes removed was now [] (was.filter fun p => (now.lookup p.1).isNone)
  (now.flatMap fun p => (was.lookup p.1).elim [] fun old => changes p.1 old p.2) ++ moved.1 ++
    (now.filter fun p => (was.lookup p.1).isNone && p.1 ∉ moved.2).map fun p => added p.1 p.2

variable {pin changes removed added} {was now : List (String × α)}

/-- If nothing was moved or removed, every row that is gone is paired with one that has not
    changed, and so is every key that is taken. -/
theorem pairGone_eq_nil {taken : List String} {gone : List (String × α)}
    (h : (pairGone pin changes removed was now taken gone).1 = []) :
    (∀ p ∈ gone, ∃ q ∈ now, ∃ k, changes k p.2 q.2 = []) ∧
      ∀ k ∈ (pairGone pin changes removed was now taken gone).2, k ∈ taken ∨
        ∃ a, (k, a) ∈ now ∧ ∃ p ∈ gone, changes k p.2 a = [] := by
  induction gone generalizing taken with
  | nil => exact ⟨fun p hp => absurd hp List.not_mem_nil, fun k hk => .inl hk⟩
  | cons p gone ih =>
    obtain ⟨key, old⟩ := p
    rw [pairGone] at h ⊢
    rcases hf : now.find? fun p => (was.lookup p.1).isNone && p.1 ∉ taken && pin p.2 = pin old
      with _ | ⟨newKey, new⟩ <;> simp only [hf] at h ⊢
    · exact absurd h (List.cons_ne_nil _ _)
    · have hnew := List.mem_of_find?_eq_some hf
      obtain ⟨hc, hrows⟩ := List.append_eq_nil_iff.1 h
      obtain ⟨hgone, htaken⟩ := ih hrows
      refine ⟨List.forall_mem_cons.2 ⟨⟨_, hnew, newKey, hc⟩, hgone⟩, fun k hk => ?_⟩
      rcases htaken k hk with hk | ⟨a, ha, q, hq, hqa⟩
      · rcases List.mem_cons.1 hk with rfl | hk
        · exact .inr ⟨new, hnew, _, List.mem_cons_self, hc⟩
        · exact .inl hk
      · exact .inr ⟨a, ha, q, List.mem_cons_of_mem _ hq, hqa⟩

/-- Without a difference, what there was is still there. -/
theorem exists_of_keyedRows_eq_nil (hwas : Increasing was)
    (h : keyedRows pin changes removed added was now = []) {p : String × α} (hp : p ∈ was) :
    ∃ q ∈ now, ∃ k, changes k p.2 q.2 = [] := by
  obtain ⟨hmoved, -⟩ := List.append_eq_nil_iff.1 h
  obtain ⟨hkept, hgone⟩ := List.append_eq_nil_iff.1 hmoved
  rcases hn : now.lookup p.1 with _ | a
  · exact (pairGone_eq_nil hgone).1 p (List.mem_filter.2 ⟨hp, by rw [hn]; rfl⟩)
  · have ha := mem_of_lookup hn
    have hc := List.flatMap_eq_nil_iff.1 hkept _ ha
    rcases hw : was.lookup p.1 with _ | old
    · exact absurd hw fun hnone => absurd (List.lookup_eq_none_iff.1 hnone p hp) (by simp)
    · obtain rfl : old = p.2 := hwas.eq (mem_of_lookup hw) hp
      rw [hw] at hc
      exact ⟨_, ha, p.1, hc⟩

/-- Without a difference, what there is was there before. -/
theorem exists_of_keyedRows_eq_nil' (hnow : Increasing now)
    (h : keyedRows pin changes removed added was now = []) {q : String × α} (hq : q ∈ now) :
    ∃ p ∈ was, ∃ k, changes k p.2 q.2 = [] := by
  obtain ⟨hmoved, hadded⟩ := List.append_eq_nil_iff.1 h
  obtain ⟨hkept, hgone⟩ := List.append_eq_nil_iff.1 hmoved
  rcases hw : was.lookup q.1 with _ | old
  · -- A row under a new key is not an arrival, so it is taken.
    have hnot := List.map_eq_nil_iff.1 hadded
    rw [List.filter_eq_nil_iff] at hnot
    have htaken := hnot q hq
    simp only [hw, Option.isNone_none, Bool.true_and, decide_eq_true_eq, not_not] at htaken
    rcases (pairGone_eq_nil hgone).2 _ htaken with hk | ⟨a, ha, p, hp, hc⟩
    · exact absurd hk List.not_mem_nil
    · obtain rfl : a = q.2 := hnow.eq ha hq
      exact ⟨p, (List.mem_filter.1 hp).1, q.1, hc⟩
  · have hc := List.flatMap_eq_nil_iff.1 hkept _ hq
    rw [hw] at hc
    exact ⟨_, mem_of_lookup hw, q.1, hc⟩

/-- Rows do not differ from themselves. -/
theorem keyedRows_self (hwas : Increasing was) (hself : ∀ k a, changes k a a = []) :
    keyedRows pin changes removed added was was = [] := by
  have hthere : ∀ p ∈ was, was.lookup p.1 = some p.2 := fun p hp => hwas.lookup hp
  have hgone : (was.filter fun p => (was.lookup p.1).isNone) = [] :=
    List.filter_eq_nil_iff.2 fun p hp => by simp [hthere p hp]
  have hnew : ∀ q : String × α → Bool,
      (was.filter fun p => (was.lookup p.1).isNone && q p) = [] := fun q =>
    List.filter_eq_nil_iff.2 fun p hp => by simp [hthere p hp]
  have hkept : (was.flatMap fun p => (was.lookup p.1).elim [] fun old => changes p.1 old p.2) =
      [] :=
    List.flatMap_eq_nil_iff.2 fun p hp => by rw [hthere p hp, Option.elim_some, hself]
  rw [keyedRows, hgone, pairGone, hkept, hnew]
  rfl

/-- One row that has not changed is no difference. -/
theorem keyedRows_singleton {k : String} {a b : α} (h : changes k a b = []) :
    keyedRows pin changes removed added [(k, a)] [(k, b)] = [] := by
  simp [keyedRows, pairGone, List.lookup_cons, h]

end Rows

end Smrt
