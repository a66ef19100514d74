import Mathlib.Data.List.Nodup
import Mathlib.Data.List.Perm.Lattice
import Mathlib.Data.Nat.Notation
import Mathlib.Order.Lattice.Nat
import Mathlib.Tactic.SplitIfs

/-!
# Tables

A table of rows under ids that it gives out itself: a new row gets the largest id in the table
plus one, so that ids are given out in increasing order, but the id of a newest row that was
deleted is given out again. The rows are in the order of their ids.

* `Table.get?`: the row under an id; what a table is, its ids apart, is what is under each id
  (`get?_insert`, `get?_modify`, `get?_filter`);
* `Table.get?_eq_some`: the rows of the list are those under the ids;
* `Table.ext_get?`: tables with the same rows under the same ids are equal;
* `Table.lt_nextId`: the next id is fresh, for the rows that are there;
* `Table.All`, `Table.Distinct`: a constraint on the rows, and a key that tells them apart.
-/

namespace Smrt

/-- Rows under ids. -/
structure Table (ρ : Type*) where
  rows : List (ℕ × ρ)
  increasing : rows.Pairwise fun x y => x.1 < y.1

namespace Table

variable {ρ : Type*}

/-- A table without rows. -/
def empty : Table ρ := ⟨[], .nil⟩

/-- The largest id there is, or zero. -/
def lastId (t : Table ρ) : ℕ := (t.rows.map Prod.fst).foldr max 0

/-- The id that the next row gets. -/
def nextId (t : Table ρ) : ℕ := t.lastId + 1

theorem le_foldr_max {l : List (ℕ × ρ)} {x : ℕ × ρ} (h : x ∈ l) :
    x.1 ≤ (l.map Prod.fst).foldr max 0 := by
  induction l with
  | nil => cases h
  | cons y l ih =>
    rcases List.mem_cons.1 h with rfl | h
    · exact Nat.le_max_left ..
    · exact (ih h).trans (Nat.le_max_right ..)

theorem le_lastId {t : Table ρ} {x : ℕ × ρ} (h : x ∈ t.rows) : x.1 ≤ t.lastId := le_foldr_max h

theorem lt_nextId {t : Table ρ} {x : ℕ × ρ} (h : x ∈ t.rows) : x.1 < t.nextId :=
  Nat.lt_succ_of_le (le_lastId h)

/-- A row is added, under the next id. -/
def insert (t : Table ρ) (row : ρ) : Table ρ where
  rows := t.rows ++ [(t.nextId, row)]
  increasing := List.pairwise_append.2 ⟨t.increasing, List.pairwise_singleton .., fun _ hx _ hy =>
    List.mem_singleton.1 hy ▸ lt_nextId hx⟩

/-- The row under an id is changed, if there is one. -/
def modify (t : Table ρ) (id : ℕ) (f : ρ → ρ) : Table ρ where
  rows := t.rows.map fun x => if x.1 = id then (x.1, f x.2) else x
  increasing := by
    refine List.pairwise_map.2 (t.increasing.imp fun {x y} h => ?_)
    split_ifs <;> exact h

/-- The rows that `p` keeps. -/
def filter (t : Table ρ) (p : ℕ → ρ → Bool) : Table ρ where
  rows := t.rows.filter fun x => p x.1 x.2
  increasing := t.increasing.filter _

/-- The row under an id. -/
def get? (t : Table ρ) (id : ℕ) : Option ρ := (t.rows.find? fun x => x.1 = id).map Prod.snd

variable {t : Table ρ} {id j : ℕ} {row : ρ}

/-- No id is given twice. -/
theorem eq_of_id_eq {l : List (ℕ × ρ)} (h : l.Pairwise fun x y => x.1 < y.1) {x y : ℕ × ρ}
    (hx : x ∈ l) (hy : y ∈ l) (hid : x.1 = y.1) : x = y := by
  induction l with
  | nil => cases hx
  | cons z l ih =>
    obtain ⟨hz, hl⟩ := List.pairwise_cons.1 h
    rcases List.mem_cons.1 hx with rfl | hxl <;> rcases List.mem_cons.1 hy with rfl | hyl
    · rfl
    · exact absurd hid (hz y hyl).ne
    · exact absurd hid.symm (hz x hxl).ne
    · exact ih hl hxl hyl

/-- The row under an id is the one in the table that has it. -/
theorem get?_eq_some : t.get? id = some row ↔ (id, row) ∈ t.rows := by
  rw [get?, Option.map_eq_some_iff]
  constructor
  · rintro ⟨⟨i, r⟩, hf, rfl⟩
    obtain rfl : i = id := by simpa using List.find?_some hf
    exact List.mem_of_find?_eq_some hf
  · intro hmem
    cases hf : t.rows.find? fun x => x.1 = id with
    | none => exact absurd (List.find?_eq_none.1 hf _ hmem) (by simp)
    | some x =>
      have hx : x.1 = id := by simpa using List.find?_some hf
      have hrow := eq_of_id_eq t.increasing (List.mem_of_find?_eq_some hf) hmem hx
      exact ⟨x, rfl, congrArg Prod.snd hrow⟩

theorem get?_eq_none : t.get? id = none ↔ ∀ x ∈ t.rows, x.1 ≠ id := by
  rw [get?, Option.map_eq_none_iff, List.find?_eq_none]
  simp

/-- Nothing is under an id that is not given out yet. -/
theorem get?_of_nextId_le (h : t.nextId ≤ id) : t.get? id = none :=
  get?_eq_none.2 fun _ hx => ((lt_nextId hx).trans_le h).ne

theorem lt_nextId_of_get? (h : t.get? id = some row) : id < t.nextId :=
  lt_nextId (get?_eq_some.1 h)

@[simp] theorem get?_empty : (empty : Table ρ).get? id = none := rfl

theorem get?_insert :
    (t.insert row).get? id = if id = t.nextId then some row else t.get? id := by
  ext r
  rw [get?_eq_some, insert, List.mem_append, List.mem_singleton, Prod.mk.injEq, ← get?_eq_some]
  split_ifs with hid
  · rw [get?_of_nextId_le (Nat.le_of_eq hid.symm)]
    simp [hid, eq_comm]
  · simp [hid]

@[simp] theorem get?_insert_nextId : (t.insert row).get? t.nextId = some row :=
  get?_insert.trans (if_pos rfl)

theorem get?_insert_of_ne (h : id ≠ t.nextId) : (t.insert row).get? id = t.get? id :=
  get?_insert.trans (if_neg h)

theorem get?_modify {f : ρ → ρ} :
    (t.modify id f).get? j = if j = id then (t.get? j).map f else t.get? j := by
  ext r
  rw [get?_eq_some, modify, List.mem_map]
  constructor
  · rintro ⟨⟨i, r'⟩, hmem, heq⟩
    by_cases hi : i = id
    · rw [if_pos hi] at heq
      obtain ⟨rfl, rfl⟩ := Prod.mk.inj heq
      rw [if_pos hi, get?_eq_some.2 hmem, Option.map_some]
    · rw [if_neg hi] at heq
      obtain ⟨rfl, rfl⟩ := Prod.mk.inj heq
      rw [if_neg hi, get?_eq_some.2 hmem]
  · intro h
    by_cases hj : j = id
    · rw [if_pos hj, Option.map_eq_some_iff] at h
      obtain ⟨r', hr', rfl⟩ := h
      exact ⟨(j, r'), get?_eq_some.1 hr', if_pos hj⟩
    · rw [if_neg hj] at h
      exact ⟨(j, r), get?_eq_some.1 h, if_neg hj⟩

theorem get?_modify_self {f : ρ → ρ} : (t.modify id f).get? id = (t.get? id).map f :=
  get?_modify.trans (if_pos rfl)

theorem get?_modify_of_ne {f : ρ → ρ} (h : j ≠ id) : (t.modify id f).get? j = t.get? j :=
  get?_modify.trans (if_neg h)

theorem get?_filter {p : ℕ → ρ → Bool} : (t.filter p).get? id = (t.get? id).filter (p id) := by
  ext r
  rw [get?_eq_some, filter, List.mem_filter, ← get?_eq_some, Option.filter_eq_some_iff]

/-- A table is what is under its ids. -/
theorem ext_get? {t' : Table ρ} (h : ∀ id, t.get? id = t'.get? id) : t = t' := by
  obtain ⟨rows, hrows⟩ := t
  obtain ⟨rows', hrows'⟩ := t'
  have hmem : ∀ x, x ∈ rows ↔ x ∈ rows' := by
    intro x
    have hx := h x.1
    rw [Option.ext_iff] at hx
    have hrow := hx x.2
    rw [get?_eq_some, get?_eq_some] at hrow
    exact hrow
  have hnodup : ∀ {l : List (ℕ × ρ)}, (l.Pairwise fun x y => x.1 < y.1) → l.Nodup :=
    fun hl => hl.imp fun hlt he => absurd (congrArg Prod.fst he) hlt.ne
  have hperm : rows.Perm rows' :=
    (List.perm_ext_iff_of_nodup (hnodup hrows) (hnodup hrows')).2 hmem
  congr
  exact hperm.eq_of_pairwise (fun x y _ _ hxy hyx => absurd hyx hxy.asymm) hrows hrows'

/-! ## Every row -/

/-- Every row is changed. -/
def map (t : Table ρ) (f : ℕ → ρ → ρ) : Table ρ where
  rows := t.rows.map fun x => (x.1, f x.1 x.2)
  increasing := List.pairwise_map.2 t.increasing

theorem get?_map {f : ℕ → ρ → ρ} : (t.map f).get? id = (t.get? id).map (f id) := by
  ext r
  rw [get?_eq_some, map, List.mem_map, Option.map_eq_some_iff]
  constructor
  · rintro ⟨⟨i, r'⟩, hmem, heq⟩
    obtain ⟨rfl, rfl⟩ := Prod.mk.inj heq
    exact ⟨r', get?_eq_some.2 hmem, rfl⟩
  · rintro ⟨r', hr', rfl⟩
    exact ⟨(id, r'), get?_eq_some.1 hr', rfl⟩

@[simp] theorem isSome_get?_map {f : ℕ → ρ → ρ} :
    ((t.map f).get? id).isSome = (t.get? id).isSome := by
  rw [get?_map, Option.isSome_map]

@[simp] theorem isSome_get?_modify {f : ρ → ρ} :
    ((t.modify id f).get? j).isSome = (t.get? j).isSome := by
  rw [get?_modify]
  split_ifs
  · exact Option.isSome_map
  · rfl

theorem isSome_get?_insert (h : (t.get? id).isSome) : ((t.insert row).get? id).isSome := by
  obtain ⟨r, hr⟩ := Option.isSome_iff_exists.1 h
  rw [get?_insert_of_ne (lt_nextId_of_get? hr).ne]
  exact h

/-- Every row has a property. -/
def All (t : Table ρ) (p : ρ → Prop) : Prop := ∀ x ∈ t.rows, p x.2

instance {p : ρ → Prop} [DecidablePred p] : Decidable (t.All p) :=
  inferInstanceAs (Decidable (∀ x ∈ t.rows, p x.2))

namespace All

variable {p q : ρ → Prop}

theorem get (h : t.All p) (hr : t.get? id = some row) : p row := h _ (get?_eq_some.1 hr)

theorem imp (h : t.All p) (hpq : ∀ r, p r → q r) : t.All q := fun x hx => hpq x.2 (h x hx)

theorem insert (h : t.All p) (hrow : p row) : (t.insert row).All p := by
  intro x hx
  rcases List.mem_append.1 hx with hx | hx
  · exact h x hx
  · rw [List.mem_singleton.1 hx]
    exact hrow

theorem map {f : ℕ → ρ → ρ} (h : ∀ id r, t.get? id = some r → p (f id r)) : (t.map f).All p := by
  intro x hx
  obtain ⟨y, hy, rfl⟩ := List.mem_map.1 hx
  exact h y.1 y.2 (get?_eq_some.2 hy)

theorem modify {f : ρ → ρ} (h : t.All p) (hf : ∀ r, t.get? id = some r → p (f r)) :
    (t.modify id f).All p := by
  intro x hx
  obtain ⟨y, hy, rfl⟩ := List.mem_map.1 hx
  split_ifs with hid
  · exact hf y.2 (hid ▸ get?_eq_some.2 hy)
  · exact h y hy

theorem filter {k : ℕ → ρ → Bool} (h : t.All p) : (t.filter k).All p :=
  fun x hx => h x (List.mem_of_mem_filter hx)

end All

/-- The rows of one table are there in another. -/
def Extends (t t' : Table ρ) : Prop := t.rows ⊆ t'.rows

theorem Extends.get? {t' : Table ρ} (h : t.Extends t') (hr : t.get? id = some row) :
    t'.get? id = some row :=
  get?_eq_some.2 (h (get?_eq_some.1 hr))

/-- The ids are signed numbers of 64 bits, as a store gives them out. -/
def Rowids (t : Table ρ) : Prop := ∀ x ∈ t.rows, x.1 < 2 ^ 63

instance : Decidable t.Rowids := inferInstanceAs (Decidable (∀ x ∈ t.rows, x.1 < 2 ^ 63))

theorem nodup_rows : t.rows.Nodup :=
  t.increasing.imp fun hlt he => absurd (congrArg Prod.fst he) hlt.ne

theorem all_of_get? {p : ρ → Prop} (h : ∀ id r, t.get? id = some r → p r) : t.All p :=
  fun x hx => h x.1 x.2 (get?_eq_some.2 hx)

/-- The first row with a property, and its id. -/
def find? (t : Table ρ) (p : ρ → Bool) : Option (ℕ × ρ) := t.rows.find? fun x => p x.2

theorem get?_of_find? {p : ρ → Bool} (h : t.find? p = some (id, row)) :
    t.get? id = some row ∧ p row = true :=
  ⟨get?_eq_some.2 (List.mem_of_find?_eq_some h),
    List.find?_some (p := fun x : ℕ × ρ => p x.2) h⟩

theorem all_of_find? {p : ρ → Bool} (h : t.find? p = none) : t.All fun r => ¬ p r = true :=
  fun x hx => List.find?_eq_none.1 h x hx

/-- A key tells the rows apart. -/
def Distinct {κ : Type*} (t : Table ρ) (key : ρ → κ) : Prop :=
  (t.rows.map fun x => key x.2).Nodup

instance {κ : Type*} [DecidableEq κ] {key : ρ → κ} : Decidable (t.Distinct key) :=
  inferInstanceAs (Decidable (t.rows.map fun x => key x.2).Nodup)

namespace Distinct

variable {κ : Type*} {key : ρ → κ}

theorem insert (h : t.Distinct key) (hrow : t.All fun r => key r ≠ key row) :
    (t.insert row).Distinct key := by
  rw [Distinct, Table.insert, List.map_append, List.nodup_append]
  refine ⟨h, List.nodup_singleton _, ?_⟩
  intro a ha b hb hab
  obtain ⟨x, hx, rfl⟩ := List.mem_map.1 ha
  exact hrow x hx (hab.trans (List.mem_singleton.1 hb))

theorem map {f : ℕ → ρ → ρ} (h : t.Distinct key) (hf : ∀ id r, key (f id r) = key r) :
    (t.map f).Distinct key := by
  have hkeys : (t.map f).rows.map (fun x => key x.2) = t.rows.map fun x => key x.2 := by
    rw [Table.map, List.map_map]
    exact List.map_congr_left fun x _ => hf x.1 x.2
  rw [Distinct, hkeys]
  exact h

theorem modify_of_eq {f : ρ → ρ} (h : t.Distinct key) (hf : ∀ r, key (f r) = key r) :
    (t.modify id f).Distinct key := by
  have hkeys : (t.modify id f).rows.map (fun x => key x.2) = t.rows.map fun x => key x.2 := by
    rw [Table.modify, List.map_map]
    refine List.map_congr_left fun x _ => ?_
    rw [Function.comp_apply]
    split_ifs
    · exact hf x.2
    · rfl
  rw [Distinct, hkeys]
  exact h

theorem filter {k : ℕ → ρ → Bool} (h : t.Distinct key) : (t.filter k).Distinct key :=
  h.sublist (List.filter_sublist.map _)

/-- Rows with the same key are under the same id. -/
theorem eq_of_key (h : t.Distinct key) {i : ℕ} {r r' : ρ} (hi : t.get? i = some r)
    (hj : t.get? j = some r') (hkey : key r = key r') : i = j := by
  have hx := List.inj_on_of_nodup_map h (get?_eq_some.1 hi) (get?_eq_some.1 hj) hkey
  exact congrArg Prod.fst hx

theorem of_eq_of_key (h : ∀ i j r r', t.get? i = some r → t.get? j = some r' → key r = key r' → i = j) :
    t.Distinct key := by
  have hnodup : t.rows.Nodup := t.increasing.imp fun hlt he => absurd (congrArg Prod.fst he) hlt.ne
  refine hnodup.map_on fun x hx y hy hkey => ?_
  exact eq_of_id_eq t.increasing hx hy
    (h x.1 y.1 x.2 y.2 (get?_eq_some.2 hx) (get?_eq_some.2 hy) hkey)

/-- The row of a key is the one that is found. -/
theorem find?_eq_some (h : t.Distinct key) {p : ρ → Bool} {k : κ}
    (hp : ∀ r, p r = true ↔ key r = k) :
    t.find? p = some (id, row) ↔ t.get? id = some row ∧ key row = k := by
  constructor
  · intro hfind
    obtain ⟨hget, hrow⟩ := get?_of_find? hfind
    exact ⟨hget, (hp row).1 hrow⟩
  · rintro ⟨hget, hrow⟩
    rcases hfind : t.find? p with _ | ⟨j, r⟩
    · exact absurd ((hp row).2 hrow) ((all_of_find? hfind).get hget)
    · obtain ⟨hget', hrow'⟩ := get?_of_find? hfind
      obtain rfl := h.eq_of_key hget' hget (((hp r).1 hrow').trans hrow.symm)
      rw [Option.some.inj (hget'.symm.trans hget)]

end Distinct

end Table

end Smrt
