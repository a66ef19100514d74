import Mathlib.Data.List.Count
import Mathlib.Data.List.Nodup
import Smrt.Lib.Json
import Smrt.Lib.Keyed

/-!
# What someone else touched

When a config changes under somebody who has it open, the fields that changed are marked, by their
paths (`changedPaths`). Objects are compared field by field, lists row by row: a row that a name
tells from the others is matched by it, the others by their place among themselves (`matched`). Rows
are compared by the text they are written as. It has the members of an object in their order, and so
two rows have the same one exactly if they are the same value here, in that order.

* `same_iff`: nothing differs between two values exactly if they are the same but for the order of
  fields, `null` against nothing, and the order of the rows with names;
* `marked_iff`: what is marked is what differs, exactly if rows that are the same are written the
  same (or share their path with one that differs), and no row that differs is named like the place
  of another one.
-/

namespace Smrt

namespace Touched

open Json (Members)

/-! ## Rows -/

/-- What names a row: a mod is its file name, an asset its destination. -/
def rowKey : Json → Option String
  | .obj row => ["filename", "dest"].findSome? fun key =>
    match row.lookup key with
    | some (.str name) => if name ≠ "" then some name else none
    | _ => none
  | _ => none

/-- The names that one row alone has. -/
def namesOf (rows : List Json) : List (Option String) :=
  let raw := rows.map rowKey
  raw.map fun key => if raw.count key = 1 then key else none

/-- The rows that are told by their names. -/
def named (rows : List Json) : List (String × Json) :=
  ((namesOf rows).zip rows).filterMap fun p => p.1.map fun key => (key, p.2)

/-- The other rows, with their places. -/
def anon (rows : List Json) : List (Json × ℕ) :=
  ((namesOf rows).zip rows.zipIdx).filterMap fun p => if p.1.isNone then some p.2 else none

/-- The names of the rows that were added or changed. -/
def changedNames (was now : List (String × Json)) : List String :=
  now.filterMap fun p =>
    match was.lookup p.1 with
    | some had => if had ≠ p.2 then some p.1 else none
    | none => some p.1

/-- The names of the rows that were removed. -/
def removedNames (was now : List (String × Json)) : List String :=
  (was.map Prod.fst).filter fun key => (now.lookup key).isNone

/-- The place of a row without a name: where it is, or where it was. -/
def placeOf (was now : List (Json × ℕ)) (n : ℕ) : ℕ :=
  ((now[n]?).or was[n]?).elim n Prod.snd

def changedPlaces (was now : List (Json × ℕ)) : List String :=
  (List.range (max was.length now.length)).filterMap fun n =>
    match was[n]?, now[n]? with
    | some a, some b => if a.1 = b.1 then none else some (toString (placeOf was now n))
    | _, _ => some (toString (placeOf was now n))

/-- What the rows that changed are called. -/
def rowLabels (before after : List Json) : List String :=
  changedNames (named before) (named after) ++ removedNames (named before) (named after) ++
    changedPlaces (anon before) (anon after)

/-! ## Paths -/

/-- The path of a field of what is at a path. -/
def under (pre key : String) : String := if pre = "" then key else pre ++ "." ++ key

/-- A value that is not gone into. -/
def leafPaths (pre : String) (before after : Json) : List String :=
  if before = after ∨ pre = "" then [] else [pre]

/-- A field of an object; nothing is `null`. -/
def field (o : Members) (key : String) : Json := (o.lookup key).getD .null

mutual

/-- Every path whose value differs. -/
def changedPaths (pre : String) : Json → Json → List String
  | .obj a, .obj b => memberPaths pre b a ++
    (b.filter fun m => (a.lookup m.1).isNone).flatMap fun m => leafPaths (under pre m.1) .null m.2
  | .arr before, .arr after => (rowLabels before after).map fun label => pre ++ "." ++ label
  | a, b => leafPaths pre a b

/-- The paths in the fields that there were. -/
def memberPaths (pre : String) (b : Members) : Members → List String
  | [] => []
  | (key, j) :: a => changedPaths (under pre key) j (field b key) ++ memberPaths pre b a

end

/-! ## What differs -/

/-- The same values, but for the order of fields, `null` against nothing, and the order of the rows
that are told by their names. -/
inductive Same : Json → Json → Prop
  | refl (j : Json) : Same j j
  | obj {a b : Members} (fields : ∀ key, Same (field a key) (field b key)) : Same (.obj a) (.obj b)
  | arr {a b : List Json}
    (names : ∀ name, ((named a).lookup name).isSome = ((named b).lookup name).isSome)
    (rows : ∀ name x y, (named a).lookup name = some x → (named b).lookup name = some y → Same x y)
    (length : (anon a).length = (anon b).length)
    (places : ∀ (n : ℕ) x y, (anon a)[n]? = some x → (anon b)[n]? = some y → Same x.1 y.1) :
    Same (.arr a) (.arr b)

/-- A row before and the one that it is matched with after, and what they are called. -/
structure Match where
  label : String
  was : Option Json
  now : Option Json

/-- The rows are there, before and after, and the same. -/
inductive Match.Same (m : Match) : Prop
  | intro {x y : Json} (was : m.was = some x) (now : m.now = some y) (same : Touched.Same x y)

/-- The rows that are told by their names. -/
def namedMatches (before after : List Json) : List Match :=
  ((named after).map fun p => ⟨p.1, (named before).lookup p.1, some p.2⟩) ++
    ((named before).filter fun p => ((named after).lookup p.1).isNone).map fun p =>
      ⟨p.1, some p.2, none⟩

/-- The other rows, which are told by their places. -/
def anonMatches (before after : List Json) : List Match :=
  (List.range (max (anon before).length (anon after).length)).map fun n =>
    ⟨toString (placeOf (anon before) (anon after) n), ((anon before)[n]?).map Prod.fst,
      ((anon after)[n]?).map Prod.fst⟩

def matched (before after : List Json) : List Match :=
  namedMatches before after ++ anonMatches before after

/-- The two values are gone into together. -/
def SameKind : Json → Json → Prop
  | .obj _, .obj _ => True
  | .arr _, .arr _ => True
  | _, _ => False

/-- The path of a field that differs, or of one of these rows of a list. -/
inductive Differs (rows : List Json → List Json → List Match) : String → Json → Json → String → Prop
  | leaf {pre : String} {a b : Json} (kind : ¬ SameKind a b) (ne : a ≠ b) : Differs rows pre a b pre
  | member {pre key path : String} {a b : Members}
    (inside : Differs rows (under pre key) (field a key) (field b key) path) :
    Differs rows pre (.obj a) (.obj b) path
  | row {pre : String} {a b : List Json} {m : Match} (mem : m ∈ rows a b) (differ : ¬ m.Same) :
    Differs rows pre (.arr a) (.arr b) (pre ++ "." ++ m.label)

/-- A marker is on what changed and only there. -/
structure Marked (before after : Json) : Prop where
  empty_iff : changedPaths "" before after = [] ↔ Same before after
  sound : ∀ path ∈ changedPaths "" before after, Differs matched "" before after path
  covered : ∀ path, Differs namedMatches "" before after path →
    (changedPaths "" before after).count path = 1

/-! ## When markers are right -/

/-- Values of one field, outside of lists. -/
inductive Facing : Json → Json → Json → Json → Prop
  | here (a b : Json) : Facing a b a b
  | member {a b : Members} {key : String} {x y : Json}
    (inside : Facing (field a key) (field b key) x y) : Facing (.obj a) (.obj b) x y

/-- Rows that are the same are written the same, or share their path with one that differs; and no
row that differs is named like the place of another one that is written anew. -/
structure Clear (before after : List Json) : Prop where
  rebuilt : ∀ m ∈ matched before after, m.Same → m.was ≠ m.now →
    ∃ d ∈ matched before after, ¬ d.Same ∧ d.label = m.label
  apart : ∀ m ∈ namedMatches before after, ¬ m.Same → ∀ u ∈ anonMatches before after,
    u.was ≠ u.now → u.label ≠ m.label

/-- Properties that every object has are no fields of a config. -/
def inherited : List String :=
  ["constructor", "hasOwnProperty", "isPrototypeOf", "propertyIsEnumerable", "toLocaleString",
    "toString", "valueOf", "__proto__", "__defineGetter__", "__defineSetter__", "__lookupGetter__",
    "__lookupSetter__"]

/-- The name of a field. -/
structure IsKey (key : String) : Prop where
  ne_empty : key ≠ ""
  no_dot : '.' ∉ key.toList
  own : key ∉ inherited

/-- The fields of the objects outside of lists have names, each its own. -/
inductive Shaped : Json → Prop
  | obj {o : Members} (nodup : (o.map Prod.fst).Nodup) (keys : ∀ m ∈ o, IsKey m.1)
    (inside : ∀ m ∈ o, Shaped m.2) : Shaped (.obj o)
  | other {j : Json} (h : ∀ o, j ≠ .obj o) : Shaped j

/-! ## Matching rows -/

section Matching

variable {a b : List Json} {m : Match} {name : String} {n : ℕ}

theorem nodup_named (rows : List Json) : ((named rows).map Prod.fst).Nodup := by
  have hkeys : ∀ (names : List (Option String)) (rows : List Json), names.length = rows.length →
      ((names.zip rows).filterMap fun p => p.1.map fun key => (key, p.2)).map Prod.fst =
        names.filterMap id := by
    intro names rows h
    induction names generalizing rows with
    | nil => rfl
    | cons key names ih =>
      obtain ⟨row, rows, rfl⟩ := List.exists_cons_of_length_eq_add_one h.symm
      have htail := ih rows (Nat.succ.inj h)
      rcases key with _ | key
      · simpa using htail
      · simpa using htail
  have hunique : ((rows.map rowKey).filter fun key => (rows.map rowKey).count key = 1).Nodup := by
    rw [List.nodup_iff_count_le_one]
    intro key
    by_cases hmem : key ∈ (rows.map rowKey).filter fun key => (rows.map rowKey).count key = 1
    · have hone := of_decide_eq_true (List.mem_filter.1 hmem).2
      exact hone ▸ List.filter_sublist.count_le key
    · rw [List.count_eq_zero_of_not_mem hmem]
      exact Nat.zero_le 1
  rw [named, hkeys _ _ (by rw [namesOf, List.length_map, List.length_map]), namesOf]
  have hfilter : ((rows.map rowKey).map fun key =>
      if (rows.map rowKey).count key = 1 then key else none).filterMap id =
      ((rows.map rowKey).filter fun key => (rows.map rowKey).count key = 1).filterMap id := by
    rw [List.filterMap_map, List.filterMap_filter]
    refine List.filterMap_congr fun key _ => ?_
    simp
  rw [hfilter]
  refine hunique.filterMap fun key key' x hx hx' => ?_
  exact hx.trans hx'.symm

/-- The row of a name is found. -/
theorem mem_named_iff {rows : List Json} {row : Json} :
    (name, row) ∈ named rows ↔ (named rows).lookup name = some row :=
  ⟨lookup_eq_some (nodup_named rows), mem_of_lookup⟩

theorem mem_namedMatches : m ∈ namedMatches a b ↔ m.was = (named a).lookup m.label ∧
    m.now = (named b).lookup m.label ∧ (m.was ≠ none ∨ m.now ≠ none) := by
  obtain ⟨label, was, now⟩ := m
  rw [namedMatches, List.mem_append, List.mem_map, List.mem_map]
  constructor
  · rintro (⟨⟨key, row⟩, hrow, he⟩ | ⟨⟨key, row⟩, hrow, he⟩)
    · obtain ⟨rfl, rfl, rfl⟩ := Match.mk.inj he
      exact ⟨rfl, (mem_named_iff.1 hrow).symm, .inr (Option.some_ne_none row)⟩
    · obtain ⟨rfl, rfl, rfl⟩ := Match.mk.inj he
      obtain ⟨hwas, hnow⟩ := List.mem_filter.1 hrow
      exact ⟨(mem_named_iff.1 hwas).symm, (Option.isNone_iff_eq_none.1 hnow).symm,
        .inl (Option.some_ne_none row)⟩
  · rintro ⟨hwas, hnow, hsome⟩
    dsimp only at hwas hnow hsome
    rcases now with _ | row
    · obtain ⟨row, hrow⟩ := Option.ne_none_iff_exists'.1 (hsome.resolve_right fun h => h rfl)
      subst hrow
      refine .inr ⟨(label, row), List.mem_filter.2 ⟨mem_named_iff.2 hwas.symm, ?_⟩, rfl⟩
      exact Option.isNone_iff_eq_none.2 hnow.symm
    · exact .inl ⟨(label, row), mem_named_iff.2 hnow.symm, by rw [hwas]⟩

theorem nodup_namedMatches (a b : List Json) : ((namedMatches a b).map Match.label).Nodup := by
  have hlabels : (namedMatches a b).map Match.label = (named b).map Prod.fst ++
      ((named a).filter fun p => ((named b).lookup p.1).isNone).map Prod.fst := by
    rw [namedMatches, List.map_append, List.map_map, List.map_map]
    rfl
  rw [hlabels, List.nodup_append]
  refine ⟨nodup_named b, (nodup_named a).sublist (List.filter_sublist.map _), ?_⟩
  rintro key hkey _ hkey' rfl
  obtain ⟨⟨_, row⟩, hrow, rfl⟩ := List.mem_map.1 hkey
  obtain ⟨⟨_, row'⟩, hrow', he⟩ := List.mem_map.1 hkey'
  have hnone := (List.mem_filter.1 hrow').2
  dsimp only at he hnone
  rw [he, mem_named_iff.1 hrow] at hnone
  exact Bool.false_ne_true hnone

/-- A row that is written the same is the same. -/
theorem same_of_written (h : m.was = m.now) (hsome : m.was ≠ none ∨ m.now ≠ none) : m.Same := by
  obtain ⟨x, hx⟩ : ∃ x, m.was = some x := by
    rcases hsome with hne | hne
    · exact Option.ne_none_iff_exists'.1 hne
    · rw [← h] at hne
      exact Option.ne_none_iff_exists'.1 hne
  exact ⟨hx, h.symm.trans hx, .refl x⟩

theorem mem_anonMatches : m ∈ anonMatches a b ↔
    ∃ n < max (anon a).length (anon b).length, m = ⟨toString (placeOf (anon a) (anon b) n),
      ((anon a)[n]?).map Prod.fst, ((anon b)[n]?).map Prod.fst⟩ := by
  rw [anonMatches, List.mem_map]
  constructor
  · rintro ⟨n, hn, rfl⟩
    exact ⟨n, List.mem_range.1 hn, rfl⟩
  · rintro ⟨n, hn, rfl⟩
    exact ⟨n, List.mem_range.2 hn, rfl⟩

/-- A row is there before or after. -/
theorem exists_of_mem_matched (h : m ∈ matched a b) : m.was ≠ none ∨ m.now ≠ none := by
  obtain h | h := List.mem_append.1 h
  · exact (mem_namedMatches.1 h).2.2
  · obtain ⟨n, hn, rfl⟩ := mem_anonMatches.1 h
    rcases lt_max_iff.1 hn with hn | hn
    · left
      simp [List.getElem?_eq_getElem hn]
    · right
      simp [List.getElem?_eq_getElem hn]

/-- Lists are the same if all their rows are. -/
theorem same_arr_iff : Same (.arr a) (.arr b) ↔ ∀ m ∈ matched a b, m.Same := by
  constructor
  · intro h m hm
    have hsome := exists_of_mem_matched hm
    rcases h with _ | _ | ⟨hnames, hrows, hlength, hplaces⟩
    · refine same_of_written ?_ hsome
      obtain hm | hm := List.mem_append.1 hm
      · obtain ⟨hwas, hnow, -⟩ := mem_namedMatches.1 hm
        exact hwas.trans hnow.symm
      · obtain ⟨n, -, rfl⟩ := mem_anonMatches.1 hm
        rfl
    · obtain hm | hm := List.mem_append.1 hm
      · obtain ⟨hwas, hnow, -⟩ := mem_namedMatches.1 hm
        have hboth := hnames m.label
        rw [← hwas, ← hnow] at hboth
        rcases hx : m.was with _ | x <;> rcases hy : m.now with _ | y <;> rw [hx, hy] at hboth
        · exact absurd hsome (by simp [hx, hy])
        · exact absurd hboth (by simp)
        · exact absurd hboth (by simp)
        · exact ⟨hx, hy, hrows m.label x y (hwas ▸ hx) (hnow ▸ hy)⟩
      · obtain ⟨n, hn, rfl⟩ := mem_anonMatches.1 hm
        rw [← hlength, max_self] at hn
        have hn' := hn
        rw [hlength] at hn'
        refine ⟨by rw [List.getElem?_eq_getElem hn]; rfl, by rw [List.getElem?_eq_getElem hn']; rfl,
          ?_⟩
        exact hplaces n _ _ (List.getElem?_eq_getElem hn) (List.getElem?_eq_getElem hn')
  · intro h
    have hnamed (name : String)
        (hsome : (named a).lookup name ≠ none ∨ (named b).lookup name ≠ none) :
        Match.Same ⟨name, (named a).lookup name, (named b).lookup name⟩ :=
      h _ (List.mem_append_left _ (mem_namedMatches.2 ⟨rfl, rfl, hsome⟩))
    have hanon (n : ℕ) (hn : n < max (anon a).length (anon b).length) :
        Match.Same ⟨toString (placeOf (anon a) (anon b) n), ((anon a)[n]?).map Prod.fst,
          ((anon b)[n]?).map Prod.fst⟩ :=
      h _ (List.mem_append_right _ (mem_anonMatches.2 ⟨n, hn, rfl⟩))
    refine .arr (fun name => ?_) (fun name x y hx hy => ?_) ?_ fun n x y hx hy => ?_
    · by_cases hsome : (named a).lookup name ≠ none ∨ (named b).lookup name ≠ none
      · obtain ⟨hx, hy, -⟩ := hnamed name hsome
        dsimp only at hx hy
        rw [hx, hy]
        rfl
      · push Not at hsome
        rw [hsome.1, hsome.2]
    · obtain ⟨hx', hy', hsame⟩ := hnamed name (.inl (by rw [hx]; exact Option.some_ne_none x))
      dsimp only at hx' hy'
      rw [hx] at hx'
      rw [hy] at hy'
      rwa [Option.some.inj hx', Option.some.inj hy']
    · rcases lt_trichotomy (anon a).length (anon b).length with hlt | heq | hgt
      · obtain ⟨hx, -, -⟩ := hanon (anon a).length (lt_max_of_lt_right hlt)
        simp at hx
      · exact heq
      · obtain ⟨-, hy, -⟩ := hanon (anon b).length (lt_max_of_lt_left hgt)
        simp at hy
    · obtain ⟨hn, -⟩ := List.getElem?_eq_some_iff.1 hx
      obtain ⟨hx', hy', hsame⟩ := hanon n (lt_max_of_lt_left hn)
      dsimp only at hx' hy'
      rw [hx] at hx'
      rw [hy] at hy'
      rwa [Option.some.inj hx', Option.some.inj hy']

/-- Of what rows are made of, what makes those that are written anew. -/
theorem labels_of_map {α : Type} (f : α → Match) {g : α → Option String} {l : List α}
    (h : ∀ x ∈ l, g x = if (f x).was ≠ (f x).now then some (f x).label else none) :
    l.filterMap g = ((l.map f).filter fun m => m.was ≠ m.now).map Match.label := by
  induction l with
  | nil => rfl
  | cons x l ih =>
    obtain ⟨hx, hl⟩ := List.forall_mem_cons.1 h
    rw [List.map_cons, List.filter_cons]
    by_cases hw : (f x).was ≠ (f x).now
    · rw [List.filterMap_cons_some (hx.trans (if_pos hw)), ih hl,
        if_pos (by simpa using hw), List.map_cons]
    · rw [List.filterMap_cons_none (hx.trans (if_neg hw)), ih hl,
        if_neg (by simpa using hw)]

/-- The rows that are marked are those that are written anew. -/
theorem rowLabels_eq (a b : List Json) :
    rowLabels a b = ((matched a b).filter fun m => m.was ≠ m.now).map Match.label := by
  rw [rowLabels, matched, namedMatches, anonMatches, List.filter_append, List.filter_append,
    List.map_append, List.map_append, changedNames, changedPlaces]
  congr 2
  · refine labels_of_map _ fun p _ => ?_
    dsimp only
    rcases (named a).lookup p.1 with _ | had
    · rfl
    · simp only [ne_eq, Option.some.injEq]
  · rw [removedNames, List.filter_map, ← List.filterMap_eq_map]
    exact labels_of_map _ fun p _ => (if_pos (Option.some_ne_none p.2)).symm
  · refine labels_of_map _ fun n hn => ?_
    dsimp only
    rw [List.mem_range] at hn
    rcases hx : (anon a)[n]? with _ | x <;> rcases hy : (anon b)[n]? with _ | y
    · rw [List.getElem?_eq_none_iff] at hx hy
      omega
    · rfl
    · rfl
    · simp only [Option.map_some, ne_eq, Option.some.injEq, ite_not]

end Matching

/-! ## Paths of fields -/

section Fields

variable {pre key path : String} {a b : Members} {x y : Json}
  {rows : List Json → List Json → List Match}

theorem field_eq (hn : (a.map Prod.fst).Nodup) {j : Json} (h : (key, j) ∈ a) : field a key = j := by
  rw [field, lookup_eq_some hn h, Option.getD_some]

theorem field_of_lookup_none (h : a.lookup key = none) : field a key = .null := by
  rw [field, h, Option.getD_none]

theorem shaped_field (h : ∀ m ∈ a, Shaped m.2) (key : String) : Shaped (field a key) := by
  rcases hl : a.lookup key with _ | j
  · rw [field_of_lookup_none hl]
    exact .other fun o he => by cases he
  · rw [field, hl, Option.getD_some]
    exact h _ (mem_of_lookup hl)

theorem under_ne_empty_of_pre (hpre : pre ≠ "") : under pre key ≠ "" := by
  rw [under, if_neg hpre]
  intro he
  have hlen := congrArg String.length he
  simp at hlen

theorem under_ne_empty (h : key ≠ "") : under pre key ≠ "" := by
  by_cases hpre : pre = ""
  · rwa [under, if_pos hpre]
  · exact under_ne_empty_of_pre hpre

/-- Nothing differs from nothing. -/
theorem changedPaths_null (y : Json) : changedPaths pre .null y = leafPaths pre .null y := by
  rcases y with _ | _ | _ | _ | _ | _ | _ <;> rfl

theorem not_differs_null : ¬ Differs rows pre .null .null path := by
  intro h
  rcases h with ⟨-, hne⟩
  exact hne rfl

/-- The names of the fields, of either value. -/
def keys (a b : Members) : List String :=
  a.map Prod.fst ++ (b.filter fun m => (a.lookup m.1).isNone).map Prod.fst

theorem memberPaths_eq (a : Members) :
    memberPaths pre b a = a.flatMap fun m => changedPaths (under pre m.1) m.2 (field b m.1) := by
  induction a with
  | nil => rfl
  | cons m a ih =>
    obtain ⟨key, j⟩ := m
    rw [memberPaths, ih, List.flatMap_cons]

/-- The paths of an object are those of its fields. -/
theorem changedPaths_obj (ha : (a.map Prod.fst).Nodup) (hb : (b.map Prod.fst).Nodup) :
    changedPaths pre (.obj a) (.obj b) =
      (keys a b).flatMap fun key => changedPaths (under pre key) (field a key) (field b key) := by
  rw [changedPaths, memberPaths_eq, keys, List.flatMap_append, List.flatMap_map, List.flatMap_map]
  congr 1
  · refine List.flatMap_congr fun m hm => ?_
    rw [field_eq ha (j := m.2) hm]
  · refine List.flatMap_congr fun m hm => ?_
    obtain ⟨hm, hnone⟩ := List.mem_filter.1 hm
    rw [field_eq hb (j := m.2) hm, field_of_lookup_none (Option.isNone_iff_eq_none.1 hnone),
      changedPaths_null]

theorem nodup_keys (ha : (a.map Prod.fst).Nodup) (hb : (b.map Prod.fst).Nodup) :
    (keys a b).Nodup := by
  rw [keys, List.nodup_append]
  refine ⟨ha, hb.sublist (List.filter_sublist.map _), ?_⟩
  rintro key hkey _ hkey' rfl
  obtain ⟨⟨_, j⟩, hj, rfl⟩ := List.mem_map.1 hkey
  obtain ⟨⟨_, j'⟩, hj', he⟩ := List.mem_map.1 hkey'
  have hnone := (List.mem_filter.1 hj').2
  dsimp only at he hnone
  rw [he, lookup_eq_some ha hj] at hnone
  exact Bool.false_ne_true hnone

/-- What is no field of either value is nothing in both. -/
theorem field_of_not_mem_keys (h : key ∉ keys a b) : field a key = .null ∧ field b key = .null := by
  rw [keys, List.mem_append, not_or, List.mem_map, List.mem_map] at h
  have hnone : a.lookup key = none := by
    rcases ha : a.lookup key with _ | j
    · rfl
    · exact absurd ⟨(key, j), mem_of_lookup ha, rfl⟩ h.1
  refine ⟨field_of_lookup_none hnone, field_of_lookup_none ?_⟩
  rcases hb : b.lookup key with _ | j
  · rfl
  · refine absurd ⟨(key, j), List.mem_filter.2 ⟨mem_of_lookup hb, ?_⟩, rfl⟩ h.2
    exact Option.isNone_iff_eq_none.2 hnone

theorem isKey_of_mem_keys (ha : ∀ m ∈ a, IsKey m.1) (hb : ∀ m ∈ b, IsKey m.1)
    (h : key ∈ keys a b) : IsKey key := by
  obtain h | h := List.mem_append.1 h
  · obtain ⟨m, hm, rfl⟩ := List.mem_map.1 h
    exact ha m hm
  · obtain ⟨m, hm, rfl⟩ := List.mem_map.1 h
    exact hb m (List.mem_of_mem_filter hm)

/-! ### Where paths are -/

/-- A path is at another one, or inside of it. -/
def Inside (pre path : String) : Prop := path = pre ∨ ∃ r, path = pre ++ "." ++ r

/-- The name of the field that a path is inside of can be read of it. -/
theorem takeWhile_of_inside (hk : '.' ∉ key.toList) (h : Inside (under pre key) path) :
    ((path.toList.drop (under pre "").length).takeWhile fun c => c ≠ '.') = key.toList := by
  have hunder : (under pre key).toList = (under pre "").toList ++ key.toList := by
    rw [under, under]
    split_ifs <;> simp
  have hpath : ∃ t, path.toList = (under pre "").toList ++ (key.toList ++ t) ∧
      t.takeWhile (fun c => c ≠ '.') = [] := by
    obtain rfl | ⟨r, rfl⟩ := h
    · exact ⟨[], by rw [hunder, List.append_nil], rfl⟩
    · refine ⟨'.' :: r.toList, ?_, by simp⟩
      rw [String.toList_append, String.toList_append, hunder, List.append_assoc, List.append_assoc]
      rfl
  obtain ⟨t, hpath, ht⟩ := hpath
  have hall : ∀ c ∈ key.toList, decide (c ≠ '.') = true := fun c hc =>
    decide_eq_true fun he => hk (he ▸ hc)
  rw [hpath, ← String.length_toList, List.drop_left, List.takeWhile_append_of_pos hall, ht,
    List.append_nil]

/-- Fields of different names have no path in common. -/
theorem eq_of_inside {key' : String} (hk : '.' ∉ key.toList) (hk' : '.' ∉ key'.toList)
    (h : Inside (under pre key) path) (h' : Inside (under pre key') path) : key = key' := by
  rw [← String.toList_inj, ← takeWhile_of_inside hk h, takeWhile_of_inside hk' h']

theorem inside_of_under (hpre : pre ≠ "") (h : Inside (under pre key) path) : Inside pre path := by
  rw [under, if_neg hpre] at h
  obtain rfl | ⟨r, rfl⟩ := h
  · exact .inr ⟨key, rfl⟩
  · exact .inr ⟨key ++ "." ++ r, by simp only [String.append_assoc]⟩

theorem inside_of_differs (h : Differs rows pre x y path) (hpre : pre ≠ "") : Inside pre path := by
  induction h with
  | leaf kind ne => exact .inl rfl
  | member inside ih => exact inside_of_under hpre (ih (under_ne_empty_of_pre hpre))
  | row mem differ => exact .inr ⟨_, rfl⟩

end Fields

/-! ## Two values together -/

section Together

variable {pre path : String} {x y : Json}

/-- Two values are gone into together where both are objects, or both lists; at the end they are of
different kinds, or there is nothing in them. -/
theorem shaped_induction {Q : Json → Json → Prop}
    (obj : ∀ a b : Members, (a.map Prod.fst).Nodup → (b.map Prod.fst).Nodup →
      (∀ m ∈ a, IsKey m.1) → (∀ m ∈ b, IsKey m.1) →
      (∀ key, Q (field a key) (field b key)) → Q (.obj a) (.obj b))
    (arr : ∀ a b, Q (.arr a) (.arr b)) (leaf : ∀ x y, ¬ SameKind x y → Q x y)
    (hx : Shaped x) (hy : Shaped y) : Q x y := by
  induction hx generalizing y with
  | @obj a hna hka ha ih =>
    by_cases hobj : ∃ b, y = .obj b
    · obtain ⟨b, rfl⟩ := hobj
      obtain ⟨hnb, hkb, hb⟩ | hno := hy
      · refine obj a b hna hnb hka hkb fun key => ?_
        have hfield := shaped_field hb key
        rcases hl : a.lookup key with _ | j
        · rw [field_of_lookup_none hl]
          exact leaf _ _ id
        · rw [field_eq hna (mem_of_lookup hl)]
          exact ih _ (mem_of_lookup hl) hfield
      · exact absurd rfl (hno b)
    · refine leaf _ _ fun hkind => ?_
      rcases y with _ | _ | _ | _ | _ | _ | b
      all_goals first | exact hkind | exact hobj ⟨b, rfl⟩
  | @other x hno =>
    by_cases hkind : SameKind x y
    · rcases x with _ | _ | _ | _ | _ | a | a <;> rcases y with _ | _ | _ | _ | _ | b | b
      all_goals first | exact hkind.elim | exact arr _ _ | exact absurd rfl (hno _)
    · exact leaf x y hkind

theorem changedPaths_leaf (h : ¬ SameKind x y) : changedPaths pre x y = leafPaths pre x y := by
  rcases x with _ | _ | _ | _ | _ | a | a <;> rcases y with _ | _ | _ | _ | _ | b | b
  all_goals first | rfl | exact absurd trivial h

theorem mem_leafPaths : path ∈ leafPaths pre x y ↔ x ≠ y ∧ pre ≠ "" ∧ path = pre := by
  rw [leafPaths]
  split_ifs with h
  · refine ⟨fun hm => absurd hm List.not_mem_nil, fun hm => ?_⟩
    exact absurd h (not_or.2 ⟨hm.1, hm.2.1⟩)
  · rw [List.mem_singleton]
    exact ⟨fun hm => ⟨fun he => h (.inl he), fun he => h (.inr he), hm⟩, fun hm => hm.2.2⟩

theorem mem_changedPaths_arr {a b : List Json} : path ∈ changedPaths pre (.arr a) (.arr b) ↔
    ∃ m ∈ matched a b, m.was ≠ m.now ∧ path = pre ++ "." ++ m.label := by
  rw [changedPaths, rowLabels_eq, List.map_map, List.mem_map]
  constructor
  · rintro ⟨m, hm, rfl⟩
    obtain ⟨hm, hw⟩ := List.mem_filter.1 hm
    exact ⟨m, hm, of_decide_eq_true hw, rfl⟩
  · rintro ⟨m, hm, hw, rfl⟩
    exact ⟨m, List.mem_filter.2 ⟨hm, decide_eq_true hw⟩, rfl⟩

variable (hx : Shaped x) (hy : Shaped y)
include hx hy

/-- A path that is marked is inside of where one looks. -/
theorem inside_of_mem : ∀ pre ≠ "", ∀ path ∈ changedPaths pre x y, Inside pre path := by
  refine shaped_induction (Q := fun x y => ∀ pre ≠ "", ∀ path ∈ changedPaths pre x y,
    Inside pre path) (fun a b hna hnb _ _ ih pre hpre path h => ?_) (fun a b pre _ path h => ?_)
    (fun x y hkind pre _ path h => ?_) hx hy
  · rw [changedPaths_obj hna hnb] at h
    obtain ⟨key, -, h⟩ := List.mem_flatMap.1 h
    exact inside_of_under hpre (ih key _ (under_ne_empty_of_pre hpre) path h)
  · obtain ⟨m, -, -, rfl⟩ := mem_changedPaths_arr.1 h
    exact .inr ⟨_, rfl⟩
  · rw [changedPaths_leaf hkind] at h
    exact .inl (mem_leafPaths.1 h).2.2

/-- What differs is marked. At the root there are only fields. -/
theorem mem_of_differs : ∀ pre, (pre = "" → ∃ a b, x = .obj a ∧ y = .obj b) → ∀ path,
    Differs matched pre x y path → path ∈ changedPaths pre x y := by
  refine shaped_induction (Q := fun x y => ∀ pre, (pre = "" → ∃ a b, x = .obj a ∧ y = .obj b) →
    ∀ path, Differs matched pre x y path → path ∈ changedPaths pre x y)
    (fun a b hna hnb hka hkb ih pre _ path h => ?_) (fun a b pre _ path h => ?_)
    (fun x y hkind pre hroot path h => ?_) hx hy
  · rw [changedPaths_obj hna hnb, List.mem_flatMap]
    rcases h with ⟨hkind, -⟩ | ⟨h⟩ | _
    · exact absurd trivial hkind
    · rename_i key
      have hkey : key ∈ keys a b := by
        by_contra hno
        rw [(field_of_not_mem_keys hno).1, (field_of_not_mem_keys hno).2] at h
        exact not_differs_null h
      refine ⟨key, hkey, ih key _ (fun he => ?_) path h⟩
      exact absurd he (under_ne_empty (isKey_of_mem_keys hka hkb hkey).ne_empty)
  · rcases h with ⟨hkind, -⟩ | _ | ⟨hm, hdiffer⟩
    · exact absurd trivial hkind
    · refine mem_changedPaths_arr.2 ⟨_, hm, fun hw => hdiffer ?_, rfl⟩
      exact same_of_written hw (exists_of_mem_matched hm)
  · rw [changedPaths_leaf hkind, mem_leafPaths]
    rcases h with ⟨-, hne⟩ | _ | _
    · refine ⟨hne, fun he => ?_, rfl⟩
      obtain ⟨a, b, rfl, rfl⟩ := hroot he
      exact hkind trivial
    · exact absurd trivial hkind
    · exact absurd trivial hkind

/-- Two values are the same exactly if nothing differs between them. -/
theorem same_iff : ∀ pre, Same x y ↔ ∀ path, ¬ Differs matched pre x y path := by
  refine shaped_induction (Q := fun x y => ∀ pre, Same x y ↔ ∀ path,
    ¬ Differs matched pre x y path) (fun a b hna hnb hka hkb ih pre => ?_) (fun a b pre => ?_)
    (fun x y hkind pre => ?_) hx hy
  · constructor
    · intro hsame path h
      have hfields : ∀ key, Same (field a key) (field b key) := by
        rcases hsame with _ | hfields | _
        · exact fun key => .refl _
        · exact hfields
      rcases h with ⟨hkind, -⟩ | ⟨h⟩ | _
      · exact hkind trivial
      · exact (ih _ _).1 (hfields _) path h
    · exact fun h => .obj fun key => (ih key (under pre key)).2 fun path hd => h path (.member hd)
  · rw [same_arr_iff]
    constructor
    · intro hsame path h
      rcases h with ⟨hkind, -⟩ | _ | ⟨hm, hdiffer⟩
      · exact hkind trivial
      · exact hdiffer (hsame _ hm)
    · intro h m hm
      by_contra hno
      exact h _ (.row hm hno)
  · constructor
    · intro hsame path h
      have heq : x = y := by
        rcases hsame with _ | _ | _
        · rfl
        · exact absurd trivial hkind
        · exact absurd trivial hkind
      rcases h with ⟨-, hne⟩ | _ | _
      · exact hne heq
      · exact hkind trivial
      · exact hkind trivial
    · intro h
      by_contra hno
      exact h pre (.leaf hkind fun he => hno (he ▸ .refl _))

end Together

/-! ## When markers are right -/

/-- What is marked inside of a path is what differs there. -/
structure Good (pre : String) (x y : Json) : Prop where
  sound : ∀ path ∈ changedPaths pre x y, Differs matched pre x y path
  covered : ∀ path, Differs namedMatches pre x y path → (changedPaths pre x y).count path = 1

section Good

variable {pre path key : String} {x y : Json} {a b : Members} {xs ys : List Json} {m : Match}

theorem row_injective (pre : String) : Function.Injective fun label => pre ++ "." ++ label := by
  intro label label' h
  have hlist := congrArg String.toList h
  simp only [String.toList_append] at hlist
  exact String.toList_inj.1 (List.append_cancel_left hlist)

/-- How often a row is marked: once if it is written anew, and once for each place that is called
the same. -/
theorem count_row (hm : m ∈ namedMatches xs ys) (hw : m.was ≠ m.now) :
    (changedPaths pre (.arr xs) (.arr ys)).count (pre ++ "." ++ m.label) = 1 ↔
      ∀ u ∈ anonMatches xs ys, u.was ≠ u.now → u.label ≠ m.label := by
  have hone : (((namedMatches xs ys).filter fun m => m.was ≠ m.now).map Match.label).count m.label =
      1 := by
    refine List.count_eq_one_of_mem
      ((nodup_namedMatches xs ys).sublist (List.filter_sublist.map _)) ?_
    exact List.mem_map_of_mem (List.mem_filter.2 ⟨hm, decide_eq_true hw⟩)
  rw [changedPaths, List.count_map_of_injective _ _ (row_injective pre), rowLabels_eq, matched,
    List.filter_append, List.map_append, List.count_append, hone, Nat.add_eq_left,
    List.count_eq_zero]
  constructor
  · intro hno u hu huw he
    exact hno (List.mem_map.2 ⟨u, List.mem_filter.2 ⟨hu, decide_eq_true huw⟩, he⟩)
  · intro hno hmem
    obtain ⟨u, hu, he⟩ := List.mem_map.1 hmem
    obtain ⟨hu, huw⟩ := List.mem_filter.1 hu
    exact hno u hu (of_decide_eq_true huw) he

theorem written_of_not_same (hm : m ∈ matched xs ys) (h : ¬ m.Same) : m.was ≠ m.now := fun hw =>
  h (same_of_written hw (exists_of_mem_matched hm))

/-- The rows of a list are marked right if the list is clear, and only then. -/
theorem good_arr : Good pre (.arr xs) (.arr ys) ↔ Clear xs ys := by
  constructor
  · intro h
    refine ⟨fun m hm _ hw => ?_, fun m hm hdiffer => ?_⟩
    · have hd := h.sound _ (mem_changedPaths_arr.2 ⟨m, hm, hw, rfl⟩)
      generalize hpath : pre ++ "." ++ m.label = path at hd
      rcases hd with ⟨hkind, -⟩ | _ | ⟨hd, hdiffer⟩
      · exact absurd trivial hkind
      · exact ⟨_, hd, hdiffer, (row_injective pre hpath).symm⟩
    · have hw := written_of_not_same (List.mem_append_left _ hm) hdiffer
      exact (count_row hm hw).1 (h.covered _ (.row hm hdiffer))
  · intro h
    refine ⟨fun path hp => ?_, fun path hd => ?_⟩
    · obtain ⟨m, hm, hw, rfl⟩ := mem_changedPaths_arr.1 hp
      by_cases hsame : m.Same
      · obtain ⟨d, hd, hdiffer, hlabel⟩ := h.rebuilt m hm hsame hw
        rw [← hlabel]
        exact .row hd hdiffer
      · exact .row hm hsame
    · rcases hd with ⟨hkind, -⟩ | _ | ⟨hm, hdiffer⟩
      · exact absurd trivial hkind
      · have hw := written_of_not_same (List.mem_append_left _ hm) hdiffer
        exact (count_row hm hw).2 (h.apart _ hm hdiffer)

theorem count_flatMap {l : List String} {f : String → List String} (hl : l.Nodup) (hkey : key ∈ l)
    (h : ∀ k ∈ l, path ∈ f k → k = key) : (l.flatMap f).count path = (f key).count path := by
  induction l with
  | nil => exact absurd hkey List.not_mem_nil
  | cons k l ih =>
    obtain ⟨hk, hl⟩ := List.nodup_cons.1 hl
    rw [List.flatMap_cons, List.count_append]
    obtain rfl | hkey := List.mem_cons.1 hkey
    · rw [List.count_eq_zero_of_not_mem (a := path) (l := l.flatMap f), Nat.add_zero]
      intro hmem
      obtain ⟨k', hk', hp⟩ := List.mem_flatMap.1 hmem
      exact hk (h k' (List.mem_cons_of_mem _ hk') hp ▸ hk')
    · rw [List.count_eq_zero_of_not_mem (l := f k), Nat.zero_add,
        ih hl hkey fun k' hk' => h k' (List.mem_cons_of_mem _ hk')]
      intro hp
      exact hk (h k List.mem_cons_self hp ▸ hkey)

theorem good_null : Good pre .null .null := by
  refine ⟨fun path hp => ?_, fun path hd => absurd hd not_differs_null⟩
  rw [changedPaths_null] at hp
  exact absurd rfl (mem_leafPaths.1 hp).1

/-- The fields of two objects are marked right if each is. -/
theorem good_obj (ha : Shaped (.obj a)) (hb : Shaped (.obj b)) :
    Good pre (.obj a) (.obj b) ↔ ∀ key, Good (under pre key) (field a key) (field b key) := by
  obtain ⟨hna, hka, ha⟩ | hno := ha
  swap
  · exact absurd rfl (hno a)
  obtain ⟨hnb, hkb, hb⟩ | hno := hb
  swap
  · exact absurd rfl (hno b)
  have hkeys {key : String} (hkey : key ∈ keys a b) : IsKey key := isKey_of_mem_keys hka hkb hkey
  have hinside {key : String} (hkey : key ∈ keys a b) {path : String}
      (hp : path ∈ changedPaths (under pre key) (field a key) (field b key)) :
      Inside (under pre key) path :=
    inside_of_mem (shaped_field ha key) (shaped_field hb key) _
      (under_ne_empty (hkeys hkey).ne_empty) path hp
  -- what differs is in a field of one of the two
  have hdiffers {key : String} {path : String} {rows : List Json → List Json → List Match}
      (hd : Differs rows (under pre key) (field a key) (field b key) path) :
      key ∈ keys a b ∧ Inside (under pre key) path := by
    have hkey : key ∈ keys a b := by
      by_contra hno
      rw [(field_of_not_mem_keys hno).1, (field_of_not_mem_keys hno).2] at hd
      exact not_differs_null hd
    exact ⟨hkey, inside_of_differs hd (under_ne_empty (hkeys hkey).ne_empty)⟩
  have hcount {key : String} (hkey : key ∈ keys a b) {path : String}
      (hp : Inside (under pre key) path) : (changedPaths pre (.obj a) (.obj b)).count path =
        (changedPaths (under pre key) (field a key) (field b key)).count path := by
    rw [changedPaths_obj hna hnb]
    exact count_flatMap (nodup_keys hna hnb) hkey fun k hk hpk =>
      eq_of_inside (hkeys hk).no_dot (hkeys hkey).no_dot (hinside hk hpk) hp
  constructor
  · intro h key
    by_cases hkey : key ∈ keys a b
    swap
    · rw [(field_of_not_mem_keys hkey).1, (field_of_not_mem_keys hkey).2]
      exact good_null
    refine ⟨fun path hp => ?_, fun path hd => ?_⟩
    · have hmem : path ∈ changedPaths pre (.obj a) (.obj b) := by
        rw [changedPaths_obj hna hnb]
        exact List.mem_flatMap.2 ⟨key, hkey, hp⟩
      rcases h.sound path hmem with ⟨hkind, -⟩ | ⟨hd⟩ | _
      · exact absurd trivial hkind
      · obtain ⟨hkey', hin⟩ := hdiffers hd
        rwa [eq_of_inside (hkeys hkey).no_dot (hkeys hkey').no_dot (hinside hkey hp) hin]
    · rw [← hcount hkey (hdiffers hd).2]
      exact h.covered path (.member hd)
  · intro h
    refine ⟨fun path hp => ?_, fun path hd => ?_⟩
    · rw [changedPaths_obj hna hnb] at hp
      obtain ⟨key, -, hp⟩ := List.mem_flatMap.1 hp
      exact .member ((h key).sound path hp)
    · rcases hd with ⟨hkind, -⟩ | ⟨hd⟩ | _
      · exact absurd trivial hkind
      · rw [hcount (hdiffers hd).1 (hdiffers hd).2]
        exact (h _).covered path hd

theorem good_leaf (hkind : ¬ SameKind x y) (hpre : pre ≠ "") : Good pre x y := by
  refine ⟨fun path hp => ?_, fun path hd => ?_⟩
  · rw [changedPaths_leaf hkind] at hp
    obtain ⟨hne, -, rfl⟩ := mem_leafPaths.1 hp
    exact .leaf hkind hne
  · rcases hd with ⟨-, hne⟩ | _ | _
    · rw [changedPaths_leaf hkind, leafPaths, if_neg (not_or.2 ⟨hne, hpre⟩),
        List.count_singleton_self]
    · exact absurd trivial hkind
    · exact absurd trivial hkind

theorem Shaped.members (h : Shaped (.obj a)) : ∀ m ∈ a, Shaped m.2 := by
  obtain ⟨-, -, h⟩ | hno := h
  · exact h
  · exact absurd rfl (hno a)

theorem Shaped.keys (h : Shaped (.obj a)) : ∀ m ∈ a, IsKey m.1 := by
  obtain ⟨-, h, -⟩ | hno := h
  · exact h
  · exact absurd rfl (hno a)

/-- The lists of two objects are those of their fields. -/
theorem facing_obj : (∀ xs ys, Facing (.obj a) (.obj b) (.arr xs) (.arr ys) → Clear xs ys) ↔
    ∀ key, ∀ xs ys, Facing (field a key) (field b key) (.arr xs) (.arr ys) → Clear xs ys := by
  refine ⟨fun h key xs ys hf => h xs ys (.member hf), fun h xs ys hf => ?_⟩
  rcases hf with _ | ⟨hf⟩
  exact h _ xs ys hf

theorem not_facing_leaf (hkind : ¬ SameKind x y) : ¬ Facing x y (.arr xs) (.arr ys) := by
  intro hf
  rcases hf with _ | _
  · exact hkind trivial
  · exact hkind trivial

/-- What is marked inside of a path is right exactly if all lists there are clear. -/
theorem good_iff (hx : Shaped x) (hy : Shaped y) : ∀ pre ≠ "", Good pre x y ↔
    ∀ xs ys, Facing x y (.arr xs) (.arr ys) → Clear xs ys := by
  refine shaped_induction (Q := fun x y => Shaped x → Shaped y → ∀ pre ≠ "", Good pre x y ↔
    ∀ xs ys, Facing x y (.arr xs) (.arr ys) → Clear xs ys) (fun a b _ _ _ _ ih ha hb pre hpre => ?_)
    (fun xs ys _ _ pre _ => ?_) (fun x y hkind _ _ pre hpre => ?_) hx hy hx hy
  · rw [good_obj ha hb, facing_obj]
    exact forall_congr' fun key => ih key (shaped_field ha.members key)
      (shaped_field hb.members key) _ (under_ne_empty_of_pre hpre)
  · rw [good_arr]
    refine ⟨fun h xs' ys' hf => ?_, fun h => h xs ys (.here _ _)⟩
    rcases hf with _ | _
    exact h
  · exact ⟨fun _ xs ys hf => absurd hf (not_facing_leaf hkind), fun _ => good_leaf hkind hpre⟩

end Good

/-- A config has fields, and they have names. -/
structure Config where
  fields : Members
  shaped : Shaped (.obj fields)

section Configs

variable (before after : Config)

/-- A config is marked right exactly if all its lists are clear. -/
theorem good_config : Good "" (.obj before.fields) (.obj after.fields) ↔
    ∀ xs ys, Facing (.obj before.fields) (.obj after.fields) (.arr xs) (.arr ys) → Clear xs ys := by
  rw [good_obj before.shaped after.shaped, facing_obj]
  refine forall_congr' fun key => ?_
  by_cases hkey : key = ""
  · -- no field is without a name
    have hno : key ∉ keys before.fields after.fields := fun hmem =>
      (isKey_of_mem_keys before.shaped.keys after.shaped.keys hmem).ne_empty hkey
    rw [(field_of_not_mem_keys hno).1, (field_of_not_mem_keys hno).2]
    exact ⟨fun _ xs ys hf => absurd hf (not_facing_leaf id), fun _ => good_null⟩
  · exact good_iff (shaped_field before.shaped.members key)
      (shaped_field after.shaped.members key) _ (under_ne_empty hkey)

/-- A marker is on what changed and only there exactly if all the lists of the two configs are
clear. -/
theorem marked_iff : Marked (.obj before.fields) (.obj after.fields) ↔
    ∀ xs ys, Facing (.obj before.fields) (.obj after.fields) (.arr xs) (.arr ys) → Clear xs ys := by
  rw [← good_config]
  have hsame := same_iff before.shaped after.shaped ""
  refine ⟨fun h => ⟨h.sound, h.covered⟩, fun h => ⟨?_, h.sound, h.covered⟩⟩
  rw [hsame]
  constructor
  · intro hnil path hd
    have hmem := mem_of_differs before.shaped after.shaped "" (fun _ => ⟨_, _, rfl, rfl⟩) path hd
    rw [hnil] at hmem
    exact List.not_mem_nil hmem
  · intro hno
    rw [List.eq_nil_iff_forall_not_mem]
    exact fun path hp => hno path (h.sound path hp)

end Configs

/-- A mod as it is loaded. -/
def loaded : Members := [("filename", .str "sodium.jar"), ("default_enabled", .bool true)]

theorem same_reverse_loaded : Same (.obj loaded) (.obj loaded.reverse) := by
  refine .obj fun key => ?_
  have hfield : field loaded key = field loaded.reverse key := by
    have hreverse : loaded.reverse =
        [("default_enabled", .bool true), ("filename", .str "sodium.jar")] := rfl
    rw [hreverse, field, field, loaded, lookup_cons', lookup_cons', lookup_cons', lookup_cons']
    by_cases hname : key = "filename"
    · subst hname
      rw [if_pos rfl, if_neg (by decide), if_pos rfl]
    · rw [if_neg hname, if_neg hname]
  rw [hfield]
  exact .refl _

/-- A mod whose fields the shared document gives in another order is marked. -/
theorem not_marked_rebuilt :
    ¬ Marked (.obj [("mods", .arr [.obj loaded])])
      (.obj [("mods", .arr [.obj loaded.reverse])]) := by
  intro h
  have hmarked : changedPaths "" (.obj [("mods", .arr [.obj loaded])])
      (.obj [("mods", .arr [.obj loaded.reverse])]) = ["mods.sodium.jar"] := by decide +kernel
  have hmatched : matched [.obj loaded] [.obj loaded.reverse] =
      [⟨"sodium.jar", some (.obj loaded), some (.obj loaded.reverse)⟩] := rfl
  have hlists : Same (.arr [.obj loaded]) (.arr [.obj loaded.reverse]) := by
    rw [same_arr_iff, hmatched, List.forall_mem_singleton]
    exact ⟨rfl, rfl, same_reverse_loaded⟩
  have hsame : Same (.obj [("mods", .arr [.obj loaded])])
      (.obj [("mods", .arr [.obj loaded.reverse])]) := by
    refine .obj fun key => ?_
    rw [field, field, lookup_cons', lookup_cons']
    split_ifs
    · exact hlists
    · exact .refl _
  rw [h.empty_iff.2 hsame] at hmarked
  exact absurd hmarked.symm (List.cons_ne_nil _ _)

end Touched

end Smrt
