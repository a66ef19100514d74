import Mathlib.Data.Prod.Lex
import Smrt.Authoring.Gate
import Smrt.Authoring.Pulls

/-!
# Searching for a mod to add

One search over the mods that the registry knows and the projects that Modrinth finds
(`searchMods`). A project that is listed of a mod of the registry fills in the row of that mod,
found by its place; any other one is a row of its own. How a row goes with the loader of the pack
(`fitFor`) ranks it.

The result is a merge (`searchMods_merges`): every mod of the registry has one row with all that
Modrinth knows of its project, every other project has its own, the rows are in their order, and a
shorter search is the start of a longer one (`Merges`).
-/

namespace Smrt

namespace Search

open Registry Resolve

/-! ## Hits -/

/-- How a mod goes with the loader of a pack. -/
inductive LoaderFit
  | native
  | bridged
  | bridgeable
  | foreign
  | unknown
  deriving DecidableEq

/-- A mod to add, as the registry or Modrinth knows it. -/
structure ModHit where
  name : String
  slug : Option String
  author : Option String
  description : Option String
  modrinthProjectId : Option String
  modId : Option ℕ
  iconUrl : Option String
  iconSha1 : Option String
  /-- The mirror has a file of it. -/
  mirrored : Bool
  fit : LoaderFit
  /-- The loader that a bridge carries. -/
  bridgedFrom : Option String
  loaders : List String
  mcVersions : List String
  deriving DecidableEq

/-- The pack that the search is for. -/
structure PackContext where
  mc : Option String
  loader : Option String
  presentProjects : List String

/-- A project, as Modrinth finds it. -/
structure SearchHit where
  projectId : String
  slug : String
  title : String
  description : String
  iconUrl : Option String
  author : String
  categories : List String
  versions : List String

/-- What a search goes by: the registry, who wrote its mods, the files of the mirror, and small
letters for any text. -/
structure Finder where
  shelf : Registry.Shelf
  integrity : shelf.Integrity
  author : ℕ → Option String
  cached : List String
  lowercase : String → String

/-! ## Fits -/

def tier : LoaderFit → ℕ
  | .native => 0
  | .bridged => 1
  | .unknown => 2
  | .bridgeable => 3
  | .foreign => 4

def knownLoaders : List String := ["forge", "neoforge", "fabric", "quilt", "cleanroom", "rift"]

/-- A text that is not empty. -/
def nonEmpty (s : String) : Option String := if s = "" then none else some s

namespace Finder

variable (W : Finder) (pack : PackContext)

def fitFor (loaders : List String) (chain : Finset String)
    (carriedByPack carriedByAny : List String) : LoaderFit × Option String :=
  if chain = ∅ ∨ loaders = [] then (.unknown, none)
  else if loaders.any fun l => l = "any" ∨ W.lowercase l ∈ chain then (.native, none)
  else
    match (loaders.map W.lowercase).find? fun l => l ∈ carriedByPack with
    | some l => (.bridged, some l)
    | none =>
      match (loaders.map W.lowercase).find? fun l => l ∈ carriedByAny with
      | some l => (.bridgeable, some l)
      | none => (.foreign, none)

def loadersFromCategories (categories : List String) : List String :=
  (categories.map W.lowercase).filter fun c => knownLoaders.contains c

def chain : Finset String := pack.loader.elim ∅ W.shelf.loaderChain

/-- The loaders of which the pack has a bridge. -/
def carriedByPack : List String :=
  (W.shelf.bridges.filter fun b => pack.presentProjects.contains b.1).map fun b => W.lowercase b.2

def carriedByAny : List String := W.shelf.bridges.map fun b => W.lowercase b.2

def fit (loaders : List String) : LoaderFit × Option String :=
  W.fitFor loaders (W.chain pack) (W.carriedByPack pack) W.carriedByAny

/-! ## Rows -/

def mirrored (modId : ℕ) : Bool :=
  (W.shelf.filesOf none modId).any fun v => W.cached.contains v.2.sha1

def registryHit (m : ModSummary) : ModHit where
  name := m.name
  slug := m.slug
  author := W.author m.modId
  description := none
  modrinthProjectId := m.modrinthProjectId
  modId := some m.modId
  iconUrl := none
  iconSha1 := m.iconSha1
  mirrored := W.mirrored m.modId
  fit := (W.fit pack m.loaders).1
  bridgedFrom := (W.fit pack m.loaders).2
  loaders := m.loaders
  mcVersions := m.mcVersions

def upstreamHit (h : SearchHit) : ModHit where
  name := h.title
  slug := some h.slug
  author := nonEmpty h.author
  description := nonEmpty h.description
  modrinthProjectId := some h.projectId
  modId := none
  iconUrl := h.iconUrl
  iconSha1 := none
  mirrored := false
  fit := (W.fit pack (W.loadersFromCategories h.categories)).1
  bridgedFrom := (W.fit pack (W.loadersFromCategories h.categories)).2
  loaders := W.loadersFromCategories h.categories
  mcVersions := h.versions

end Finder

/-- What Modrinth knows of a row, where the registry does not. -/
def fill (row : ModHit) (h : SearchHit) : ModHit :=
  { row with
    description := row.description.or (nonEmpty h.description)
    iconUrl := row.iconUrl.or h.iconUrl
    author := row.author.or (nonEmpty h.author) }

/-- Rows, and the places of projects among them. -/
abbrev Rows := List ModHit × List (String × ℕ)

/-- One more row, the last one of its project. -/
def addRow (rows : Rows) (hit : ModHit) : Rows :=
  (rows.1 ++ [hit], hit.modrinthProjectId.elim rows.2 fun p => put p rows.1.length rows.2)

/-- The order of the rows. -/
def rank (lowercase : String → String) (row : ModHit) : ℕ ×ₗ ℕ ×ₗ ℕ ×ₗ String :=
  toLex (tier row.fit, toLex (if row.mirrored then 0 else 1,
    toLex (if row.modId.isSome then 0 else 1, lowercase row.name)))

namespace Finder

variable (W : Finder) (q : String) (pack : PackContext)

def registryHits : List ModSummary :=
  W.shelf.listMods { q := some q, loader := none, mc := pack.mc } none none

def registryRows : Rows := ((W.registryHits q pack).map (W.registryHit pack)).foldl addRow ([], [])

/-- A project fills in its row, or is one more. -/
def addUpstream (byProject : List (String × ℕ)) (out : List ModHit) (h : SearchHit) : List ModHit :=
  match byProject.lookup h.projectId with
  | some i => out.modify i fun row => fill row h
  | none => out ++ [W.upstreamHit pack h]

/-- All rows, in the order in which they came. -/
def rows (upstream : List SearchHit) : List ModHit :=
  upstream.foldl (W.addUpstream pack (W.registryRows q pack).2) (W.registryRows q pack).1

/-- A search; what Modrinth does not answer, the registry answers alone. -/
def searchMods (found : Except String (List SearchHit)) (limit : ℕ) : List ModHit :=
  ((W.rows q pack (found.toOption.getD [])).insertionSort fun a b =>
    rank W.lowercase a ≤ rank W.lowercase b).take limit

end Finder

/-! ## Places -/

section Places

variable {W : Finder} {pack : PackContext} {upstream : List SearchHit} {l base : List ModHit}
  {byProject : List (String × ℕ)} {p : String} {i : ℕ}

theorem fst_foldl_addRow : (l.foldl addRow ([], [])).1 = l := by
  rw [foldl_grows Prod.fst (fun _ _ => rfl : ∀ rows hit, (addRow rows hit).1 = rows.1 ++ [hit])]
  simp

/-- The place of a project is where its row is, if no two rows are of one project. -/
theorem lookup_foldl_addRow (hl : (l.filterMap ModHit.modrinthProjectId).Nodup) :
    (l.foldl addRow ([], [])).2.lookup p = some i ↔
      (l[i]?.bind ModHit.modrinthProjectId) = some p := by
  induction l using List.reverseRecOn generalizing i with
  | nil => simp
  | append_singleton l hit ih =>
    rw [List.filterMap_append, List.nodup_append] at hl
    obtain ⟨hnodup, -, hdisjoint⟩ := hl
    have hold : l[i]?.bind ModHit.modrinthProjectId = some p → i < l.length := by
      intro h
      obtain ⟨row, hrow, -⟩ := Option.bind_eq_some_iff.1 h
      exact (List.getElem?_eq_some_iff.1 hrow).1
    have hlast : (l ++ [hit])[i]?.bind ModHit.modrinthProjectId = some p ↔
        l[i]?.bind ModHit.modrinthProjectId = some p ∨
          i = l.length ∧ hit.modrinthProjectId = some p := by
      rcases lt_trichotomy i l.length with h | rfl | h
      · rw [List.getElem?_append_left h]
        exact (or_iff_left fun h' => h.ne h'.1).symm
      · rw [List.getElem?_concat_length, List.getElem?_eq_none le_rfl]
        simp
      · rw [List.getElem?_eq_none (by simp; omega), List.getElem?_eq_none h.le]
        simp [h.ne']
    rw [List.foldl_append, List.foldl_cons, List.foldl_nil, addRow, fst_foldl_addRow, hlast,
      ← ih hnodup]
    rcases hproject : hit.modrinthProjectId with _ | p'
    · simp
    · rw [Option.elim_some, lookup_put]
      by_cases hp : p = p'
      · -- The project is that of the new row, and of no other one.
        subst hp
        have hnew : (l.foldl addRow ([], [])).2.lookup p ≠ some i := by
          intro h
          obtain ⟨row, hrow, hof⟩ := Option.bind_eq_some_iff.1 ((ih hnodup).1 h)
          exact hdisjoint p (List.mem_filterMap.2 ⟨row, List.mem_of_getElem? hrow, hof⟩) p
            (List.mem_filterMap.2 ⟨hit, List.mem_singleton_self hit, hproject⟩) rfl
        rw [if_pos rfl, or_iff_right hnew, Option.some_inj]
        exact ⟨fun h => ⟨h.symm, rfl⟩, fun h => h.1.symm⟩
      · rw [if_neg hp]
        exact (or_iff_left fun h => hp (Option.some_injective _ h.2).symm).symm

theorem modify_append (f : ModHit → ModHit) (h : i < l.length) (extra : List ModHit) :
    (l ++ extra).modify i f = l.modify i f ++ extra := by
  induction l generalizing i with
  | nil => exact absurd h (Nat.not_lt_zero i)
  | cons row l ih =>
    rcases i with _ | i
    · rfl
    · rw [List.cons_append, List.modify_succ_cons, List.modify_succ_cons, List.cons_append,
        ih (Nat.lt_of_succ_lt_succ h)]

/-- What comes from Modrinth fills in rows at the places of their projects, and follows them. -/
theorem foldl_addUpstream (extra : List ModHit)
    (hplace : ∀ p i, byProject.lookup p = some i → i < base.length) :
    upstream.foldl (W.addUpstream pack byProject) (base ++ extra) =
      (base.mapIdx fun i row =>
        (upstream.filter fun h => byProject.lookup h.projectId = some i).foldl fill row) ++
      (extra ++ (upstream.filter fun h => byProject.lookup h.projectId = none).map
        (W.upstreamHit pack)) := by
  induction upstream generalizing base extra with
  | nil =>
    simp only [List.foldl_nil, List.filter_nil, List.map_nil, List.append_nil]
    congr 1
    exact List.ext_getElem? fun i => by simp
  | cons h upstream ih =>
    rw [List.foldl_cons, Finder.addUpstream]
    rcases hp : byProject.lookup h.projectId with _ | j
    · dsimp only
      rw [List.append_assoc, ih _ hplace]
      simp [hp]
    · dsimp only
      have hj := hplace _ _ hp
      rw [modify_append _ hj, ih _ fun p i h' => (hplace p i h').trans_eq
        (List.length_modify ..).symm]
      congr 1
      · refine List.ext_getElem? fun i => ?_
        rw [List.getElem?_mapIdx, List.getElem?_mapIdx, List.getElem?_modify]
        by_cases hi : j = i
        · subst hi
          simp [hp]
          rfl
        · simp [hp, hi]
      · simp [hp]

end Places

/-! ## The merge -/

namespace Finder

variable (W : Finder) (q : String) (pack : PackContext) (upstream : List SearchHit)

/-- A mod of the registry, with all that Modrinth knows of its project. -/
def knownRow (m : ModSummary) : ModHit :=
  (upstream.filter fun h => m.modrinthProjectId = some h.projectId).foldl fill
    (W.registryHit pack m)

/-- The project of a mod that the registry finds. -/
def Known (h : SearchHit) : Prop :=
  ∃ m ∈ W.registryHits q pack, m.modrinthProjectId = some h.projectId

instance : DecidablePred (W.Known q pack) := fun _ => inferInstanceAs (Decidable (∃ _ ∈ _, _))

/-- What the search is for: the mods of the registry, then the projects that are of none of them. -/
def merged : List ModHit :=
  (W.registryHits q pack).map (W.knownRow pack upstream) ++
    (upstream.filter fun h => ¬ W.Known q pack h).map (W.upstreamHit pack)

end Finder

section Merge

variable {W : Finder} {q : String} {pack : PackContext} {upstream : List SearchHit}

theorem nodup_modIds : ((W.registryHits q pack).map ModSummary.modId).Nodup := by
  rw [Finder.registryHits, Catalog.listMods_eq, List.map_map]
  refine List.Nodup.map_on (fun r hr s hs hid => ?_) (Catalog.pairwise_modRows.imp fun h => ?_)
  · exact Table.eq_of_id_eq W.shelf.mods.increasing (Catalog.mem_modRows.1 hr).1
      (Catalog.mem_modRows.1 hs).1 hid
  · exact fun he => h.ne (congrArg Registry.modKey he)

/-- A project is of one mod. -/
theorem modId_eq_of_project {m m' : ModSummary} {p : String} (hm : m ∈ W.registryHits q pack)
    (hm' : m' ∈ W.registryHits q pack) (hp : m.modrinthProjectId = some p)
    (hp' : m'.modrinthProjectId = some p) : m.modId = m'.modId := by
  have halias : ∀ m ∈ W.registryHits q pack, m.modrinthProjectId = some p →
      W.shelf.modIdForAlias .modrinth p = some m.modId := by
    intro m hm hp
    rw [Finder.registryHits, Catalog.listMods_eq] at hm
    obtain ⟨r, -, rfl⟩ := List.mem_map.1 hm
    have hname : W.shelf.nameOf .modrinth r.1 = some p := hp
    rw [Tables.nameOf, Option.map_eq_some_iff] at hname
    obtain ⟨a, ha, hkey⟩ := hname
    have hof : a.modId = r.1 ∧ a.source = .modrinth := of_decide_eq_true
      (List.find?_some (p := fun a : AliasRow => a.modId = r.1 ∧ a.source = .modrinth) ha)
    exact W.integrity.modIdForAlias_eq_some.2
      ⟨a, List.mem_of_find?_eq_some ha, hof.2, hkey, hof.1⟩
  exact Option.some_injective _ ((halias m hm hp).symm.trans (halias m' hm' hp'))

theorem nodup_projects :
    (((W.registryHits q pack).map (W.registryHit pack)).filterMap
      ModHit.modrinthProjectId).Nodup := by
  rw [List.filterMap_map, List.Nodup, List.pairwise_filterMap]
  refine (List.pairwise_map.1 nodup_modIds).imp_of_mem fun hm hm' hne p hp p' hp' he => ?_
  subst he
  exact hne (modId_eq_of_project hm hm' hp hp')

/-- Filling in rows at their places is the same as bringing each mod with its project. -/
theorem rows_eq : W.rows q pack upstream = W.merged q pack upstream := by
  have hlookup (p : String) (i : ℕ) : (W.registryRows q pack).2.lookup p = some i ↔
      (W.registryHits q pack)[i]?.bind ModSummary.modrinthProjectId = some p := by
    rw [Finder.registryRows, lookup_foldl_addRow nodup_projects, List.getElem?_map]
    rcases (W.registryHits q pack)[i]? with _ | m
    · rfl
    · rfl
  have hplace : ∀ p i, (W.registryRows q pack).2.lookup p = some i →
      i < ((W.registryHits q pack).map (W.registryHit pack)).length := by
    intro p i h
    obtain ⟨m, hm, -⟩ := Option.bind_eq_some_iff.1 ((hlookup p i).1 h)
    exact (List.getElem?_eq_some_iff.1 hm).1.trans_eq (List.length_map _).symm
  have hknown (h : SearchHit) :
      (W.registryRows q pack).2.lookup h.projectId = none ↔ ¬ W.Known q pack h := by
    rw [Option.eq_none_iff_forall_ne_some]
    constructor
    · intro hnone hknown
      obtain ⟨m, hm, hp⟩ := hknown
      obtain ⟨i, hi⟩ := List.mem_iff_getElem?.1 hm
      exact hnone i ((hlookup _ i).2 (by rw [hi]; exact hp))
    · intro hunknown i hi
      obtain ⟨m, hm, hp⟩ := Option.bind_eq_some_iff.1 ((hlookup _ i).1 hi)
      exact hunknown ⟨m, List.mem_of_getElem? hm, hp⟩
  have hfst : (W.registryRows q pack).1 = (W.registryHits q pack).map (W.registryHit pack) :=
    fst_foldl_addRow
  rw [Finder.rows, hfst, ← List.append_nil (List.map _ _), foldl_addUpstream [] hplace,
    List.nil_append, Finder.merged]
  congr 1
  · refine List.ext_getElem? fun i => ?_
    rw [List.getElem?_mapIdx, List.getElem?_map, List.getElem?_map, Option.map_map]
    rcases hm : (W.registryHits q pack)[i]? with _ | m
    · rfl
    · rw [Option.map_some, Option.map_some, Option.some_inj, Function.comp_apply, Finder.knownRow]
      congr 1
      refine List.filter_congr fun h _ => decide_eq_decide.2 ?_
      rw [hlookup, hm]
      rfl
  · congr 1
    exact List.filter_congr fun h _ => decide_eq_decide.2 (hknown h)

/-- What filling leaves as it is, and what it fills in. -/
theorem foldl_fill (row : ModHit) (l : List SearchHit) : l.foldl fill row =
    { row with
      description := row.description.or (l.findSome? fun h => nonEmpty h.description)
      iconUrl := row.iconUrl.or (l.findSome? SearchHit.iconUrl)
      author := row.author.or (l.findSome? fun h => nonEmpty h.author) } := by
  induction l generalizing row with
  | nil => simp
  | cons h l ih =>
    rw [List.foldl_cons, ih, fill]
    simp only [Option.or_assoc, List.findSome?_cons]
    congr 1
    · rcases nonEmpty h.author with _ | a
      · rw [Option.none_or]
      · rw [Option.some_or]
    · rcases nonEmpty h.description with _ | d
      · rw [Option.none_or]
      · rw [Option.some_or]
    · rcases h.iconUrl with _ | u
      · rw [Option.none_or]
      · rw [Option.some_or]

/-- What a search of the mods and of what Modrinth finds is: all of it, each thing once, in order.
    -/
structure Merges (W : Finder) (q : String) (pack : PackContext) (upstream : List SearchHit)
    (rows : List ModHit) : Prop where
  perm : rows.Perm (W.merged q pack upstream)
  order : rows.Pairwise fun a b => rank W.lowercase a ≤ rank W.lowercase b
  /-- The mods of the registry are there once each. -/
  mods : (rows.filterMap ModHit.modId).Perm ((W.registryHits q pack).map ModSummary.modId)
  modsOnce : (rows.filterMap ModHit.modId).Nodup
  /-- A project of a mod is there once, as that mod. -/
  project : ∀ m ∈ W.registryHits q pack, ∀ p, m.modrinthProjectId = some p →
    (rows.filter fun row => row.modrinthProjectId = some p).map ModHit.modId = [some m.modId]
  /-- Any other one is there as often as Modrinth finds it. -/
  other : ∀ p, (∀ m ∈ W.registryHits q pack, m.modrinthProjectId ≠ some p) →
    (rows.filter fun row => row.modrinthProjectId = some p).length =
      (upstream.filter fun h => h.projectId = p).length
  mirrored : ∀ row ∈ rows, row.mirrored = true ↔ ∃ id ∈ row.modId, W.mirrored id = true

theorem modId_knownRow (m : ModSummary) : (W.knownRow pack upstream m).modId = some m.modId := by
  rw [Finder.knownRow, foldl_fill]
  rfl

theorem project_knownRow (m : ModSummary) :
    (W.knownRow pack upstream m).modrinthProjectId = m.modrinthProjectId := by
  rw [Finder.knownRow, foldl_fill]
  rfl

theorem mirrored_knownRow (m : ModSummary) :
    (W.knownRow pack upstream m).mirrored = W.mirrored m.modId := by
  rw [Finder.knownRow, foldl_fill]
  rfl

theorem filterMap_modId_merged : (W.merged q pack upstream).filterMap ModHit.modId =
    (W.registryHits q pack).map ModSummary.modId := by
  have hknown : ModHit.modId ∘ W.knownRow pack upstream = some ∘ ModSummary.modId :=
    funext modId_knownRow
  have hother : ModHit.modId ∘ W.upstreamHit pack = fun _ => none := rfl
  rw [Finder.merged, List.filterMap_append, List.filterMap_map, List.filterMap_map, hknown, hother,
    ← List.filterMap_map, List.filterMap_some, List.filterMap_none, List.append_nil]

/-- The rows of a project: that of its mod, or all that Modrinth finds. -/
theorem filter_merged (p : String) :
    (W.merged q pack upstream).filter (fun row => row.modrinthProjectId = some p) =
      ((W.registryHits q pack).filter fun m => m.modrinthProjectId = some p).map
        (W.knownRow pack upstream) ++
      (upstream.filter fun h => h.projectId = p ∧ ¬ W.Known q pack h).map (W.upstreamHit pack) := by
  rw [Finder.merged, List.filter_append, List.filter_map, List.filter_map, List.filter_filter]
  congr 2
  · refine List.filter_congr fun m _ => decide_eq_decide.2 ?_
    rw [project_knownRow]
  · refine List.filter_congr fun h _ => ?_
    simp [Finder.upstreamHit]

theorem map_modId_of_project {m : ModSummary} {p : String} (hm : m ∈ W.registryHits q pack)
    (hp : m.modrinthProjectId = some p) :
    ((W.registryHits q pack).filter fun m => m.modrinthProjectId = some p).map ModSummary.modId =
      [m.modId] := by
  refine List.perm_singleton.1 ((List.perm_ext_iff_of_nodup ?_ (List.nodup_singleton _)).2 ?_)
  · exact nodup_modIds.sublist (List.filter_sublist.map _)
  · intro id
    rw [List.mem_singleton, List.mem_map]
    constructor
    · intro h
      obtain ⟨m', hm', rfl⟩ := h
      obtain ⟨hm', hp'⟩ := List.mem_filter.1 hm'
      exact modId_eq_of_project hm' hm (of_decide_eq_true hp') hp
    · intro h
      exact ⟨m, List.mem_filter.2 ⟨hm, decide_eq_true hp⟩, h.symm⟩

theorem merges_of_perm {rows : List ModHit} (h : rows.Perm (W.merged q pack upstream))
    (horder : rows.Pairwise fun a b => rank W.lowercase a ≤ rank W.lowercase b) :
    Merges W q pack upstream rows where
  perm := h
  order := horder
  mods := (h.filterMap _).trans (.of_eq filterMap_modId_merged)
  modsOnce := ((h.filterMap _).trans (.of_eq filterMap_modId_merged)).nodup_iff.2 nodup_modIds
  project := by
    intro m hm p hp
    have hnone : upstream.filter (fun h => h.projectId = p ∧ ¬ W.Known q pack h) = [] := by
      refine List.filter_eq_nil_iff.2 fun h _ hh => ?_
      obtain ⟨rfl, hunknown⟩ := of_decide_eq_true hh
      exact hunknown ⟨m, hm, hp⟩
    refine List.perm_singleton.1 (((h.filter _).map _).trans (.of_eq ?_))
    rw [filter_merged, hnone, List.map_nil, List.append_nil, List.map_map,
      show ModHit.modId ∘ W.knownRow pack upstream = some ∘ ModSummary.modId from
        funext modId_knownRow, ← List.map_map, map_modId_of_project hm hp]
    rfl
  other := by
    intro p hp
    have hnone : (W.registryHits q pack).filter (fun m => m.modrinthProjectId = some p) = [] :=
      List.filter_eq_nil_iff.2 fun m hm h => hp m hm (of_decide_eq_true h)
    rw [(h.filter _).length_eq, filter_merged, hnone, List.map_nil, List.nil_append,
      List.length_map]
    congr 1
    refine List.filter_congr fun h _ => decide_eq_decide.2 ⟨And.left, fun he => ⟨he, ?_⟩⟩
    intro hknown
    obtain ⟨m, hm, hof⟩ := hknown
    exact hp m hm (he ▸ hof)
  mirrored := by
    intro row hrow
    rcases List.mem_append.1 (h.mem_iff.1 hrow) with hknown | hother
    · obtain ⟨m, -, rfl⟩ := List.mem_map.1 hknown
      rw [mirrored_knownRow, modId_knownRow]
      simp
    · obtain ⟨u, -, rfl⟩ := List.mem_map.1 hother
      simp [Finder.upstreamHit]

/-- A search is a merge of which the first rows are shown. -/
theorem searchMods_merges (W : Finder) (q : String) (pack : PackContext)
    (found : Except String (List SearchHit)) :
    ∃ rows, Merges W q pack (found.toOption.getD []) rows ∧
      ∀ limit, W.searchMods q pack found limit = rows.take limit := by
  refine ⟨_, merges_of_perm ?_ (List.pairwise_insertionSort _ _), fun _ => rfl⟩
  exact (List.perm_insertionSort _ _).trans (.of_eq rows_eq)

end Merge

end Search

end Smrt
