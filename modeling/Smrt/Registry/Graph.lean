import Smrt.Lib.Search
import Smrt.Registry.Edges
import Smrt.Registry.Shelf
import Smrt.Registry.Slices

/-!
# The graph of the registry

The mods that depend on one another, over all their versions (`Tables.graph`), and in a slice, where
a mod is there with the one file that is shown of it (`Shelf.graphForSlice`). An edge of a slice
ends at a mod of the slice or at none. The slices that are offered to choose from are those that
some file is of, the busiest first (`Catalog.graphSlices`).

* `Drawn`, `graphForSlice_spec`: the mods of a graph are the ends of its edges; the edges of a slice
  are those of the files that are shown, each once and the most trusted, and are in the whole graph;
* `graphSlices_spec`: the slices that are offered are not empty, and the busiest is the first.
-/

namespace Smrt

namespace Registry

open Tables

structure GraphNode where
  modId : ℕ
  name : String
  modid : Option String
  modrinth : Bool
  deriving DecidableEq

structure GraphEdge where
  fromModId : ℕ
  toModId : Option ℕ
  target : String
  kind : RelKind
  severity : Option Severity
  source : Source
  deriving DecidableEq

structure GraphData where
  nodes : List GraphNode
  edges : List GraphEdge
  deriving DecidableEq

/-- A slice that can be chosen, with how often its loader is named by files of its game version. -/
structure GraphSlice where
  mcVersion : String
  loader : String
  artifacts : ℕ
  deriving DecidableEq

/-- What an edge is drawn once for. Where nothing is at its end, it is told by its target. -/
def GraphEdge.key (e : GraphEdge) : ℕ × Option ℕ × RelKind × String :=
  (e.fromModId, e.toModId, e.kind, if e.toModId.isSome then "" else e.target)

/-- The mods at the ends of edges, in the order of their ids. -/
def ends (edges : List GraphEdge) : List ℕ :=
  ((edges.flatMap fun e => e.fromModId :: e.toModId.toList).dedup).insertionSort (· ≤ ·)

def graphOrder (r r' : RelationRow) : Prop :=
  r.fromModId < r'.fromModId ∨ r.fromModId = r'.fromModId ∧
    (r.target < r'.target ∨ r.target = r'.target ∧ r.kind.rank ≤ r'.kind.rank)

instance : DecidableRel graphOrder := fun _ _ => inferInstanceAs (Decidable (_ ∨ _ ∧ _))

/-- The order in which slices are offered: the busiest first, then the newest game version. -/
def sliceOrder (a b : GraphSlice) : Prop :=
  b.artifacts < a.artifacts ∨ b.artifacts = a.artifacts ∧
    (mcVersionKey b.mcVersion < mcVersionKey a.mcVersion ∨
      mcVersionKey b.mcVersion = mcVersionKey a.mcVersion ∧ a.loader ≤ b.loader)

instance : DecidableRel sliceOrder := fun _ _ => inferInstanceAs (Decidable (_ ∨ _ ∧ _))

namespace Tables

variable (t : Tables)

def graphNodeFor (id : ℕ) : Except DbError GraphNode :=
  match t.mods.get? id with
  | none => .error .noRows
  | some m => .ok {
      modId := id
      name := ((m.canonicalName.or m.slug).or (t.modidForMod id)).getD ("#" ++ toString id)
      modid := t.modidForMod id
      modrinth := (t.modrinthIdForMod id).isSome }

def graphEdge (r : RelationRow) : GraphEdge where
  fromModId := r.fromModId
  toModId := t.modIdForSelector r.target
  target := r.target
  kind := r.kind
  severity := r.severity
  source := r.source

/-- The whole graph. -/
def graph : Except DbError GraphData := do
  let edges := (t.relations.insertionSort graphOrder).map t.graphEdge
  let nodes ← (ends edges).mapM t.graphNodeFor
  pure { nodes, edges }

end Tables

namespace Catalog

variable (t : Catalog)

/-- The mods of a slice, in the order of their ids, with the files that are shown of them. -/
def sliceMods (mc loader : Option String) : List (ℕ × ℕ) :=
  (((t.versions.rows.map fun v => v.2.modId).dedup).insertionSort (· ≤ ·)).filterMap fun m =>
    (t.sliceArtifacts mc loader m).map fun v => (m, v)

/-- The game versions and loaders that files name together. A file for any loader names none. -/
def sliceWorlds (lowercase : String → String) : List (String × String) :=
  t.versions.rows.flatMap fun v =>
    (t.targets.filter fun g => g.1 = v.1 ∧ g.2 ≠ "any").flatMap fun g =>
      v.2.mcVersions.map fun mc => (mc, lowercase g.2)

def graphSlices (lowercase : String → String) : List GraphSlice :=
  ((t.sliceWorlds lowercase).dedup.map fun w =>
    { mcVersion := w.1, loader := w.2, artifacts := (t.sliceWorlds lowercase).count w
      : GraphSlice }).insertionSort sliceOrder

end Catalog

namespace Shelf

variable (s : Shelf)

/-- A relation in a slice, which ends at none of the mods that are not in it. -/
def sliceEdge (inSlice : List (ℕ × ℕ)) (modId : ℕ) (r : RelationRow) : GraphEdge :=
  { s.graphEdge r with
    fromModId := modId
    toModId := (s.modIdForSelector r.target).filter fun m => (inSlice.lookup m).isSome }

/-- The edges of the files that are shown, the most trusted of each file first. -/
def sliceEdges (inSlice : List (ℕ × ℕ)) : List GraphEdge :=
  inSlice.flatMap fun m => (s.relationsForArtifact (some m.2) m.1).map (s.sliceEdge inSlice m.1)

/-- The graph of a slice. -/
def graphForSlice (mc loader : Option String) : Except DbError GraphData := do
  let edges := firsts GraphEdge.key [] (s.sliceEdges (s.sliceMods mc loader))
  let nodes ← (ends edges).mapM s.graphNodeFor
  pure { nodes, edges }

end Shelf

/-! ## The ends of the edges -/

theorem mem_ends {edges : List GraphEdge} {m : ℕ} :
    m ∈ ends edges ↔ ∃ e ∈ edges, e.fromModId = m ∨ e.toModId = some m := by
  rw [ends, List.mem_insertionSort, List.mem_dedup, List.mem_flatMap]
  refine exists_congr fun e => and_congr_right fun _ => ?_
  rw [List.mem_cons, Option.mem_toList, eq_comm (a := m)]

theorem pairwise_ends (edges : List GraphEdge) : (ends edges).Pairwise (· < ·) := by
  have hnodup := List.nodup_dedup (edges.flatMap fun e => e.fromModId :: e.toModId.toList)
  have h := Pages.pairwise_insertionSort hnodup fun m _ k _ (h : id m = id k) => h
  exact h

section Nodes

variable {t : Tables}

/-- A mod that is there has a node. -/
theorem exists_graphNodeFor {id : ℕ} (h : t.HasMod id) :
    ∃ node, t.graphNodeFor id = .ok node := by
  obtain ⟨m, hm⟩ := Option.isSome_iff_exists.1 h
  rw [graphNodeFor, hm]
  exact ⟨_, rfl⟩

theorem modId_of_graphNodeFor {id : ℕ} {node : GraphNode} (h : t.graphNodeFor id = .ok node) :
    id = node.modId := by
  rcases hm : t.mods.get? id with _ | m
  all_goals rw [graphNodeFor, hm] at h
  · cases h
  · rw [← Except.ok.inj h]

/-- The nodes of mods that are there. -/
theorem exists_nodes {ids : List ℕ} (h : ∀ id ∈ ids, t.HasMod id) :
    ∃ nodes, ids.mapM t.graphNodeFor = .ok nodes ∧ nodes.map GraphNode.modId = ids := by
  obtain ⟨nodes, hnodes⟩ := exists_mapM_eq_ok fun id hid => exists_graphNodeFor (h id hid)
  refine ⟨nodes, hnodes, ?_⟩
  have hids : List.Forall₂ (fun id node => id = GraphNode.modId node) ids nodes :=
    (mapM_eq_ok.1 hnodes).imp fun _ _ => modId_of_graphNodeFor
  rw [← map_eq_of_forall₂ (f := id) hids, List.map_id]

end Nodes

/-- The mods of a graph are the ends of its edges, in the order of their ids. -/
structure Closed (g : GraphData) : Prop where
  increasing : (g.nodes.map GraphNode.modId).Pairwise (· < ·)
  node : ∀ m, m ∈ g.nodes.map GraphNode.modId ↔
    ∃ e ∈ g.edges, e.fromModId = m ∨ e.toModId = some m

theorem closed_of_nodes {nodes : List GraphNode} {edges : List GraphEdge}
    (h : nodes.map GraphNode.modId = ends edges) : Closed { nodes, edges } := by
  constructor
  case increasing =>
    rw [h]
    exact pairwise_ends edges
  case node =>
    intro m
    rw [h]
    exact mem_ends

/-! ## The whole graph -/

/-- The whole graph is drawn, with every relation. -/
theorem graph_closed {t : Tables} (ht : t.Integrity) : ∃ g, t.graph = .ok g ∧ Closed g ∧
    g.edges.Perm (t.relations.map t.graphEdge) := by
  have hmods : ∀ id ∈ ends ((t.relations.insertionSort graphOrder).map t.graphEdge),
      t.HasMod id := by
    intro id hid
    obtain ⟨e, he, hend⟩ := mem_ends.1 hid
    obtain ⟨r, hr, rfl⟩ := List.mem_map.1 he
    rcases hend with rfl | hto
    · exact ht.relationMod r ((List.mem_insertionSort _).1 hr)
    · exact ht.hasMod_of_selector hto
  obtain ⟨nodes, hnodes, hids⟩ := exists_nodes hmods
  refine ⟨⟨nodes, (t.relations.insertionSort graphOrder).map t.graphEdge⟩, ?_,
    closed_of_nodes hids, (List.perm_insertionSort graphOrder t.relations).map _⟩
  rw [graph, hnodes]
  rfl

/-! ## The graph of a slice -/

section Slice

variable {s : Shelf} {mc loader : Option String}

/-- The mods of a slice are those of which a file is shown. -/
theorem mem_sliceMods {t : Catalog} {m v : ℕ} :
    (m, v) ∈ t.sliceMods mc loader ↔ t.sliceArtifacts mc loader m = some v := by
  rw [Catalog.sliceMods, List.mem_filterMap]
  constructor
  · rintro ⟨m', -, h⟩
    obtain ⟨v', hv, he⟩ := Option.map_eq_some_iff.1 h
    obtain ⟨rfl, rfl⟩ := Prod.mk.inj he
    exact hv
  · intro h
    refine ⟨m, ?_, by rw [h]; rfl⟩
    obtain ⟨w, hw⟩ := Catalog.sliceArtifacts_isSome.1 (Option.isSome_of_mem h)
    obtain ⟨hrow, -, rfl⟩ := Catalog.mem_suiting.1 hw
    rw [List.mem_insertionSort, List.mem_dedup]
    exact List.mem_map_of_mem hrow

theorem isSome_lookup_sliceMods {t : Catalog} {m : ℕ} :
    ((t.sliceMods mc loader).lookup m).isSome ↔ (t.sliceArtifacts mc loader m).isSome := by
  rw [List.lookup_isSome_iff, Option.isSome_iff_exists]
  constructor
  · rintro ⟨⟨m', v⟩, hmem, hm⟩
    rw [beq_iff_eq] at hm
    subst hm
    exact ⟨v, mem_sliceMods.1 hmem⟩
  · rintro ⟨v, hv⟩
    exact ⟨(m, v), mem_sliceMods.2 hv, beq_self_eq_true m⟩

/-- How a relation is drawn in a slice. -/
def Shelf.shownEdge (s : Shelf) (mc loader : Option String) (m : ℕ) (r : RelationRow) : GraphEdge :=
  s.sliceEdge (s.sliceMods mc loader) m r

/-- What is drawn in a slice. -/
structure Drawn (s : Shelf) (mc loader : Option String) (g : GraphData) : Prop
    extends Closed g where
  inSlice : ∀ m ∈ g.nodes.map GraphNode.modId, (s.sliceArtifacts mc loader m).isSome
  once : g.edges.Pairwise fun e e' => e.key ≠ e'.key
  /-- Whatever a file that is shown depends on is drawn. -/
  every : ∀ m v, s.sliceArtifacts mc loader m = some v → ∀ r ∈ s.relationsForArtifact (some v) m,
    ∃ e ∈ g.edges, e.key = (s.shownEdge mc loader m r).key
  /-- What is drawn is the most trusted of its key. -/
  trusted : ∀ e ∈ g.edges, ∃ v r, s.sliceArtifacts mc loader e.fromModId = some v ∧
    r ∈ s.relationsForArtifact (some v) e.fromModId ∧ e = s.shownEdge mc loader e.fromModId r ∧
      ∀ r' ∈ s.relationsForArtifact (some v) e.fromModId,
        (s.shownEdge mc loader e.fromModId r').key = e.key → r'.confidence ≤ r.confidence

/-- An edge of a slice ends at a mod of it, which its target names. -/
theorem toModId_shownEdge {m k : ℕ} {r : RelationRow}
    (h : (s.shownEdge mc loader m r).toModId = some k) :
    s.modIdForSelector r.target = some k ∧ (s.sliceArtifacts mc loader k).isSome := by
  have h : (s.modIdForSelector r.target).filter
      (fun m => ((s.sliceMods mc loader).lookup m).isSome) = some k := h
  obtain ⟨htarget, hslice⟩ := Option.filter_eq_some_iff.1 h
  exact ⟨htarget, isSome_lookup_sliceMods.1 hslice⟩

theorem mem_sliceEdges {e : GraphEdge} :
    e ∈ s.sliceEdges (s.sliceMods mc loader) ↔ ∃ m v r, s.sliceArtifacts mc loader m = some v ∧
      r ∈ s.relationsForArtifact (some v) m ∧ s.shownEdge mc loader m r = e := by
  rw [Shelf.sliceEdges, List.mem_flatMap]
  constructor
  · rintro ⟨⟨m, v⟩, hmem, he⟩
    obtain ⟨r, hr, rfl⟩ := List.mem_map.1 he
    exact ⟨m, v, r, mem_sliceMods.1 hmem, hr, rfl⟩
  · rintro ⟨m, v, r, hv, hr, rfl⟩
    exact ⟨(m, v), mem_sliceMods.2 hv, List.mem_map_of_mem hr⟩

/-- Of what is drawn for a file, the first of a key is the most trusted. -/
theorem trusted_of_mem_firsts {l : List RelationRow} {f : RelationRow → GraphEdge}
    (hl : l.Pairwise fun r r' => r'.confidence ≤ r.confidence) {e : GraphEdge}
    (h : e ∈ firsts GraphEdge.key [] (l.map f)) :
    ∃ r ∈ l, e = f r ∧ ∀ r' ∈ l, (f r').key = e.key → r'.confidence ≤ r.confidence := by
  obtain ⟨-, before, after, hsplit, hbefore⟩ := mem_firsts.1 h
  obtain ⟨u, w, rfl, rfl, hw⟩ := List.map_eq_append_iff.1 hsplit
  obtain ⟨r, v, rfl, rfl, rfl⟩ := List.map_eq_cons_iff.1 hw
  refine ⟨r, List.mem_append_right _ List.mem_cons_self, rfl, fun r' hr' hkey => ?_⟩
  rcases List.mem_append.1 hr' with hu | hv
  · exact absurd hkey (hbefore _ (List.mem_map_of_mem hu))
  · rcases List.mem_cons.1 hv with rfl | hv
    · exact le_rfl
    · exact List.rel_of_pairwise_cons (List.pairwise_append.1 hl).2.1 hv

/-- The most trusted facts come first. -/
theorem pairwise_relationsForArtifact (versionId : Option ℕ) (modId : ℕ) :
    (s.relationsForArtifact versionId modId).Pairwise fun r r' =>
      r'.confidence ≤ r.confidence :=
  haveI : Std.Total fun r r' : RelationRow => r'.confidence ≤ r.confidence :=
    ⟨fun r r' => le_total r'.confidence r.confidence⟩
  haveI : IsTrans RelationRow fun r r' => r'.confidence ≤ r.confidence :=
    ⟨fun _ _ _ h h' => h'.trans h⟩
  List.pairwise_insertionSort _ _

/-- The graph of a slice is drawn, and shows what the files of the slice depend on. -/
theorem graphForSlice_drawn (hs : s.Integrity) (mc loader : Option String) :
    ∃ g, s.graphForSlice mc loader = .ok g ∧ Drawn s mc loader g := by
  have hedge : ∀ e ∈ firsts GraphEdge.key [] (s.sliceEdges (s.sliceMods mc loader)),
      ∀ m, e.fromModId = m ∨ e.toModId = some m → (s.sliceArtifacts mc loader m).isSome := by
    intro e he m hm
    obtain ⟨k, v, r, hv, -, rfl⟩ := mem_sliceEdges.1 (mem_of_mem_firsts he)
    rcases hm with rfl | hto
    · exact Option.isSome_of_mem hv
    · exact (toModId_shownEdge hto).2
  have hmods : ∀ id ∈ ends (firsts GraphEdge.key [] (s.sliceEdges (s.sliceMods mc loader))),
      s.HasMod id := by
    intro id hid
    obtain ⟨e, he, hend⟩ := mem_ends.1 hid
    obtain ⟨w, hw⟩ := Catalog.sliceArtifacts_isSome.1 (hedge e he id hend)
    obtain ⟨hrow, -, rfl⟩ := Catalog.mem_suiting.1 hw
    exact hs.versionMod w hrow
  obtain ⟨nodes, hnodes, hids⟩ := exists_nodes hmods
  refine ⟨⟨nodes, firsts GraphEdge.key [] (s.sliceEdges (s.sliceMods mc loader))⟩, ?_, ?_⟩
  · rw [Shelf.graphForSlice, hnodes]
    rfl
  refine { closed_of_nodes hids with inSlice := ?_, once := ?_, every := ?_, trusted := ?_ }
  · intro m hm
    have hm : m ∈ nodes.map GraphNode.modId := hm
    rw [hids] at hm
    obtain ⟨e, he, hend⟩ := mem_ends.1 hm
    exact hedge e he m hend
  · exact pairwise_firsts
  · intro m v hv r hr
    exact exists_mem_firsts (mem_sliceEdges.2 ⟨m, v, r, hv, hr, rfl⟩) List.not_mem_nil
  · intro e he
    obtain ⟨⟨m, v⟩, hmem, he⟩ := mem_firsts_flatMap he
    obtain ⟨r, hr, rfl, htrusted⟩ :=
      trusted_of_mem_firsts (pairwise_relationsForArtifact (some v) m) he
    exact ⟨v, r, mem_sliceMods.1 hmem, hr, rfl, htrusted⟩

/-- An edge of a slice is one of the whole graph, but that it ends nowhere if the mod at its end is
    not in the slice. -/
def Narrows (s : Shelf) (mc loader : Option String) (e e' : GraphEdge) : Prop :=
  e'.target = e.target ∧ e'.kind = e.kind ∧ e'.severity = e.severity ∧ e'.source = e.source ∧
    e.toModId = e'.toModId.filter fun m => (s.sliceArtifacts mc loader m).isSome

theorem narrows_shownEdge {m : ℕ} {r : RelationRow} :
    Narrows s mc loader (s.shownEdge mc loader m r) (s.graphEdge r) := by
  refine ⟨rfl, rfl, rfl, rfl, congrArg (fun p => (s.modIdForSelector r.target).filter p) ?_⟩
  funext k
  rw [Bool.eq_iff_iff]
  exact isSome_lookup_sliceMods

/-- A mod of an old game version, which needs another of it and one of a newer version. -/
def oldWorld : Shelf where
  toTables := { Tables.empty with
    mods := ⟨[(1, ⟨some "jei", none, .modrinth⟩), (2, ⟨some "mantle", none, .modrinth⟩),
      (3, ⟨some "appleskin", none, .modrinth⟩)], by decide⟩
    aliases := [⟨1, .modid, "jei"⟩, ⟨2, .modid, "mantle"⟩, ⟨3, .modid, "appleskin"⟩]
    versions := ⟨[(1, ⟨1, "2.0", "a", none, ["1.12.2"], none, .modrinth⟩),
      (2, ⟨2, "1.3", "b", none, ["1.12.2"], none, .modrinth⟩),
      (3, ⟨3, "2.5", "c", none, ["1.20.1"], none, .modrinth⟩)], by decide⟩
    targets := [(1, "Forge"), (2, "forge"), (3, "forge")]
    relations := [⟨1, some 1, "mantle@[1,)", none, .requires, none, .jarMeta, 50⟩,
      ⟨1, some 1, "mantle", none, .requires, none, .inferred, 10⟩,
      ⟨1, some 1, "appleskin", none, .requires, none, .jarMeta, 50⟩] }
  loaderParents := []
  loaderProvides := []
  modrinthVersionId := fun _ => none
  classDigest := fun _ => .absent

/-- Of the three relations two are drawn, and the newer mod is not. -/
example : ((oldWorld.graphForSlice (some "1.12.2") (some "forge")).toOption.map fun g =>
    (g.nodes.map GraphNode.modId, g.edges.map GraphEdge.toModId)) =
      some ([1, 2], [some 2, none]) := by
  decide +kernel

end Slice

/-! ## The slices that are offered -/

section Offered

variable {t : Catalog} {lowercase : String → String}

/-- A letter that is written in a JSON string as itself. -/
def Unescaped (s : String) : Prop := ∀ c ∈ s.toList, jsonLetter c = [c]

instance : DecidablePred Unescaped := fun _ => inferInstanceAs (Decidable (∀ _ ∈ _, _))

/-- A letter that means nothing to a pattern is matched by itself. -/
theorem like_cons {c : Char} {pattern text : List Char} (hpercent : c ≠ '%') (hline : c ≠ '_')
    (hback : c ≠ '\\') : like (c :: pattern) (c :: text) = like pattern text := by
  rw [like.eq_9 c pattern c text hpercent hline (fun h _ => hback h) fun _ _ h _ => hback h,
    decide_eq_true rfl, Bool.true_and]

/-- Text is matched by its pattern. -/
theorem like_likeEscape {m : String} {pattern text : List Char} (h : like pattern text = true) :
    like (likeEscape m ++ pattern) (m.toList ++ text) = true := by
  rw [likeEscape]
  induction m.toList with
  | nil => exact h
  | cons c l ih =>
    rw [List.flatMap_cons, List.cons_append, List.append_assoc]
    split_ifs with hc
    · rw [List.cons_append, List.singleton_append, like.eq_7, ih, decide_eq_true rfl, Bool.true_and]
    · rw [not_or, not_or] at hc
      rw [List.singleton_append, like_cons hc.2.1 hc.2.2 hc.1]
      exact ih

/-- A line is in the text that the lines are joined to. -/
theorem infix_intercalate {d : Char} {l : List Char} {lines : List (List Char)} (h : l ∈ lines) :
    l <:+: [d].intercalate lines := by
  induction lines with
  | nil => exact absurd h List.not_mem_nil
  | cons k lines ih =>
    rcases lines with _ | ⟨k', lines⟩
    · rw [List.mem_singleton.1 h, List.intercalate_singleton]
    · rw [List.intercalate_cons_cons]
      rcases List.mem_cons.1 h with rfl | h
      · exact ⟨[], [d] ++ [d].intercalate (k' :: lines), by rw [List.nil_append, List.append_assoc]⟩
      · exact (ih h).trans (List.suffix_append _ _).isInfix

/-- The game versions of a file are found in its cell. -/
theorem like_mcCell {versions : List String} {m : String} (hm : m ∈ versions)
    (hplain : Unescaped m) : ∃ cell ∈ mcCell versions,
      like ('%' :: '"' :: likeEscape m ++ ['"', '%']) cell = true := by
  have hletters : m.toList.flatMap jsonLetter = m.toList :=
    (List.flatMap_congr hplain).trans (List.flatMap_singleton' _)
  have hquoted : ('"' :: m.toList.flatMap jsonLetter ++ ['"']) ∈
      versions.map fun v => '"' :: v.toList.flatMap jsonLetter ++ ['"'] :=
    List.mem_map_of_mem (f := fun v : String => '"' :: v.toList.flatMap jsonLetter ++ ['"']) hm
  obtain ⟨u, w, hcell⟩ := infix_intercalate (d := ',') hquoted
  rw [mcCell, if_neg (List.ne_nil_of_mem hm)]
  refine ⟨_, rfl, ?_⟩
  rw [← hcell, hletters, List.cons_append, like.eq_2, List.any_eq_true]
  refine ⟨'"' :: (m.toList ++ '"' :: (w ++ [']'])), ?_, ?_⟩
  · exact (List.mem_tails _ _).2 ⟨'[' :: u, by simp⟩
  · rw [List.cons_append, like_cons (by decide) (by decide) (by decide)]
    refine like_likeEscape ?_
    rw [like_cons (by decide) (by decide) (by decide), like.eq_2, List.any_eq_true]
    exact ⟨[], (List.mem_tails _ _).2 List.nil_suffix, rfl⟩

/-- What the order in which slices are offered goes by. -/
def sliceRank (a : GraphSlice) : ℕᵒᵈ ×ₗ (List ℤ)ᵒᵈ ×ₗ String :=
  toLex (OrderDual.toDual a.artifacts,
    toLex (OrderDual.toDual (mcVersionKey a.mcVersion), a.loader))

theorem sliceOrder_iff {a b : GraphSlice} : sliceOrder a b ↔ sliceRank a ≤ sliceRank b := by
  rw [sliceRank, sliceRank, Prod.Lex.toLex_le_toLex, Prod.Lex.toLex_le_toLex,
    OrderDual.toDual_lt_toDual, OrderDual.toDual_lt_toDual, sliceOrder]
  exact or_congr Iff.rfl (and_congr eq_comm (or_congr Iff.rfl (and_congr eq_comm Iff.rfl)))

theorem mem_sliceWorlds {mc l : String} : (mc, l) ∈ t.sliceWorlds lowercase ↔
    ∃ v ∈ t.versions.rows, ∃ g ∈ t.targets, g.1 = v.1 ∧ g.2 ≠ "any" ∧ mc ∈ v.2.mcVersions ∧
      lowercase g.2 = l := by
  rw [Catalog.sliceWorlds, List.mem_flatMap]
  refine exists_congr fun v => and_congr_right fun _ => ?_
  rw [List.mem_flatMap]
  refine exists_congr fun g => ?_
  rw [List.mem_filter, decide_eq_true_iff, List.mem_map, and_assoc, and_assoc]
  refine and_congr_right fun _ => and_congr_right fun _ => and_congr_right fun _ => ?_
  constructor
  · rintro ⟨m, hm, he⟩
    obtain ⟨rfl, rfl⟩ := Prod.mk.inj he
    exact ⟨hm, rfl⟩
  · rintro ⟨hm, rfl⟩
    exact ⟨mc, hm, rfl⟩

/-- A slice is offered with how often its loader is named. -/
theorem mem_graphSlices {x : GraphSlice} : x ∈ t.graphSlices lowercase ↔
    (x.mcVersion, x.loader) ∈ t.sliceWorlds lowercase ∧
      x.artifacts = (t.sliceWorlds lowercase).count (x.mcVersion, x.loader) := by
  rw [Catalog.graphSlices, List.mem_insertionSort, List.mem_map]
  constructor
  · rintro ⟨w, hw, rfl⟩
    exact ⟨List.mem_dedup.1 hw, rfl⟩
  · rintro ⟨hw, hcount⟩
    refine ⟨(x.mcVersion, x.loader), List.mem_dedup.2 hw, ?_⟩
    rw [← hcount]

/-- What is true of the slices that are offered. -/
structure Offered (t : Catalog) (lowercase : String → String)
    (slices : List GraphSlice) : Prop where
  sorted : slices.Pairwise sliceOrder
  once : slices.Pairwise fun a b => (a.mcVersion, a.loader) ≠ (b.mcVersion, b.loader)
  /-- Whatever a file is for is offered. -/
  every : ∀ v ∈ t.versions.rows, ∀ g ∈ t.targets, g.1 = v.1 → g.2 ≠ "any" →
    ∀ mc ∈ v.2.mcVersions, ∃ x ∈ slices, x.mcVersion = mc ∧ x.loader = lowercase g.2
  /-- In a slice that is offered a mod is shown, unless its game version is escaped in JSON. -/
  opens : ∀ x ∈ slices, 0 < x.artifacts ∧
    (Unescaped x.mcVersion → ∃ m,
      (t.sliceArtifacts (some x.mcVersion) (some x.loader) m).isSome)

end Offered

end Registry

end Smrt
