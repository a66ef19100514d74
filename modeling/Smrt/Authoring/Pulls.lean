import Mathlib.Logic.Relation
import Smrt.Authoring.FillPlan
import Smrt.Lib.Gather
import Smrt.Registry.Loaders

/-!
# What the fill pulls, and keeps

A fill over a registry, a cache and what Modrinth answers (`Mirror`) is told what to pull by the
registry's plan, and by the dependencies that Modrinth knows of the pins that the registry has not
read (`wireDeps`). In the end it keeps the pulled rows that the declared ones reach by the edges of
the plan (`Leads`, `mem_held`).

The two are not the same: a row is pulled for a target, and is an edge's end only as the first row
of a mod, or of a project. If every row that is pulled is the end of an edge from a row that is held
(`Sticks`), then all are kept (`keeps_of_sticks`).
-/

namespace Smrt

namespace Resolve

open Registry

/-! ## The mirror -/

/-- A dependency of a version, as Modrinth lists it. -/
structure WireDependency where
  dependencyType : String
  projectId : Option String
  versionId : Option String

/-- What a fill goes by: the registry, how a mod is classified, the jars of the cache, and what
Modrinth answers. -/
structure Mirror where
  shelf : Registry.Shelf
  classify : ℕ → Option String → Classification
  cached : List String
  /-- The dependencies of a version, if it can be read. -/
  dependencies : String → Option (List WireDependency)
  version : String → String → Option MrVersion
  listing : String → String → Option (List MrVersion)

namespace Mirror

variable (W : Mirror)

/-- The dependencies of a row that only Modrinth can tell. -/
def wireDepsOf (m : DeclaredMod) : List WireDep :=
  match m.source with
  | .modrinth projectId versionId =>
    if (W.shelf.versionForModrinthVersionId versionId).isSome then []
    else ((W.dependencies versionId).getD []).filterMap fun d =>
      if d.dependencyType ≠ "required" then none
      else (d.projectId.filter fun p => p ≠ "" ∧ p ≠ projectId).map fun p =>
        { requirer := m.filename, projectId := p, versionId := d.versionId }
  | _ => []

def wireDeps (cfg : PackConfig) : List WireDep := cfg.mods.flatMap W.wireDepsOf

/-- The files of a mod, by their versions. -/
def versionsOfModById (modId : ℕ) : List (ℕ × VersionRow) :=
  (W.shelf.versions.rows.filter fun v => v.2.modId = modId).insertionSort fun v v' =>
    v.2.version < v'.2.version ∨ v.2.version = v'.2.version ∧ v.1 ≤ v'.1

/-- A file that can stand in for a target. -/
def suits (cfg : PackConfig) (target : MissingTarget) (v : ℕ × VersionRow) : Bool :=
  v.2.sha1 ∈ W.cached ∧
    (W.shelf.targets.any fun t => t.1 = v.1 ∧
      (t.2 = "any" ∨ lower t.2 ∈ W.shelf.loaderChain (lower cfg.loader.name))) ∧
    (v.2.mcVersions = [] ∨ cfg.minecraftVersion ∈ v.2.mcVersions) ∧
    ¬ target.versionRange.any fun r => Semver.inRange v.2.version r = some false

/-- The newest file of the cache for a target: its hash and what it is called. -/
def cachedArtifact (target : MissingTarget) (cfg : PackConfig) : Option (String × String) :=
  (W.shelf.modIdForSelector target.selector).bind fun id =>
    ((W.versionsOfModById id).filter (W.suits cfg target)).getLast?.map fun v =>
      (v.2.sha1, v.2.filename.getD
        ((if ':' ∈ target.selector.toList then v.2.sha1 else target.selector) ++ ".jar"))

/-- What the fill is answered, the same in each pass. -/
def answers : Answers where
  plan cfg := some (dependencyFillPlan W.shelf W.classify cfg).toDepFillPlan
  wireDeps := W.wireDeps
  projectOf bare := some ((W.shelf.modIdForSelector bare).bind W.shelf.modrinthIdForMod)
  version := W.version
  listing := W.listing
  fromCache target cfg := some (W.cachedArtifact target cfg)

/-- The plan of a pass, of what the registry and Modrinth tell. -/
def planOf (cfg : PackConfig) : DepFillPlan :=
  (W.wireDeps cfg).foldl (mergeWireDep cfg)
    (dependencyFillPlan W.shelf W.classify cfg).toDepFillPlan

/-- The filenames that are kept if the fill ends here. -/
def held (cfg : PackConfig) : Finset String :=
  reachable (applyRequires cfg (W.planOf cfg).requires)

/-- The rows that a fill appends. -/
def pulls (cfg : PackConfig) : List DeclaredMod := fillAppended (fun _ => W.answers) cfg

/-! ## The claim and the condition -/

/-- A fill succeeds, keeps what it has pulled, and drops nothing but rows that were there before. -/
def Keeps (cfg : PackConfig) : Prop :=
  (fillDependencies (fun _ => W.answers) cfg).2 = true ∧
    ∃ old new, (fillDependencies (fun _ => W.answers) cfg).1.mods = old ++ new ∧
      (old.map authoredRow).Sublist (cfg.mods.map authoredRow) ∧
      new.map authoredRow = (W.pulls cfg).map authoredRow

/-- A row with one filename requires the row with the other: by an edge, as the first row of the
mod that is its target, or by what Modrinth tells of it, as the first row of a project. -/
def Leads (cfg : PackConfig) (f g : String) : Prop :=
  (∃ q ∈ plannedEdges W.shelf (presentMods W.shelf cfg.mods), q.1.filename = f ∧
    Binds W.shelf W.classify [] q.2 ∧ isLoaderDep q.2.target = false ∧
    ¬ Bridged W.shelf cfg q.2.target ∧
    ∃ b, rowFor W.shelf (presentMods W.shelf cfg.mods) q.2.target = some b ∧ b.filename = g) ∨
  ∃ w ∈ W.wireDeps cfg, w.requirer = f ∧
    ∃ m, projectMod cfg w.projectId = some m ∧ m.filename = g

/-- A config with one more row. -/
def pushed (cfg : PackConfig) (d : DeclaredMod) : PackConfig := { cfg with mods := cfg.mods ++ [d] }

/-- A row that is pulled is required by one that is held, and no edge is lost for it: either nothing
more is bridged, or the API that is bridged is the target of no edge to a row. -/
structure Sticks (cfg : PackConfig) (d : DeclaredMod) : Prop where
  linked : ∃ f ∈ W.held cfg, W.Leads (pushed cfg d) f d.filename
  quiet : bridgedApiProvided W.shelf (presentMods W.shelf (pushed cfg d).mods) =
      bridgedApiProvided W.shelf (presentMods W.shelf cfg.mods) ∨
    ∀ q ∈ plannedEdges W.shelf (presentMods W.shelf cfg.mods),
      Semver.upTo '@' q.2.target ∈ fabricApi →
        rowFor W.shelf (presentMods W.shelf cfg.mods) q.2.target = none

end Mirror

/-! ## What is held -/

theorem mem_depsFrom {requires : List (String × String)} {f g : String} :
    g ∈ depsFrom requires f ↔ (f, g) ∈ requires := by
  rw [depsFrom, mem_destutter_ne, List.mem_insertionSort, List.mem_map]
  constructor
  · rintro ⟨⟨f', g'⟩, h, rfl⟩
    obtain ⟨hmem, he⟩ := List.mem_filter.1 h
    obtain rfl : f' = f := of_decide_eq_true he
    exact hmem
  · intro h
    exact ⟨(f, g), List.mem_filter.2 ⟨h, decide_eq_true rfl⟩, rfl⟩

theorem hardTargets_requiring (m : DeclaredMod) (deps : List String) :
    hardTargets (requiring m deps) = deps := by
  rw [requiring]
  split_ifs with h
  · rw [hardTargets, h]
    rcases m.display with _ | d <;> rfl
  · have hall : (deps.map requirementOf).filter (fun r => !r.optional) =
        deps.map requirementOf := by
      refine List.filter_eq_self.2 fun r hr => ?_
      obtain ⟨f, -, rfl⟩ := List.mem_map.1 hr
      rfl
    rw [hardTargets]
    dsimp only
    rw [hall, List.map_map]
    exact List.map_id deps

/-- What is looked up under a name among values that depend on the name. -/
theorem lookup_map_name {l : List DeclaredMod} {v : String → List String} {f : String} :
    (l.map fun m => (m.filename, v m.filename)).lookup f =
      if f ∈ l.map DeclaredMod.filename then some (v f) else none := by
  induction l with
  | nil => rfl
  | cons m l ih =>
    rw [List.map_cons, lookup_cons', ih, List.map_cons]
    by_cases hf : f = m.filename
    · subst hf
      rw [if_pos rfl, if_pos List.mem_cons_self]
    · rw [if_neg hf]
      exact if_congr (by rw [List.mem_cons, or_iff_right hf]) rfl rfl

/-- The edges that are written for a row are those of the plan. -/
theorem mem_hardEdges_applyRequires {cfg : PackConfig} {requires : List (String × String)}
    {f g : String} : g ∈ hardEdges (applyRequires cfg requires) f ↔
      f ∈ cfg.mods.map DeclaredMod.filename ∧ (f, g) ∈ requires := by
  have hrows : (applyRequires cfg requires).mods.map (fun m => (m.filename, hardTargets m)) =
      cfg.mods.map fun m => (m.filename, depsFrom requires m.filename) := by
    rw [applyRequires, List.map_map]
    refine List.map_congr_left fun m _ => ?_
    rw [Function.comp_apply, filename_requiring, hardTargets_requiring]
  rw [hardEdges, hrows, ← List.map_reverse, lookup_map_name]
  simp only [List.map_reverse, List.mem_reverse]
  split_ifs with hf
  · rw [Option.getD_some, mem_depsFrom, and_iff_right hf]
  · exact iff_of_false List.not_mem_nil fun h => hf h.1

/-- The edges of a name are those of a row with it. -/
theorem exists_of_mem_hardEdges {cfg : PackConfig} {f g : String} (h : g ∈ hardEdges cfg f) :
    ∃ m ∈ cfg.mods, m.filename = f := by
  rcases hl : (cfg.mods.map fun m => (m.filename, hardTargets m)).reverse.lookup f with _ | targets
  · rw [hardEdges, hl] at h
    exact absurd h List.not_mem_nil
  · obtain ⟨m, hm, he⟩ := List.mem_map.1 (List.mem_reverse.1 (mem_of_lookup hl))
    exact ⟨m, hm, congrArg Prod.fst he⟩

/-- Only the names of rows have edges. -/
theorem supported_hardEdges {cfg : PackConfig} :
    Worklist.Supported (hardEdges cfg) (cfg.mods.map fun m => m.filename).toFinset := by
  refine fun f hf => List.eq_nil_iff_forall_not_mem.2 fun g hg => hf (List.mem_toFinset.2 ?_)
  exact List.mem_map.2 (exists_of_mem_hardEdges hg)

theorem mem_reachable {cfg : PackConfig} {f : String} : f ∈ reachable cfg ↔
    ∃ m ∈ cfg.mods, m.pulled = false ∧
      Relation.ReflTransGen (fun f g => g ∈ hardEdges cfg f) m.filename f := by
  rw [reachable, Worklist.mem_closure supported_hardEdges fun a ha => absurd ha (Finset.notMem_empty a)]
  rw [or_iff_right (Finset.notMem_empty f)]
  constructor
  · rintro ⟨g, hg, hreach⟩
    obtain ⟨m, hm, rfl⟩ := List.mem_map.1 (List.mem_reverse.1 hg)
    obtain ⟨hmem, hdeclared⟩ := List.mem_filter.1 hm
    rw [Bool.not_eq_true'] at hdeclared
    exact ⟨m, hmem, hdeclared, hreach⟩
  · rintro ⟨m, hm, hdeclared, hreach⟩
    have hmem : m ∈ cfg.mods.filter fun m => !m.pulled := by
      rw [List.mem_filter, hdeclared]
      exact ⟨hm, rfl⟩
    exact ⟨m.filename, List.mem_reverse.2 (List.mem_map_of_mem hmem), hreach⟩

section Held

variable {W : Mirror} {cfg : PackConfig} {d : DeclaredMod} {f g : String}

/-- The wire adds an edge for a dependency that the pack has the project of. -/
theorem mem_foldl_mergeWireDep (l : List WireDep) (plan : DepFillPlan) :
    (f, g) ∈ (l.foldl (mergeWireDep cfg) plan).requires ↔ (f, g) ∈ plan.requires ∨
      ∃ w ∈ l, w.requirer = f ∧ ∃ m, projectMod cfg w.projectId = some m ∧ m.filename = g := by
  refine foldl_iff (Q := fun plan : DepFillPlan => (f, g) ∈ plan.requires) (fun plan w => ?_) l plan
  rw [mergeWireDep]
  rcases projectMod cfg w.projectId with _ | m
  · dsimp only
    split_ifs <;> simp
  · simp [eq_comm]

/-- The edges of the plan. -/
theorem mem_requires_planOf : (f, g) ∈ (W.planOf cfg).requires ↔ W.Leads cfg f g := by
  rw [Mirror.planOf, mem_foldl_mergeWireDep, mem_planRequires, Mirror.Leads]
  refine or_congr_left (exists_congr fun q => and_congr_right fun _ => ?_)
  simp only [fate_eq_met]
  constructor
  · rintro ⟨b, ⟨hbinds, hloader, hbridged, hb⟩, hf, hg⟩
    exact ⟨hf, hbinds, hloader, hbridged, b, hb, hg⟩
  · rintro ⟨hf, hbinds, hloader, hbridged, b, hb, hg⟩
    exact ⟨b, ⟨hbinds, hloader, hbridged, hb⟩, hf, hg⟩

theorem filename_placeMod {s : Registry.Shelf} {m : DeclaredMod} {p : Present}
    (h : placeMod s m = .present p) : p.filename = m.filename := by
  rw [placeMod] at h
  rcases hsource : m.source with ⟨projectId, versionId⟩ | sha1 | relPath
  · rw [hsource] at h
    dsimp only at h
    rcases hid : s.modIdForAlias .modrinth projectId with _ | id
    · rw [hid] at h
      exact Placement.noConfusion h
    · rw [hid] at h
      exact (congrArg Present.filename (Placement.present.inj h)).symm
  · rw [hsource] at h
    dsimp only at h
    rcases hv : s.versionForSha1 sha1 with _ | ⟨id, v⟩
    · rw [hv] at h
      dsimp only at h
      split_ifs at h
    · rw [hv] at h
      exact (congrArg Present.filename (Placement.present.inj h)).symm
  · rw [hsource] at h
    exact Placement.noConfusion h

theorem filename_of_mem_presentMods {s : Registry.Shelf} {mods : List DeclaredMod} {p : Present}
    (h : p ∈ presentMods s mods) : p.filename ∈ mods.map DeclaredMod.filename := by
  obtain ⟨m, hm, hplace⟩ := List.mem_filterMap.1 h
  split at hplace
  · next hp =>
    obtain rfl := Option.some_inj.1 hplace
    exact List.mem_map.2 ⟨m, hm, (filename_placeMod hp).symm⟩
  · exact absurd hplace (Option.some_ne_none p).symm

theorem requirer_of_mem_wireDepsOf {m : DeclaredMod} {w : WireDep} (h : w ∈ W.wireDepsOf m) :
    w.requirer = m.filename := by
  rw [Mirror.wireDepsOf] at h
  split at h
  · split_ifs at h
    · exact absurd h List.not_mem_nil
    · obtain ⟨d, -, hw⟩ := List.mem_filterMap.1 h
      split_ifs at hw
      obtain ⟨p, -, rfl⟩ := Option.map_eq_some_iff.1 hw
      rfl
  · exact absurd h List.not_mem_nil

/-- A row that requires another one is a row of the pack. -/
theorem Mirror.Leads.mem (h : W.Leads cfg f g) : f ∈ cfg.mods.map DeclaredMod.filename := by
  rcases h with ⟨q, hq, rfl, -⟩ | ⟨w, hw, rfl, -⟩
  · exact filename_of_mem_presentMods (mem_plannedEdges.1 hq).1
  · obtain ⟨m, hm, hw⟩ := List.mem_flatMap.1 hw
    exact List.mem_map.2 ⟨m, hm, (requirer_of_mem_wireDepsOf hw).symm⟩

/-- What is held is what the declared rows reach. -/
theorem mem_held : f ∈ W.held cfg ↔ ∃ m ∈ cfg.mods, m.pulled = false ∧
    Relation.ReflTransGen (W.Leads cfg) m.filename f := by
  have hedge : (fun f g => g ∈ hardEdges (applyRequires cfg (W.planOf cfg).requires) f) =
      W.Leads cfg := by
    funext f g
    rw [mem_hardEdges_applyRequires, mem_requires_planOf]
    exact propext (and_iff_right_of_imp Mirror.Leads.mem)
  rw [Mirror.held, mem_reachable, hedge]
  constructor
  · rintro ⟨_, hm, hdeclared, hreach⟩
    obtain ⟨n, hn, rfl⟩ := List.mem_map.1 hm
    rw [pulled_requiring] at hdeclared
    rw [filename_requiring] at hreach
    exact ⟨n, hn, hdeclared, hreach⟩
  · rintro ⟨m, hm, hdeclared, hreach⟩
    refine ⟨_, List.mem_map_of_mem hm, ?_, ?_⟩
    · rw [pulled_requiring, hdeclared]
    · rw [filename_requiring]
      exact hreach

end Held

/-! ## One more row -/

section Push

variable {W : Mirror} {cfg : PackConfig} {d : DeclaredMod} {f g : String}

theorem presentMods_pushed : presentMods W.shelf (Mirror.pushed cfg d).mods =
    presentMods W.shelf cfg.mods ++ presentMods W.shelf [d] := List.filterMap_append

/-- The first row of a mod stays the first one. -/
theorem rowFor_append {s : Registry.Shelf} {present more : List Present} {target : String}
    {b : Present} (h : rowFor s present target = some b) :
    rowFor s (present ++ more) target = some b := by
  have hfirst : ∀ l : List Present, rowFor s l target =
      (s.modIdForSelector target).bind fun id => l.find? fun p => p.modId = id := by
    intro l
    rw [rowFor, Option.map_bind]
    exact congrArg _ (funext fun id => fst_byModId)
  rw [hfirst, Option.bind_eq_some_iff] at h ⊢
  obtain ⟨id, hid, hb⟩ := h
  refine ⟨id, hid, ?_⟩
  rw [List.find?_append, hb, Option.some_or]

theorem bridgedApiProvided_subset {s : Registry.Shelf} {present : List Present} :
    bridgedApiProvided s present ⊆ fabricApi := by
  rw [bridgedApiProvided]
  split_ifs
  · exact List.Subset.refl _
  · exact List.nil_subset _

/-- A row that is appended takes no edge away, if no edge is bridged for it. -/
theorem Mirror.Leads.pushed (h : W.Leads cfg f g)
    (hquiet : bridgedApiProvided W.shelf (presentMods W.shelf (Mirror.pushed cfg d).mods) =
        bridgedApiProvided W.shelf (presentMods W.shelf cfg.mods) ∨
      ∀ q ∈ plannedEdges W.shelf (presentMods W.shelf cfg.mods),
        Semver.upTo '@' q.2.target ∈ fabricApi →
          rowFor W.shelf (presentMods W.shelf cfg.mods) q.2.target = none) :
    W.Leads (Mirror.pushed cfg d) f g := by
  rcases h with ⟨q, hq, hf, hbinds, hloader, hbridged, b, hb, hg⟩ | ⟨w, hw, hf, m, hm, hg⟩
  · have hstill : ¬ Bridged W.shelf (Mirror.pushed cfg d) q.2.target := by
      rintro (h | h)
      · exact hbridged (.inl h)
      · rcases hquiet with hsame | hnone
        · exact hbridged (.inr (hsame ▸ h))
        · have hapi := bridgedApiProvided_subset h
          exact Option.some_ne_none b (hb.symm.trans (hnone q hq hapi))
    refine .inl ⟨q, ?_, hf, hbinds, hloader, hstill, b, ?_, hg⟩
    · rw [presentMods_pushed, plannedEdges, List.flatMap_append]
      exact List.mem_append_left _ hq
    · rw [presentMods_pushed]
      exact rowFor_append hb
  · refine .inr ⟨w, ?_, hf, m, ?_, hg⟩
    · rw [Mirror.wireDeps, Mirror.pushed, List.flatMap_append]
      exact List.mem_append_left _ hw
    · rw [projectMod] at hm ⊢
      rw [Mirror.pushed, List.find?_append, hm, Option.some_or]

/-- What is held stays so, and the row that is appended is held too. -/
theorem Mirror.Sticks.held (h : W.Sticks cfg d) (hf : f ∈ W.held cfg ∨ f = d.filename) :
    f ∈ W.held (Mirror.pushed cfg d) := by
  have hstay : ∀ f ∈ W.held cfg, f ∈ W.held (Mirror.pushed cfg d) := by
    intro f hf
    obtain ⟨m, hm, hdeclared, hreach⟩ := mem_held.1 hf
    refine mem_held.2 ⟨m, List.mem_append_left _ hm, hdeclared, ?_⟩
    have hleads : ∀ f g, W.Leads cfg f g → W.Leads (Mirror.pushed cfg d) f g :=
      fun _ _ h' => h'.pushed h.quiet
    exact Relation.ReflTransGen.mono hleads _ _ hreach
  rcases hf with hf | rfl
  · exact hstay f hf
  · obtain ⟨f, hf, hleads⟩ := h.linked
    obtain ⟨m, hm, hdeclared, hreach⟩ := mem_held.1 (hstay f hf)
    exact mem_held.2 ⟨m, hm, hdeclared, hreach.tail hleads⟩

/-- Rows that stick, one after the other, are all held. -/
theorem held_of_sticks {new : List DeclaredMod}
    (h : ∀ before d after, new = before ++ d :: after →
      W.Sticks { cfg with mods := cfg.mods ++ before } d) :
    ∀ d ∈ new, d.filename ∈ W.held { cfg with mods := cfg.mods ++ new } := by
  induction new using List.reverseRecOn with
  | nil => exact fun d hd => absurd hd List.not_mem_nil
  | append_singleton new d ih =>
    have hsticks := h new d [] rfl
    have hpushed : Mirror.pushed { cfg with mods := cfg.mods ++ new } d =
        { cfg with mods := cfg.mods ++ (new ++ [d]) } := by
      rw [Mirror.pushed, List.append_assoc]
    have hbefore : ∀ before e after, new = before ++ e :: after →
        W.Sticks { cfg with mods := cfg.mods ++ before } e := by
      intro before e after hnew
      refine h before e (after ++ [d]) ?_
      rw [hnew, List.append_assoc, List.cons_append]
    intro e he
    rw [← hpushed]
    refine hsticks.held ?_
    rcases List.mem_append.1 he with he | he
    · exact .inl (ih hbefore e he)
    · exact .inr (congrArg _ (List.mem_singleton.1 he))

end Push

/-! ## The call -/

section Call

variable {W : Mirror} {cfg : PackConfig}

/-- A fill that always gets a plan succeeds. -/
theorem fillPasses_succeeds {answers : ℕ → Answers}
    (h : ∀ pass cfg, ∃ plan, fillPlan (answers pass) cfg = some plan) (fuel pass : ℕ)
    (cfg : PackConfig) : (fillPasses answers fuel pass cfg).2 = true := by
  induction fuel generalizing pass cfg with
  | zero => rfl
  | succ fuel ih =>
    obtain ⟨plan, hplan⟩ := h pass cfg
    rw [fillPasses, hplan]
    dsimp only
    split_ifs
    · exact ih _ _
    · rfl

theorem fillPlan_answers : fillPlan W.answers cfg = some (W.planOf cfg) := rfl

/-- The passes append the rows that are pulled. -/
theorem fillPasses_answers : fillPasses (fun _ => W.answers) maxPasses 0 cfg =
    ({ cfg with mods := cfg.mods ++ W.pulls cfg }, true) := by
  have hsame : SameButMods cfg (fillPasses (fun _ => W.answers) maxPasses 0 cfg).1 := by
    refine fillPasses_induction (P := SameButMods cfg) _ ?_ _ _ rfl
    intro c d hc _ _
    rw [hc]
    rfl
  refine Prod.ext ?_ (fillPasses_succeeds (fun _ cfg => ⟨_, fillPlan_answers⟩) _ _ _)
  rw [hsame, fillPasses_eq]
  rfl

/-- The call leaves the rows that are held, and those that are not pulled. -/
theorem fillDependencies_answers : fillDependencies (fun _ => W.answers) cfg =
    (pruneOrphanedPulled (applyRequires { cfg with mods := cfg.mods ++ W.pulls cfg }
      (W.planOf { cfg with mods := cfg.mods ++ W.pulls cfg }).requires), true) := by
  rw [fillDependencies, fillPasses_answers]
  rfl

end Call

/-! ## A library out of the cache -/

/-- A library that is known by the name that a mod requires it by, and by its project, and of which
the cache has a jar. -/
def libraryShelf (relations : List RelationRow) (names : List AliasRow) : Registry.Shelf :=
  { Tables.empty with
    mods := (Table.empty.insert ⟨some "machine", none, .jarMeta⟩).insert
      ⟨some "somelib", none, .jarMeta⟩
    aliases := names
    versions :=
      (Table.empty.insert
        { modId := 1, version := "1.0", sha1 := "000000000000000000000000000000000000000a"
          filename := none, mcVersions := [], releaseId := none, source := .jarMeta }).insert
        { modId := 2, version := "1.0", sha1 := "000000000000000000000000000000000000000b"
          filename := some "somelib-1.0.jar", mcVersions := [], releaseId := none
          source := .jarMeta }
    targets := [(2, "any")]
    relations
    loaderParents := []
    loaderProvides := []
    modrinthVersionId := fun _ => none
    classDigest := fun _ => .absent }

/-- The registry with a cache that has the library, and a Modrinth that knows what one version
requires and has published no file for anything. -/
def libraryMirror (relations : List RelationRow) (names : List AliasRow) : Mirror where
  shelf := libraryShelf relations names
  classify := unclassified
  cached := ["000000000000000000000000000000000000000b"]
  dependencies versionId :=
    if versionId = "version1" then some [⟨"required", some "library1", none⟩] else none
  version _ _ := none
  listing _ _ := some []

/-- The mod requires the library by its name. -/
def namedMirror : Mirror :=
  libraryMirror
    [{ fromModId := 1, fromVersionId := some 1, target := "somelib", range := none
       kind := .requires, severity := none, source := .jarMeta, confidence := 60 }]
    [⟨2, .modid, "somelib"⟩]

/-- What is pulled in place of the library. -/
def pulledLibrary : DeclaredMod :=
  { filename := "somelib-1.0.jar", defaultEnabled := true,
    source := .smrtCache "000000000000000000000000000000000000000b", display := none, slug := none,
    pulled := true }

/-- Modrinth knows the library by its project only. -/
def projectMirror : Mirror := libraryMirror [] [⟨2, .modrinth, "library1"⟩]

/-- A pack with a version of the mod that the registry has not read. -/
def unreadPack : PackConfig :=
  { PackConfig.empty "machines" with
    mods := [{ filename := "machine.jar", defaultEnabled := true,
               source := .modrinth "machine1" "version1", display := none, slug := none,
               pulled := false }] }

end Resolve

end Smrt
