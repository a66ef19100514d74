import Mathlib.Data.List.Destutter
import Mathlib.Data.List.Sort
import Mathlib.Data.String.Basic
import Smrt.Lib.Worklist
import Smrt.Domain.Pack

/-!
# The dependency fill

What a save does to the mods of a config on its own account:

* `mergePulled`: the pulled mods of the stored config that a save lacks are carried
  over;
* `fillDependencies`: a few passes that append what the mods hard-require and the pack
  lacks, from Modrinth or from the mirror's cache (`resolveTarget`); then every
  `display.requires` is overwritten with the edges among the mods (`applyRequires`), and
  the pulled mods that no declared one reaches are dropped (`pruneOrphanedPulled`).

The registry, Modrinth and the cache are outside: what they answer in each pass
(`Answers`) is a parameter, and any of them may fail. The fill works on the config in
place, so that one that fails keeps what it appended.

Proved for all their answers: nothing but the mods changes
(`sameButMods_fillDependencies`), and of these only what the fill manages
(`authoredRows_fillDependencies`); and distinct rows stay distinct
(`distinctMods_mergePulled`, `distinctMods_fillDependencies`).
-/

namespace Smrt

/-! ## Pulled mods -/

/-- What identifies the artifact of a pulled mod across saves. -/
def sourceIdentity : SourceDecl → String
  | .modrinth projectId _ => "m:" ++ projectId
  | .smrtCache sha1 => "c:" ++ sha1
  | .smrtStatic relPath => "s:" ++ relPath

/-- This identity too is a name of the artifact. -/
theorem sourceIdentity_eq_iff (s t : SourceDecl) :
    sourceIdentity s = sourceIdentity t ↔ s.artifact = t.artifact :=
  artifact_eq_iff (fun _ _ => rfl) (fun _ => rfl) (fun _ => rfl) (by decide) (by decide)
    (by decide) s t

/-- An identity is no filename. -/
theorem sourceIdentity_ne (s : SourceDecl) (filename : String) :
    sourceIdentity s ≠ "f:" ++ filename := by
  cases s <;> exact append_ne_append (by decide) _ _

/-- The identities and the filenames that a config declares. -/
def presentKeys (cfg : PackConfig) : List String :=
  cfg.mods.flatMap fun m => [sourceIdentity m.source, "f:" ++ m.filename]

/-- The incoming config, with the pulled mods of the saved one that it lacks. -/
def mergePulled (saved incoming : PackConfig) : PackConfig :=
  { incoming with
    mods := incoming.mods ++ (saved.mods.filter fun m => m.pulled).filter fun m =>
      sourceIdentity m.source ∉ presentKeys incoming ∧
        ("f:" ++ m.filename) ∉ presentKeys incoming }

/-! ## The plan -/

/-- A hard dependency that no mod of the pack satisfies. -/
structure MissingTarget where
  selector : String
  versionRange : Option String
  pinnedVersion : Option String

/-- The hard dependencies of the mods: the missing ones, and the edges among the mods. -/
structure DepFillPlan where
  missing : List MissingTarget
  requires : List (String × String)

/-- A hard dependency that a Modrinth version declares. -/
structure WireDep where
  requirer : String
  projectId : String
  versionId : Option String

/-- A version as Modrinth lists it, with the filename of its primary file if it has one. -/
structure MrVersion where
  id : String
  loaders : List String
  primaryFile : Option String

/-- What the outside answers during one pass of the fill. -/
structure Answers where
  /-- The plan of the registry. -/
  plan : PackConfig → Option DepFillPlan
  /-- The dependencies of the pins that the registry has not read. -/
  wireDeps : PackConfig → List WireDep
  /-- The Modrinth project of a selector, if it has one. -/
  projectOf : String → Option (Option String)
  /-- A version of a project. -/
  version : String → String → Option MrVersion
  /-- The versions of a project for a Minecraft version. -/
  listing : String → String → Option (List MrVersion)
  /-- The newest suitable jar of the cache: its hash and its filename. -/
  fromCache : MissingTarget → PackConfig → Option (Option (String × String))

/-- An outside that is down: every question fails. -/
def Answers.down : Answers where
  plan := fun _ => none
  wireDeps := fun _ => []
  projectOf := fun _ => none
  version := fun _ _ => none
  listing := fun _ _ => none
  fromCache := fun _ _ => none

/-- The first mod that declares a Modrinth project. -/
def projectMod (cfg : PackConfig) (projectId : String) : Option DeclaredMod :=
  cfg.mods.find? fun m => match m.source with
    | .modrinth p _ => p = projectId
    | _ => false

/-- One wire dependency folded into the plan: an edge, if the pack has its target, and
    otherwise a target to pull, unless one with its selector is there already. -/
def mergeWireDep (cfg : PackConfig) (plan : DepFillPlan) (d : WireDep) : DepFillPlan :=
  match projectMod cfg d.projectId with
  | some present => { plan with requires := plan.requires ++ [(d.requirer, present.filename)] }
  | none =>
    let selector := "modrinth:" ++ d.projectId
    if plan.missing.any fun t => t.selector = selector then plan
    else { plan with
      missing := plan.missing ++
        [{ selector, versionRange := none, pinnedVersion := d.versionId }] }

/-- The plan of a pass. -/
def fillPlan (a : Answers) (cfg : PackConfig) : Option DepFillPlan :=
  (a.plan cfg).map fun plan => (a.wireDeps cfg).foldl (mergeWireDep cfg) plan

/-! ## Resolving a target -/

/-- A version that can be declared: it runs on the loader, and it has a file. -/
def usable (v : MrVersion) (loader : String) : Bool :=
  (v.loaders.any fun l => l.toLower = loader) && v.primaryFile.isSome

/-- A version as a pulled mod. -/
def pulledFromVersion (project : String) (v : MrVersion) : DeclaredMod where
  filename := v.primaryFile.getD (project ++ ".jar")
  defaultEnabled := true
  source := .modrinth project v.id
  display := none
  slug := none
  pulled := true

/-- A jar of the cache as a pulled mod. -/
def pulledFromCache (jar : String × String) : DeclaredMod where
  filename := jar.2
  defaultEnabled := true
  source := .smrtCache jar.1
  display := none
  slug := none
  pulled := true

/-- The rest of a string after its beginning `p`, if it has it. -/
def tailAfter (p s : String) : Option String :=
  if p.toList <+: s.toList then some (String.ofList (s.toList.drop p.length)) else none

/-- The Modrinth project of a selector, without what follows its `@`. -/
def targetProject (a : Answers) (bare : String) : Option (Option String) :=
  match tailAfter "modrinth:" bare with
  | some project => some (some project)
  | none => a.projectOf bare

/-- A target from the mirror's own cache. -/
def resolveFromCache (a : Answers) (cfg : PackConfig) (target : MissingTarget) :
    Option (Option DeclaredMod) :=
  (a.fromCache target cfg).map fun jar => jar.map pulledFromCache

/-- A target that is the project of a selector: in the pinned version if it is usable, in
    the newest usable one otherwise, and else from the cache. -/
def resolveFromProject (a : Answers) (cfg : PackConfig) (target : MissingTarget)
    (project : String) : Option (Option DeclaredMod) :=
  let loader := cfg.loader.name.toLower
  match (target.pinnedVersion.bind (a.version project)).filter fun v => usable v loader with
  | some v => some (some (pulledFromVersion project v))
  | none => (a.listing project cfg.minecraftVersion).bind fun listing =>
    match listing.find? fun v => usable v loader with
    | some v => some (some (pulledFromVersion project v))
    | none => resolveFromCache a cfg target

/-- A target as a mod to declare, if there is one. -/
def resolveTarget (a : Answers) (cfg : PackConfig) (target : MissingTarget) :
    Option (Option DeclaredMod) :=
  let bare := String.ofList (target.selector.toList.takeWhile fun c => c ≠ '@')
  if (tailAfter "external:" bare).isSome then some none
  else (targetProject a bare).bind fun project =>
    match project with
    | some project => resolveFromProject a cfg target project
    | none => resolveFromCache a cfg target

/-- Whether a pulled mod is in the pack already: its filename is taken, or its artifact
    is declared. -/
def alreadyPresent (cfg : PackConfig) (decl : DeclaredMod) : Bool :=
  (cfg.mods.any fun m => m.filename = decl.filename) ||
    match decl.source with
    | .modrinth projectId _ => cfg.mods.any fun m => match m.source with
      | .modrinth p _ => p = projectId
      | _ => false
    | .smrtCache sha1 => cfg.mods.any fun m => match m.source with
      | .smrtCache s => s = sha1
      | _ => false
    | .smrtStatic _ => false

/-! ## The fill -/

/-- A dependency chain that is deeper than this is a resolution loop. -/
def maxPasses : ℕ := 8

/-- One target of a pass, and whether the pass appended something so far. -/
def fillTarget (a : Answers) (s : PackConfig × Bool) (target : MissingTarget) :
    PackConfig × Bool :=
  match resolveTarget a s.1 target with
  | some (some decl) =>
    if alreadyPresent s.1 decl then s else ({ s.1 with mods := s.1.mods ++ [decl] }, true)
  | _ => s

/-- The passes, at most as many as there is fuel, until one appends nothing; and whether
    none of them failed. -/
def fillPasses (answers : ℕ → Answers) : ℕ → ℕ → PackConfig → PackConfig × Bool
  | 0, _, cfg => (cfg, true)
  | fuel + 1, pass, cfg =>
    match fillPlan (answers pass) cfg with
    | none => (cfg, false)
    | some plan =>
      let s := plan.missing.foldl (fillTarget (answers pass)) (cfg, false)
      if s.2 then fillPasses answers fuel (pass + 1) s.1 else (s.1, true)

/-- The requirement of the present mod with a filename. -/
def requirementOf (filename : String) : Requirement where
  filename
  versionRange := none
  optional := false

/-- The edges from a filename: sorted, each once. -/
def depsFrom (requires : List (String × String)) (filename : String) : List String :=
  (((requires.filter fun e => e.1 = filename).map fun e => e.2).insertionSort (· ≤ ·)).destutter
    (· ≠ ·)

/-- A mod with its requirements overwritten; no display block is made to hold none. -/
def requiring (m : DeclaredMod) (deps : List String) : DeclaredMod :=
  if deps = [] then { m with display := m.display.map fun d => { d with requires := [] } }
  else { m with
    display := some { m.display.getD .default with requires := deps.map requirementOf } }

/-- The config with its `display.requires` overwritten with the edges. -/
def applyRequires (cfg : PackConfig) (requires : List (String × String)) : PackConfig :=
  { cfg with mods := cfg.mods.map fun m => requiring m (depsFrom requires m.filename) }

/-- The filenames that a mod hard-requires. -/
def hardTargets (m : DeclaredMod) : List String :=
  match m.display with
  | some d => (d.requires.filter fun r => !r.optional).map fun r => r.filename
  | none => []

/-- What the mod of a filename hard-requires: the last one, should several have it. -/
def hardEdges (cfg : PackConfig) (filename : String) : List String :=
  ((cfg.mods.map fun m => (m.filename, hardTargets m)).reverse.lookup filename).getD []

/-- The filenames that the declared mods reach through hard requirements. -/
def reachable (cfg : PackConfig) : Finset String :=
  Worklist.closure (hardEdges cfg) (cfg.mods.map fun m => m.filename).toFinset ∅
    ((cfg.mods.filter fun m => !m.pulled).map fun m => m.filename).reverse

/-- The config without the pulled mods that nothing declared reaches. -/
def pruneOrphanedPulled (cfg : PackConfig) : PackConfig :=
  { cfg with mods := cfg.mods.filter fun m => !m.pulled || m.filename ∈ reachable cfg }

/-- The filled config, and whether the fill succeeded; one that fails keeps what it
    appended. -/
def fillDependencies (answers : ℕ → Answers) (cfg : PackConfig) : PackConfig × Bool :=
  let s := fillPasses answers maxPasses 0 cfg
  if s.2 then
    match fillPlan (answers maxPasses) s.1 with
    | some plan => (pruneOrphanedPulled (applyRequires s.1 plan.requires), true)
    | none => (s.1, false)
  else s

/-! ## Induction along the fill -/

section Induction

variable {a : Answers} {cfg : PackConfig}

theorem mem_presentKeys_sourceIdentity {source : SourceDecl} :
    sourceIdentity source ∈ presentKeys cfg ↔
      ∃ m ∈ cfg.mods, source.artifact = m.source.artifact := by
  simp only [presentKeys, List.mem_flatMap, List.mem_cons, List.not_mem_nil, or_false,
    sourceIdentity_ne, sourceIdentity_eq_iff]

theorem mem_presentKeys_filename {filename : String} :
    "f:" ++ filename ∈ presentKeys cfg ↔ ∃ m ∈ cfg.mods, filename = m.filename := by
  simp only [presentKeys, List.mem_flatMap, List.mem_cons, List.not_mem_nil, or_false,
    (sourceIdentity_ne _ _).symm, false_or, String.append_right_inj]

/-- A mod the fill declares: a pulled one, from Modrinth or from the cache. -/
structure Pulled (m : DeclaredMod) : Prop where
  pulled : m.pulled = true
  source : ∀ relPath, m.source ≠ .smrtStatic relPath

theorem pulled_pulledFromVersion (project : String) (v : MrVersion) :
    Pulled (pulledFromVersion project v) := ⟨rfl, fun _ => SourceDecl.noConfusion⟩

theorem pulled_pulledFromCache (jar : String × String) : Pulled (pulledFromCache jar) :=
  ⟨rfl, fun _ => SourceDecl.noConfusion⟩

theorem pulled_resolveFromCache {target : MissingTarget} {decl : DeclaredMod}
    (h : resolveFromCache a cfg target = some (some decl)) : Pulled decl := by
  obtain ⟨jar, _, hj⟩ := Option.map_eq_some_iff.1 h
  obtain ⟨j, _, rfl⟩ := Option.map_eq_some_iff.1 hj
  exact pulled_pulledFromCache j

theorem pulled_resolveFromProject {target : MissingTarget} {project : String} {decl : DeclaredMod}
    (h : resolveFromProject a cfg target project = some (some decl)) : Pulled decl := by
  unfold resolveFromProject at h
  simp only at h
  split at h
  · cases h
    exact pulled_pulledFromVersion _ _
  · obtain ⟨listing, _, h⟩ := Option.bind_eq_some_iff.1 h
    split at h
    · cases h
      exact pulled_pulledFromVersion _ _
    · exact pulled_resolveFromCache h

/-- What a target resolves to is a pulled mod. -/
theorem pulled_resolveTarget {target : MissingTarget} {decl : DeclaredMod}
    (h : resolveTarget a cfg target = some (some decl)) : Pulled decl := by
  unfold resolveTarget at h
  simp only at h
  split_ifs at h
  · cases h
  · obtain ⟨project, _, h⟩ := Option.bind_eq_some_iff.1 h
    cases project with
    | some project => exact pulled_resolveFromProject h
    | none => exact pulled_resolveFromCache h

/-- A mod that is not in the pack: another artifact, under another filename. -/
theorem of_not_alreadyPresent {decl : DeclaredMod} (hs : Pulled decl)
    (h : alreadyPresent cfg decl = false) :
    ∀ m ∈ cfg.mods, m.filename ≠ decl.filename ∧ m.source.artifact ≠ decl.source.artifact := by
  intro m hm
  rw [alreadyPresent, Bool.or_eq_false_iff] at h
  refine ⟨by simpa using List.any_eq_false.1 h.1 m hm, fun ha => ?_⟩
  cases hd : decl.source with
  | smrtStatic relPath => exact hs.source relPath hd
  | modrinth p v =>
    rw [hd] at h ha
    have := List.any_eq_false.1 h.2 m hm
    cases hms : m.source <;> simp_all [SourceDecl.artifact]
  | smrtCache sha1 =>
    rw [hd] at h ha
    have := List.any_eq_false.1 h.2 m hm
    cases hms : m.source <;> simp_all [SourceDecl.artifact]

variable {P : PackConfig → Prop}

/-- What appending a pulled mod that is not in the pack preserves, a pass preserves. -/
theorem fillTargets_induction (a : Answers)
    (push : ∀ c d, P c → Pulled d → alreadyPresent c d = false →
      P { c with mods := c.mods ++ [d] })
    (targets : List MissingTarget) (s : PackConfig × Bool) (h : P s.1) :
    P (targets.foldl (fillTarget a) s).1 := by
  induction targets generalizing s with
  | nil => exact h
  | cons t targets ih =>
    refine ih _ ?_
    unfold fillTarget
    split
    · next decl hd =>
      split
      · exact h
      · next hp => exact push _ _ h (pulled_resolveTarget hd) (by simpa using hp)
    · exact h

theorem fillPasses_induction (answers : ℕ → Answers)
    (push : ∀ c d, P c → Pulled d → alreadyPresent c d = false →
      P { c with mods := c.mods ++ [d] })
    (fuel pass : ℕ) (h : P cfg) : P (fillPasses answers fuel pass cfg).1 := by
  induction fuel generalizing pass cfg with
  | zero => exact h
  | succ fuel ih =>
    rw [fillPasses]
    split
    · exact h
    · next plan _ =>
      have hp := fillTargets_induction (answers pass) push plan.missing (cfg, false) h
      simp only
      split
      · exact ih _ hp
      · exact hp

/-- Induction along the fill: what appending a pulled mod that is not in the pack,
    overwriting the requirements, and dropping the orphans preserve. -/
theorem fillDependencies_induction (answers : ℕ → Answers)
    (push : ∀ c d, P c → Pulled d → alreadyPresent c d = false →
      P { c with mods := c.mods ++ [d] })
    (requires : ∀ c r, P c → P (applyRequires c r)) (prune : ∀ c, P c → P (pruneOrphanedPulled c))
    (h : P cfg) : P (fillDependencies answers cfg).1 := by
  have hp := fillPasses_induction answers push maxPasses 0 h
  unfold fillDependencies
  simp only
  split
  · split
    · exact prune _ (requires _ _ hp)
    · exact hp
  · exact hp

end Induction

/-! ## What the fill appends -/

/-- The rows that the fill appends. -/
def fillAppended (answers : ℕ → Answers) (cfg : PackConfig) : List DeclaredMod :=
  (fillPasses answers maxPasses 0 cfg).1.mods.drop cfg.mods.length

theorem fillPasses_eq (answers : ℕ → Answers) {cfg : PackConfig} :
    (fillPasses answers maxPasses 0 cfg).1.mods = cfg.mods ++ fillAppended answers cfg := by
  have hpre : cfg.mods <+: (fillPasses answers maxPasses 0 cfg).1.mods := by
    refine fillPasses_induction (P := fun c => cfg.mods <+: c.mods) answers ?_ _ _
      (List.prefix_refl _)
    exact fun c d hc _ _ => hc.trans (List.prefix_append _ _)
  exact (List.prefix_iff_eq_append.1 hpre).symm

/-! ## What the fill leaves alone -/

section Frame

variable {saved incoming cfg : PackConfig}

/-- Two configs that differ in their mods at most. -/
def SameButMods (c c' : PackConfig) : Prop := c' = { c with mods := c'.mods }

theorem sameButMods_mergePulled : SameButMods incoming (mergePulled saved incoming) := rfl

/-- The fill changes nothing but the mods. -/
theorem sameButMods_fillDependencies (answers : ℕ → Answers) :
    SameButMods cfg (fillDependencies answers cfg).1 := by
  refine fillDependencies_induction answers (P := SameButMods cfg) ?_ ?_ ?_ rfl
  · intro c d hc _ _
    rw [hc]
    rfl
  · intro c r hc
    rw [hc]
    rfl
  · intro c hc
    rw [hc]
    rfl

/-- A mod as its authors declare it: its requirements are the fill's. -/
def authoredRow (m : DeclaredMod) : DeclaredMod :=
  { m with display := some { m.display.getD .default with requires := [] } }

/-- The declared mods, as their authors declare them. -/
def authoredRows (mods : List DeclaredMod) : List DeclaredMod :=
  (mods.filter fun m => !m.pulled).map authoredRow

theorem authoredRows_append_pulled {mods pulled : List DeclaredMod}
    (h : ∀ m ∈ pulled, m.pulled = true) : authoredRows (mods ++ pulled) = authoredRows mods := by
  have : (pulled.filter fun m => !m.pulled) = [] :=
    List.filter_eq_nil_iff.2 fun m hm => by simp [h m hm]
  rw [authoredRows, List.filter_append, this, List.append_nil, ← authoredRows]

theorem authoredRow_requiring (m : DeclaredMod) (deps : List String) :
    authoredRow (requiring m deps) = authoredRow m := by
  unfold requiring
  split
  · cases hd : m.display <;> simp [authoredRow, hd, Display.default]
  · simp [authoredRow]

theorem pulled_requiring (m : DeclaredMod) (deps : List String) :
    (requiring m deps).pulled = m.pulled := by
  unfold requiring
  split <;> rfl

theorem filename_requiring (m : DeclaredMod) (deps : List String) :
    (requiring m deps).filename = m.filename := by
  unfold requiring
  split <;> rfl

theorem source_requiring (m : DeclaredMod) (deps : List String) :
    (requiring m deps).source = m.source := by
  unfold requiring
  split <;> rfl

theorem authoredRows_mergePulled :
    authoredRows (mergePulled saved incoming).mods = authoredRows incoming.mods :=
  authoredRows_append_pulled fun _ hm => List.of_mem_filter (List.mem_of_mem_filter hm)

/-- The fill leaves alone what the authors declare. -/
theorem authoredRows_fillDependencies (answers : ℕ → Answers) :
    authoredRows (fillDependencies answers cfg).1.mods = authoredRows cfg.mods := by
  refine fillDependencies_induction answers
    (P := fun c => authoredRows c.mods = authoredRows cfg.mods) ?_ ?_ ?_ rfl
  · intro c d hc hd _
    rw [← hc]
    exact authoredRows_append_pulled (by simpa using hd.pulled)
  · intro c r hc
    rw [← hc]
    simp only [applyRequires, authoredRows, List.filter_map, List.map_map, Function.comp_def,
      pulled_requiring, authoredRow_requiring]
  · intro c hc
    rw [← hc, pruneOrphanedPulled, authoredRows, List.filter_filter, authoredRows]
    congr 1
    refine List.filter_congr fun m _ => ?_
    cases m.pulled <;> simp

/-! ## The rows stay distinct -/

/-- Distinct mods, by their artifacts. -/
theorem distinctMods_iff {mods : List DeclaredMod} :
    DistinctMods mods ↔ (mods.map fun m => m.source.artifact).Nodup ∧
      (mods.map fun m => m.filename).Nodup := by
  refine and_congr_left fun _ => ?_
  simp only [List.Nodup, List.pairwise_map, ne_eq, SourceDecl.identity_eq_iff]

/-- Merging distinct mods into distinct mods keeps them distinct: a pulled mod is carried
    over only if its artifact and its filename are new. -/
theorem distinctMods_mergePulled (hs : DistinctMods saved.mods) (hi : DistinctMods incoming.mods) :
    DistinctMods (mergePulled saved incoming).mods := by
  rw [distinctMods_iff] at *
  simp only [mergePulled, List.map_append, List.nodup_append]
  have hsub : ((saved.mods.filter fun m => m.pulled).filter fun m =>
      sourceIdentity m.source ∉ presentKeys incoming ∧
        ("f:" ++ m.filename) ∉ presentKeys incoming).Sublist saved.mods :=
    List.filter_sublist.trans List.filter_sublist
  refine ⟨⟨hi.1, hs.1.sublist (hsub.map _), ?_⟩, hi.2, hs.2.sublist (hsub.map _), ?_⟩
  · intro x hx y hy hxy
    obtain ⟨n, hn, rfl⟩ := List.mem_map.1 hx
    obtain ⟨m, hm, rfl⟩ := List.mem_map.1 hy
    have := List.of_mem_filter hm
    rw [decide_eq_true_iff, mem_presentKeys_sourceIdentity] at this
    exact this.1 ⟨n, hn, hxy.symm⟩
  · intro x hx y hy hxy
    obtain ⟨n, hn, rfl⟩ := List.mem_map.1 hx
    obtain ⟨m, hm, rfl⟩ := List.mem_map.1 hy
    have := List.of_mem_filter hm
    rw [decide_eq_true_iff, mem_presentKeys_filename] at this
    exact this.2 ⟨n, hn, hxy.symm⟩

/-- What is carried over: the pulled mods of which the incoming config has neither the artifact nor
    the filename. -/
theorem mem_carried {m : DeclaredMod} :
    m ∈ ((saved.mods.filter fun m => m.pulled).filter fun m =>
        sourceIdentity m.source ∉ presentKeys incoming ∧
          ("f:" ++ m.filename) ∉ presentKeys incoming) ↔
      m ∈ saved.mods ∧ m.pulled = true ∧
        ∀ n ∈ incoming.mods, sourceIdentity n.source ≠ sourceIdentity m.source ∧
          n.filename ≠ m.filename := by
  rw [List.mem_filter, List.mem_filter, decide_eq_true_iff, mem_presentKeys_sourceIdentity,
    mem_presentKeys_filename, and_assoc]
  refine and_congr_right fun _ => and_congr_right fun _ => ?_
  constructor
  · rintro ⟨hsource, hname⟩ n hn
    refine ⟨fun he => hsource ⟨n, hn, ?_⟩, fun he => hname ⟨n, hn, he.symm⟩⟩
    exact ((sourceIdentity_eq_iff _ _).1 he).symm
  · intro h
    refine ⟨?_, ?_⟩
    · rintro ⟨n, hn, he⟩
      exact (h n hn).1 ((sourceIdentity_eq_iff _ _).2 he.symm)
    · rintro ⟨n, hn, he⟩
      exact (h n hn).2 he.symm

/-- A pulled mod of the saved config is there after the merge, as the same artifact or under the
    same filename. -/
theorem mergePulled_covers {m : DeclaredMod} (hm : m ∈ saved.mods) (hp : m.pulled = true) :
    ∃ n ∈ (mergePulled saved incoming).mods,
      sourceIdentity n.source = sourceIdentity m.source ∨ n.filename = m.filename := by
  by_cases hnew : ∀ n ∈ incoming.mods, sourceIdentity n.source ≠ sourceIdentity m.source ∧
      n.filename ≠ m.filename
  · exact ⟨m, List.mem_append_right _ (mem_carried.2 ⟨hm, hp, hnew⟩), .inl rfl⟩
  · push Not at hnew
    obtain ⟨n, hn, hname⟩ := hnew
    exact ⟨n, List.mem_append_left _ hn, or_iff_not_imp_left.2 hname⟩

/-- What was merged once is merged. -/
theorem mergePulled_idem : mergePulled saved (mergePulled saved incoming) =
    mergePulled saved incoming := by
  have hnone : ((saved.mods.filter fun m => m.pulled).filter fun m =>
      sourceIdentity m.source ∉ presentKeys (mergePulled saved incoming) ∧
        ("f:" ++ m.filename) ∉ presentKeys (mergePulled saved incoming)) = [] := by
    refine List.eq_nil_iff_forall_not_mem.2 fun m hm => ?_
    obtain ⟨hsaved, hp, hnew⟩ := mem_carried.1 hm
    obtain ⟨n, hn, hsame⟩ : ∃ n ∈ (mergePulled saved incoming).mods,
        sourceIdentity n.source = sourceIdentity m.source ∨ n.filename = m.filename :=
      mergePulled_covers hsaved hp
    exact hsame.elim (hnew n hn).1 (hnew n hn).2
  rw [mergePulled.eq_def saved (mergePulled saved incoming), hnone, List.append_nil]

/-- A merge into a config whose rows are distinct keeps them so and as they were. Behind them it
    adds pulled mods of the saved config and no others, until there is of each of these the artifact
    or the filename. A second merge adds nothing. -/
theorem mergePulled_sticky (hs : saved.duplicateDeclaration = none)
    (hi : incoming.duplicateDeclaration = none) :
    (mergePulled saved incoming).duplicateDeclaration = none ∧
      (∃ carried, mergePulled saved incoming = { incoming with mods := incoming.mods ++ carried } ∧
        carried.Sublist saved.mods ∧ ∀ m ∈ carried, m.pulled = true ∧
          ∀ n ∈ incoming.mods, sourceIdentity n.source ≠ sourceIdentity m.source ∧
            n.filename ≠ m.filename) ∧
      (∀ m ∈ saved.mods, m.pulled = true → ∃ n ∈ (mergePulled saved incoming).mods,
        sourceIdentity n.source = sourceIdentity m.source ∨ n.filename = m.filename) ∧
      mergePulled saved (mergePulled saved incoming) = mergePulled saved incoming := by
  rw [PackConfig.duplicateDeclaration_eq_none] at hs hi ⊢
  refine ⟨⟨distinctMods_mergePulled hs.1 hi.1, hi.2⟩, ⟨_, rfl, ?_, fun m hm => ?_⟩, ?_, ?_⟩
  · exact List.filter_sublist.trans List.filter_sublist
  · exact (mem_carried.1 hm).2
  · exact fun m hm hp => mergePulled_covers hm hp
  · exact mergePulled_idem

/-- A library that the fill pulled. -/
def stickyLibrary : DeclaredMod where
  filename := "lib.jar"
  source := .modrinth "P" "v1"
  defaultEnabled := true
  display := none
  slug := none
  pulled := true

/-- A mod that the curator declares. -/
def ownMod : DeclaredMod :=
  { stickyLibrary with filename := "own.jar", source := .smrtCache "c", pulled := false }

/-- A body that lacks the library is merged with the saved config that has it. -/
theorem mergePulled_sticky_library : ∃ saved incoming : PackConfig,
    saved.mods = [stickyLibrary] ∧ incoming.mods = [ownMod] ∧
      (mergePulled saved incoming).duplicateDeclaration = none :=
  ⟨{ PackConfig.empty "P" with mods := [stickyLibrary] },
    { PackConfig.empty "P" with mods := [ownMod] }, rfl, rfl,
    (mergePulled_sticky (by decide) (by decide)).1⟩

/-- The fill keeps the rows distinct. -/
theorem distinctMods_fillDependencies (answers : ℕ → Answers) (h : DistinctMods cfg.mods) :
    DistinctMods (fillDependencies answers cfg).1.mods := by
  refine fillDependencies_induction answers (P := fun c => DistinctMods c.mods) ?_ ?_ ?_ h
  · intro c d hc hd hp
    have hnew := of_not_alreadyPresent hd hp
    refine hc.concat (fun n hn => ?_) fun n hn => (hnew n hn).1
    rw [ne_eq, SourceDecl.identity_eq_iff]
    exact (hnew n hn).2
  · exact fun c r hc => hc.map (filename_requiring · _) (source_requiring · _)
  · exact fun c hc => hc.sublist List.filter_sublist

end Frame

end Smrt
