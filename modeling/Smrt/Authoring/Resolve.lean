import Smrt.Domain.Pack
import Smrt.Lib.Keyed
import Smrt.Registry.Classify
import Smrt.Registry.Shelf

/-!
# Resolving a pack

What a pack declares is placed on the registry (`placeMods`), and what the files it ships depend on is
judged against what is there: the first edge of each target, the most trusted one first
(`judged`, `walk`). Apart from the edges, the classes that mixins need are looked for in the files that
define their package (`mixinGaps`).

A finding names rows of the pack; of these the report shows the file names. How a mod is
classified is a parameter (`classify`). What the report says apart from edges and mixins is left
out: which loader runs a file, what several mods provide, and advice on classifications.
-/

namespace Smrt

namespace Resolve

open Registry

/-! ## Placing -/

/-- A row of a pack that the registry has a mod for. -/
structure Present where
  filename : String
  defaultEnabled : Bool
  modId : ℕ
  version : Option String
  /-- The file that the pack ships, if it was read. -/
  versionId : Option ℕ
  sha1 : Option String
  deriving DecidableEq

/-- Where a row of a pack lands. -/
inductive Placement
  | present (p : Present)
  | unresolved (filename : String)
  | nonMod (filename : String)
  | pinned (projectId : String)
  /-- It is not a mod. -/
  | skipped
  deriving DecidableEq

structure PlacedMods where
  present : List Present
  unresolved : List String
  nonMods : List String
  pinnedProjects : List String

section Place

variable (s : Registry.Shelf)

def placeMod (m : DeclaredMod) : Placement :=
  match m.source with
  | .smrtCache sha1 =>
    match s.versionForSha1 sha1 with
    | some (id, v) => .present
        { filename := m.filename
          defaultEnabled := m.defaultEnabled
          modId := v.modId
          version := some v.version
          versionId := some id
          sha1 := some sha1 }
    | none =>
      if (s.jarClassForSha1 sha1).any fun c => c.kind ≠ "mod" then .nonMod m.filename
      else .unresolved m.filename
  | .modrinth projectId versionId =>
    match s.modIdForAlias .modrinth projectId with
    | some id =>
      let v := s.versionForModrinthVersionId versionId
      .present
        { filename := m.filename
          defaultEnabled := m.defaultEnabled
          modId := id
          version := v.map fun v => v.2.version
          versionId := v.map Prod.fst
          sha1 := v.map fun v => v.2.sha1 }
    | none => .pinned projectId
  | .smrtStatic _ => .skipped

/-- The rows of a pack that the registry has a mod for. -/
def presentMods (mods : List DeclaredMod) : List Present :=
  mods.filterMap fun m => match placeMod s m with
    | .present p => some p
    | _ => none

def placeMods (mods : List DeclaredMod) : PlacedMods where
  present := presentMods s mods
  unresolved := mods.filterMap fun m => match placeMod s m with
    | .unresolved filename => some filename
    | _ => none
  nonMods := mods.filterMap fun m => match placeMod s m with
    | .nonMod filename => some filename
    | _ => none
  pinnedProjects := mods.filterMap fun m => match placeMod s m with
    | .pinned projectId => some projectId
    | _ => none

end Place

/-! ## Findings -/

/-- A target that no row of the pack satisfies. -/
structure MissingDep where
  neededBy : List String
  range : Option String
  source : Registry.Source
  external : Bool
  deriving DecidableEq

/-- Two rows that do not go together; the first one said so. -/
structure ActiveConflict where
  a : Present
  b : Present
  hard : Bool
  source : Registry.Source
  deriving DecidableEq

/-- A row whose version is not in the window of another one. -/
structure VersionIssue where
  target : String
  filename : String
  presentVersion : String
  requiredRange : String
  neededBy : String
  deriving DecidableEq

/-- A mod of the client that another one makes everyone install. -/
structure ForcedClientEdge where
  neededBy : List String
  source : Registry.Source
  deriving DecidableEq

/-- What was found so far. -/
structure Findings where
  missing : List (String × MissingDep)
  /-- The pairs of places that a conflict was found for. -/
  conflictSeen : List (ℕ × ℕ)
  conflicts : List ActiveConflict
  optionalConflicts : List ActiveConflict
  /-- What the rows provide, with the row. -/
  provides : List (String × String)
  versionIssues : List VersionIssue
  forcedClient : List (String × ForcedClientEdge)
  suggestions : List String
  unchecked : ℕ

def Findings.none : Findings where
  missing := []
  conflictSeen := []
  conflicts := []
  optionalConflicts := []
  provides := []
  versionIssues := []
  forcedClient := []
  suggestions := []
  unchecked := 0

/-- A target that nothing satisfies; the first edge that needs it is shown. -/
def Findings.lack (f : Findings) (a : Present) (e : RelationRow) : Findings :=
  let found : MissingDep := (f.missing.lookup e.target).getD
    { neededBy := []
      range := e.range
      source := e.source
      external := (stripPrefix e.target "external:").isSome }
  { f with missing := put e.target { found with neededBy := found.neededBy ++ [a.filename] } f.missing }

def Findings.force (f : Findings) (a b : Present) (source : Registry.Source) : Findings :=
  let found : ForcedClientEdge := (f.forcedClient.lookup b.filename).getD { neededBy := [], source }
  { f with
    forcedClient := put b.filename { found with neededBy := found.neededBy ++ [a.filename] }
      f.forcedClient }

/-- The dependencies that every loader answers itself. -/
def isLoaderDep (target : String) : Bool :=
  String.ofList (Tables.noCase (Semver.upTo '@' target)) ∈
    ["forge", "minecraftforge", "mod_minecraftforge", "fml", "forgemodloader", "neoforge", "fabric",
      "fabricloader", "cleanroom", "quilt"]

/-! ## Edges -/

/-- The place of a pair of rows, whichever is named first. -/
def placePair (i j : ℕ) : ℕ × ℕ := if i < j then (i, j) else (j, i)

section Walk

variable (s : Registry.Shelf) (classify : ℕ → Option String → Classification) (present : List Present)
  (pinned : List String)

/-- The first row of a mod, with its place. -/
def byModId (id : ℕ) : Option (Present × ℕ) := present.zipIdx.find? fun q => q.1.modId = id

/-- The classification of a mod: that of the file in the pack, or of its newest one. -/
def classOf (id : ℕ) : Classification :=
  match byModId present id with
  | some (p, _) => classify id p.sha1
  | none => classify id (s.newestSha1ForMod id)

/-- An edge that is only guessed does not bind a mod that is known to be of one side, or both. -/
def inferredEdgeDowngraded (source : Registry.Source) (target : Classification) : Bool :=
  source = .inferred ∧ target.side.isSome

def judgeRequires (a : Present) (f : Findings) (e : RelationRow) : Findings :=
  let target := s.modIdForSelector e.target
  if target.any fun id => inferredEdgeDowngraded e.source (classOf s classify present id) then f
  else match target.bind (byModId present) with
    | some (b, _) =>
      let f := if e.source ≠ .inferred ∧ (classOf s classify present b.modId).side = some .client ∧
          (classOf s classify present a.modId).side ≠ some .client then f.force a b e.source else f
      match e.range with
      | none => f
      | some range =>
        match b.version.bind fun v => Semver.inRange v range with
        | some true => f
        | some false =>
          { f with
            versionIssues := f.versionIssues ++
              [{ target := e.target
                 filename := b.filename
                 presentVersion := b.version.getD ""
                 requiredRange := range
                 neededBy := a.filename }] }
        | none => { f with unchecked := f.unchecked + 1 }
    | none =>
      if isLoaderDep e.target then f
      else if (stripPrefix e.target "modrinth:").any fun pid => Semver.upTo '@' pid ∈ pinned then f
      else f.lack a e

/-- A conflict with a row of the pack, unless there is one between the two already. -/
def judgeConflicts (ai : ℕ) (a : Present) (f : Findings) (e : RelationRow) : Findings :=
  match (s.modIdForSelector e.target).bind (byModId present) with
  | some (b, bi) =>
    if placePair ai bi ∈ f.conflictSeen then f
    else
      let c : ActiveConflict := { a, b, hard := e.severity ≠ some .soft, source := e.source }
      let f := { f with conflictSeen := placePair ai bi :: f.conflictSeen }
      if a.defaultEnabled ∧ b.defaultEnabled then { f with conflicts := f.conflicts ++ [c] }
      else { f with optionalConflicts := f.optionalConflicts ++ [c] }
  | none => f

def judge (ai : ℕ) (a : Present) (f : Findings) (e : RelationRow) : Findings :=
  match e.kind with
  | .requires => judgeRequires s classify present pinned a f e
  | .conflicts => judgeConflicts s present ai a f e
  | .provides => { f with provides := f.provides ++ [(e.target, a.filename)] }
  | .recommends =>
    if ((s.modIdForSelector e.target).bind (byModId present)).isNone ∧ !isLoaderDep e.target then
      { f with suggestions := e.target :: f.suggestions }
    else f
  | .optionalDep => f

/-- The edges of a row that are looked at: of each target the first one. -/
def judged (a : Present) : List RelationRow :=
  firsts RelationRow.target [] (s.relationsForArtifact a.versionId a.modId)

def walk : Findings :=
  present.zipIdx.foldl
    (fun f a => (judged s a.1).foldl (judge s classify present pinned a.2 a.1) f) .none

end Walk

/-! ## Mixins -/

/-- A class that a mixin needs, and that the row that defines its package does not have. -/
structure MixinGap where
  filename : String
  config : String
  needed : String
  owner : String
  deriving DecidableEq

section Gaps

variable (s : Registry.Shelf) (present : List Present)

/-- The row that is asked for the classes of a mod: the last one of it. -/
def lastOf (id : ℕ) : Option Present := present.reverse.find? fun q => q.modId = id

/-- What a mixin of a row needs, by its config and class, if it is not there. -/
def gap (p : Present) (need : String × String) : Option MixinGap := do
  guard (!isPlatform need.2)
  let pkg ← packagePrefix need.2
  let ownerMod ← s.ownerModForPrefix pkg
  guard (ownerMod ≠ p.modId)
  let owner ← lastOf present ownerMod
  let ownerVersion ← owner.versionId
  guard (s.artifactHasClass ownerVersion need.2 = some false)
  pure { filename := p.filename, config := need.1, needed := need.2, owner := owner.filename }

/-- The gaps of a row. -/
def gapsOf (p : Present) : List MixinGap :=
  (p.versionId.elim [] s.mixinNeeds).filterMap (gap s present p)

/-- The gaps of all rows, each with its mod. -/
def mixinGaps : List (ℕ × MixinGap) :=
  (present.flatMap fun p => (gapsOf s present p).map fun g => (p.modId, g)).insertionSort
    fun g g' => g.2.filename < g'.2.filename ∨
      g.2.filename = g'.2.filename ∧ g.2.needed ≤ g'.2.needed

end Gaps

/-! ## The report -/

structure ResolveReport where
  declaredMods : ℕ
  resolvedMods : ℕ
  missing : List (String × MissingDep)
  conflicts : List ActiveConflict
  optionalConflicts : List ActiveConflict
  versionIssues : List VersionIssue
  mixinGaps : List (ℕ × MixinGap)
  unresolved : List String
  versionWindowsUnchecked : ℕ
  suggestions : List String

/-- What answers for the API of Fabric under another loader. -/
def forgifiedFabricApi : List String := ["modrinth:Aqlf1Shp", "fabric_api"]

def fabricApi : List String := ["modrinth:P7dR8mSH", "fabric-api"]

def bridgedApiProvided (s : Registry.Shelf) (present : List Present) : List String :=
  if forgifiedFabricApi.any fun sel => ((s.modIdForSelector sel).bind (byModId present)).isSome then
    fabricApi
  else []

/-- The order of the conflicts in a report. -/
def conflictLe (c c' : ActiveConflict) : Bool :=
  c.a.filename < c'.a.filename ∨ c.a.filename = c'.a.filename ∧ c.b.filename ≤ c'.b.filename

def resolvePack (s : Registry.Shelf) (classify : ℕ → Option String → Classification) (cfg : PackConfig) :
    ResolveReport :=
  let placed := placeMods s cfg.mods
  let f := walk s classify placed.present placed.pinnedProjects
  let loaderProvided := s.loaderProvidedCapabilities cfg.loader.name
  let bridgedProvided := bridgedApiProvided s placed.present
  { declaredMods := cfg.mods.length
    resolvedMods := placed.present.length + placed.pinnedProjects.length
    missing := (f.missing.filter fun m =>
      m.1 ∉ f.provides.map Prod.fst ∧ Semver.upTo '@' m.1 ∉ loaderProvided ∧
        Semver.upTo '@' m.1 ∉ bridgedProvided).map
      fun m => (m.1, { m.2 with neededBy := m.2.neededBy.insertionSort (· ≤ ·) })
    conflicts := f.conflicts.insertionSort fun c c' => conflictLe c c'
    optionalConflicts := f.optionalConflicts.insertionSort fun c c' => conflictLe c c'
    versionIssues := f.versionIssues.insertionSort fun v v' =>
      v.filename < v'.filename ∨ v.filename = v'.filename ∧ v.target ≤ v'.target
    mixinGaps := mixinGaps s placed.present
    unresolved := sortedSet placed.unresolved
    versionWindowsUnchecked := f.unchecked
    suggestions := sortedSet f.suggestions }

/-- Nothing is known of a mod. -/
def unclassified (_ : ℕ) (_ : Option String) : Classification where
  side := none
  policy := none
  kind := none
  provenance := .unclassified
  bytecodeSide := none
  bytecodePolicy := none
  sideConfidence := none
  optionalBoth := false

end Resolve

end Smrt
