import Mathlib.Algebra.GroupWithZero.Nat
import Smrt.Authoring.Missing
import Smrt.Authoring.RunBuild
import Smrt.Registry.Loaders

/-!
# What a build may publish

A build checks what it is about to publish (`check`): what keeps a pack from starting blocks
(`GateReport.blocking`), and the rest is noted. A build that is blocked fails, unless it is a dry
run, or it was asked to go on (`gateBuild`).

A target that is missing blocks if the edge that the report has it from was declared (`declared`):
not guessed from the bytecode, or harvested. Which artifacts were read for the loader that they
need, and what they need, is a parameter (`known`), and so is what is read of the jars
(`Smrt.Shelf`).
-/

namespace Smrt

/-- Where an edge comes from, as it is stored. -/
def Registry.Source.asStr : Registry.Source → String
  | .curator => "curator"
  | .authored => "authored"
  | .jarMeta => "jar-meta"
  | .modrinth => "modrinth"
  | .inferred => "inferred"
  | .harvested => "harvested"

namespace Resolve

open Registry

/-! ## Loaders -/

/-- A row that is built for other loaders, with nothing to bridge them. -/
structure LoaderMismatch where
  filename : String
  artifactLoaders : List String
  packLoader : String
  deriving DecidableEq

/-- A row that does not go with the loader build that the pack pins. -/
structure LoaderVersionIssue where
  filename : String
  loader : String
  packVersion : String
  requiredRange : String
  deriving DecidableEq

structure LoaderWindowReport where
  issues : List LoaderVersionIssue
  unchecked : ℕ

def targetsForArtifact (s : Registry.Shelf) (versionId : ℕ) : List String :=
  ((s.targets.filter fun t => t.1 = versionId).map Prod.snd).insertionSort (· ≤ ·)

/-- A row whose loaders are known, none of which the pack runs, or something provided bridges. -/
def mismatch (s : Registry.Shelf) (loader : String) (provided : List String) (a : Present) :
    Option LoaderMismatch := do
  let versionId ← a.versionId
  let targets := targetsForArtifact s versionId
  guard (targets ≠ [])
  guard (¬ targets.any fun t => t = "any" ∨ lower t ∈ s.loaderChain loader)
  guard (¬ targets.any fun t => "loader:" ++ lower t ∈ provided)
  pure { filename := a.filename, artifactLoaders := targets, packLoader := loader }

def loaderMismatch (s : Registry.Shelf) (loader : String) (provided : List String)
    (present : List Present) : List LoaderMismatch :=
  (present.filterMap (mismatch s loader provided)).insertionSort fun l l' =>
    l.filename ≤ l'.filename

/-- What the loader that a jar needs is remembered under. -/
def artifactKey : SourceDecl → Option String
  | .smrtCache sha1 => some sha1
  | .modrinth _ versionId => some ("modrinth:" ++ versionId)
  | .smrtStatic _ => none

/-- The loader of a pack, as the requirements name it. -/
def packLoader (cfg : PackConfig) : String := lower (trim cfg.loader.name)

/-- What a row needs of the loader that the pack does not pin. -/
def windowIssues (known : String → Option (List (String × String))) (cfg : PackConfig)
    (m : DeclaredMod) : List LoaderVersionIssue :=
  ((artifactKey m.source).bind known).elim [] fun reqs => reqs.filterMap fun req =>
    if req.1 = packLoader cfg ∧ Semver.inRange cfg.loader.version req.2 = some false then
      some
        { filename := m.filename
          loader := req.1
          packVersion := cfg.loader.version
          requiredRange := req.2 }
    else none

/-- What a row needs of the loader, and cannot be judged. -/
def windowsUnchecked (known : String → Option (List (String × String))) (cfg : PackConfig)
    (m : DeclaredMod) : ℕ :=
  (artifactKey m.source).elim 0 fun key => (known key).elim 1 fun reqs =>
    (reqs.filter fun req =>
      req.1 = packLoader cfg ∧ Semver.inRange cfg.loader.version req.2 = none).length

def loaderWindows (known : String → Option (List (String × String))) (cfg : PackConfig) :
    LoaderWindowReport where
  issues := (cfg.mods.flatMap (windowIssues known cfg)).insertionSort fun l l' =>
    l.filename < l'.filename ∨ l.filename = l'.filename ∧ l.loader ≤ l'.loader
  unchecked := (cfg.mods.map (windowsUnchecked known cfg)).sum

/-! ## The report -/

/-- What was found about a pack, with what it runs on. -/
structure GateReport extends ResolveReport where
  loaderMismatch : List LoaderMismatch
  loaderVersionIssues : List LoaderVersionIssue
  forcedClientAttempts : List (String × ForcedClientEdge)

section Report

variable (s : Registry.Shelf) (classify : ℕ → Option String → Classification)
  (known : String → Option (List (String × String))) (cfg : PackConfig)

def gateReport : GateReport :=
  let placed := placeMods s cfg.mods
  let f := walk s classify placed.present placed.pinnedProjects
  let windows := loaderWindows known cfg
  { resolvePack s classify cfg with
    versionWindowsUnchecked := f.unchecked + windows.unchecked
    loaderMismatch := loaderMismatch s cfg.loader.name (f.provides.map Prod.fst) placed.present
    loaderVersionIssues := windows.issues
    forcedClientAttempts := f.forcedClient.map fun e =>
      (e.1, { e.2 with neededBy := sortedSet e.2.neededBy }) }

end Report

/-! ## The verdict -/

/-- Whether something says that there is an edge, and it was not derived. -/
def declared (source : String) : Bool := source ∉ ["inferred", "harvested"]

/-- What keeps a pack from starting. -/
inductive Blocking
  | missing (target : String) (d : MissingDep)
  | loader (l : LoaderMismatch)
  | mixin (g : MixinGap)
  | version (v : VersionIssue)
  | loaderVersion (l : LoaderVersionIssue)
  deriving DecidableEq

def joined (sep : String) (l : List String) : String := sep.intercalate l

/-- A target that is missing, as it is told. -/
def missingLine (target : String) (d : MissingDep) : String :=
  "unmet hard dependency: " ++ target ++ (d.range.elim "" fun r => " " ++ r) ++
    " -- required by " ++ joined ", " d.neededBy ++ " (" ++ d.source.asStr ++ ")" ++
    if d.external then " (it lives outside both Modrinth and the mirror)" else ""

def Blocking.line : Blocking → String
  | .missing target d => missingLine target d
  | .loader l => l.filename ++ " is built for " ++ joined "/" l.artifactLoaders ++
      " -- this pack runs " ++ l.packLoader ++ " and nothing present bridges it"
  | .mixin g => g.filename ++ " patches " ++ g.needed ++ ", which the " ++ g.owner ++
      " in this pack no longer has (" ++ g.config ++ ")"
  | .version v => v.filename ++ " ships " ++ v.presentVersion ++ " for " ++ v.target ++
      ", outside the " ++ v.requiredRange ++ " that " ++ v.neededBy ++ " declares"
  | .loaderVersion l => l.filename ++ " needs " ++ l.loader ++ " " ++ l.requiredRange ++
      ", and this pack pins " ++ l.packVersion

/-- What is found that blocks, in the order in which it is told. -/
def GateReport.blocking (r : GateReport) : List Blocking :=
  (r.missing.filter fun m => declared m.2.source.asStr).map (fun m => .missing m.1 m.2) ++
    r.loaderMismatch.map .loader ++ r.mixinGaps.map (fun g => .mixin g.2) ++
    r.versionIssues.map .version ++ r.loaderVersionIssues.map .loaderVersion

def conflictLine (c : ActiveConflict) (tail : String) : String :=
  c.a.filename ++ " and " ++ c.b.filename ++ " are marked " ++
    (if c.hard then "incompatible" else "discouraged together") ++ " (" ++ c.source.asStr ++ ")" ++
    tail

def forcedClientLine (f : String × ForcedClientEdge) : String :=
  f.1 ++ " is client-side, and " ++ joined ", " f.2.neededBy ++
    " declares a hard dependency on it (" ++ f.2.source.asStr ++ ") -- a client mod is never " ++
    "force-installed, so that dependency is not enforced"

/-- What is found, and does not block. -/
def GateReport.advisory (r : GateReport) : List String :=
  ((r.missing.filter fun m => !declared m.2.source.asStr).map fun m => missingLine m.1 m.2 ++
      "; derived from bytecode, so it may be an optional integration rather than a dependency") ++
    (r.conflicts.map fun c => conflictLine c ", and both are enabled by default") ++
    (r.optionalConflicts.map fun c =>
      conflictLine c "; one ships opted out, so it only bites if that one is enabled") ++
    r.forcedClientAttempts.map forcedClientLine ++
    if r.unresolved = [] then []
    else ["not identified in the registry, so nothing above was checked for " ++
      toString r.unresolved.length ++ ": " ++ joined ", " r.unresolved]

structure BuildChecks where
  blocking : List String
  advisory : List String
  overridden : Bool
  deriving DecidableEq

def check (r : GateReport) : BuildChecks where
  blocking := r.blocking.map Blocking.line
  advisory := r.advisory
  overridden := false

/-- What becomes of a build that was checked. -/
def gateBuild (dryRun overrideChecks : Bool) (checks : BuildChecks) : Except String BuildChecks :=
  if checks.blocking = [] ∨ dryRun then .ok checks
  else if overrideChecks then .ok { checks with overridden := true }
  else .error (toString checks.blocking.length ++
    " problem(s) would keep this pack from starting -- fix them, or build again over the check")

/-- A build up to where it begins to resolve files. -/
def checkBuild (X : Smrt.Shelf) (s : Registry.Shelf) (classify : ℕ → Option String → Classification)
    (known : String → Option (List (String × String))) (dryRun overrideChecks : Bool)
    (cfg : PackConfig) : Except String BuildChecks := do
  let cfg ← prepare X cfg
  gateBuild dryRun overrideChecks (check (gateReport s classify known cfg))

end Resolve

end Smrt
