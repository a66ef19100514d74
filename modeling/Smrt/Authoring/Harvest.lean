import Smrt.Registry.Collide

/-!
# The harvest

What a scan found is written to the registry in one transaction (`writeScan`). The jars are read in
turn (`readJars`): each is put down to a mod by the names it carries, which may fold mods, and what
it declares is written. Two things have to wait until all jars are read: the packages that a jar
refers to are resolved to the mods that define them (`derive`), and the files that it depends on by
name are resolved at the very end (`writeExternalDeps`), when the mods have been reconciled by their
slugs (`reconcile`). Both are kept under the ids of the mods.

The rows that a query may find in any order come in the order of a `Plan`. The report of a harvest,
what was read of a jar (`jar_read`), the digest of its classes, the loaders it demands and the
environments of the projects are left out: no statement here reads them.
-/

namespace Smrt

namespace Harvest

open Registry Registry.Tables

/-! ## Scans -/

/-- What a project depends on, as it says itself. -/
structure ModrinthDepSeed where
  projectId : Option String
  depType : String
  versionId : Option String
  fileName : Option String

/-- What was read of a jar; without a kind, it was not opened. -/
structure JarSeed where
  sha1 : String
  modid : Option String
  extraModids : List String
  version : Option String
  projectId : Option String
  loaders : List String
  mcVersions : List String
  requires : List String
  filename : Option String
  name : Option String
  slug : Option String
  channel : Option Channel
  ownedPackages : List String
  classNames : List String
  mixinNeeds : List (String × String)
  hardRefs : List String
  optionalRefs : List String
  side : Option String
  sideConfidence : Option String
  matchPolicy : Option String
  kind : Option String
  modrinthDeps : List ModrinthDepSeed
  declaredDeps : List (String × RelKind × Option Severity × Option String)
  needsRuntime : List String
  providesRuntime : List String

structure BuildModSeed where
  sha1 : String
  filename : String

structure PackSeed where
  packId : String
  packVersion : String
  mods : List BuildModSeed
  /-- The files that do not get along, by their hashes. -/
  conflicts : List (String × String)

structure ScanData where
  jars : List JarSeed
  packs : List PackSeed
  /-- The slugs of the projects that are depended on. -/
  depProjectSlugs : List (String × String)
  modrinthLegOk : Bool

/-- The order in which a query finds its rows. -/
structure Plan where
  order : List (ℕ × ℕ) → List (ℕ × ℕ)
  perm : ∀ l, (order l).Perm l

/-! ## Names -/

def manifestDepRank : ℕ := 55

def integrationHosts : List String :=
  ["jei", "roughlyenoughitems", "emi", "jade", "waila", "hwyla", "wthit", "theoneprobe",
    "inventorytweaks"]

/-- Mods that others plug into if they are there. -/
def isIntegrationHost (target : String) : Bool :=
  let bare := String.ofList (target.toList.takeWhile fun c => c ≠ '@')
  (stripPrefix bare "modrinth:").getD bare ∈ integrationHosts

/-- The other mod that defines a package, by a name of it. -/
def resolveEdgeTarget (t : Tables) (pkg : String) (fromModId : ℕ) : Option String :=
  (t.ownerModForPrefix pkg).bind fun owner =>
    if owner = fromModId then none
    else (t.modidForMod owner).or ((t.modrinthIdForMod owner).map ("modrinth:" ++ ·))

/-- The name of a file without `.jar` at its end, as often as it is there. -/
def trimJar (fileName : String) : String :=
  String.ofList (go fileName.length fileName.toList)
where
  go : ℕ → List Char → List Char
  | 0, l => l
  | n + 1, l => if ".jar".toList <:+ l then go n (l.take (l.length - 4)) else l

/-- The mod that a file outside of the projects is of, by a name of it. -/
def externalDepSelector (t : Tables) (fileName : String) : Option String :=
  let known := (t.modIdForFilename fileName).bind fun owner =>
    (t.modidForMod owner).or ((t.modrinthIdForMod owner).map ("modrinth:" ++ ·))
  let stem := String.ofList ((trimJar fileName).toList.takeWhile fun c => c ∉ ['-', '_', ' '])
  known.or (if stem ≠ "" ∧ (t.modIdForSelector stem).isSome then some stem else none)

def modrinthRelKind (depType : String) : Option (RelKind × Option Severity) :=
  if depType = "required" then some (.requires, none)
  else if depType = "optional" then some (.optionalDep, none)
  else if depType = "incompatible" then some (.conflicts, some .hard)
  else none

namespace JarSeed

variable (jar : JarSeed)

/-- The names that a jar carries. -/
def aliases : List Alias :=
  ((jar.modid.filter fun m => m ≠ "").map fun m => (AliasSource.modid, m)).toList ++
    ((jar.projectId.filter fun p => p ≠ "").map fun p => (AliasSource.modrinth, p)).toList ++
    (jar.extraModids.filter fun m => m ≠ "").map fun m => (AliasSource.modid, m)

/-- What its project says about a jar is all there is to say. -/
def isModrinth : Bool := jar.projectId.isSome && !jar.modrinthDeps.isEmpty

/-- The packages that a jar refers to are what is known of its dependencies. -/
def derives : Bool :=
  !jar.isModrinth && jar.declaredDeps.isEmpty &&
    (!jar.hardRefs.isEmpty || !jar.optionalRefs.isEmpty)

/-- What a jar depends on outside of the projects, by the names of the files. -/
def externalDeps : List (RelKind × Option Severity × String) :=
  if jar.projectId.isNone then []
  else jar.modrinthDeps.filterMap fun dep =>
    match modrinthRelKind dep.depType, dep.projectId, dep.fileName with
    | some (kind, severity), none, some fileName => some (kind, severity, fileName)
    | _, _, _ => none

end JarSeed

/-! ## One jar -/

/-- What a jar is, if it was opened. -/
def writeJarClass (jar : JarSeed) : Conn Unit :=
  match jar.kind with
  | some kind => setJarClass jar.sha1 kind jar.side jar.matchPolicy jar.sideConfidence
  | none => pure ()

/-- The file that a jar is, under the release of its version and channel. -/
def writeFile (modId : ℕ) (jar : JarSeed) : Conn ℕ := do
  let versionId ← upsertModVersion modId (jar.version.getD "unknown") jar.loaders jar.sha1
    jar.filename jar.mcVersions
  setHarvestedRelease jar.sha1 modId (jar.version.getD "unknown") (jar.channel.getD .unknown)
  pure versionId

/-- What the mixins of a jar need, if its classes were read. -/
def writeNeeds (versionId : ℕ) (jar : JarSeed) : Conn Unit :=
  if jar.classNames = [] then pure () else setMixinNeeds versionId jar.mixinNeeds

/-- What a manifest declares comes before what an older one does: of two that say the same, the
first one stays. -/
def writeDeclared (modId versionId : ℕ) (jar : JarSeed) : Conn Unit :=
  if jar.isModrinth then pure () else do
    jar.declaredDeps.forM fun dep =>
      upsertRelationRanked modId (some versionId)
        ⟨dep.1, dep.2.2.2, dep.2.1, dep.2.2.1, .jarMeta⟩ manifestDepRank
    jar.requires.forM fun dep =>
      upsertRelation modId (some versionId) ⟨dep, none, .requires, none, .jarMeta⟩

/-- The loader that a jar carries, if its project is a bridge. -/
def writeBridge (modId versionId : ℕ) (jar : JarSeed) : Conn Unit := do
  let t ← Txn.read
  match jar.projectId.bind t.bridgedLoaderForProject with
  | some carried =>
    upsertRelation modId (some versionId) ⟨"loader:" ++ carried, none, .provides, none, .harvested⟩
  | none => pure ()

/-- The languages that a jar brings along, or needs. -/
def writeRuntimes (modId versionId : ℕ) (jar : JarSeed) : Conn Unit := do
  jar.providesRuntime.forM fun rt =>
    upsertRelation modId (some versionId) ⟨"runtime:" ++ rt, none, .provides, none, .inferred⟩
  jar.needsRuntime.forM fun rt =>
    upsertRelation modId (some versionId) ⟨"runtime:" ++ rt, none, .requires, none, .inferred⟩

/-- A project that another one depends on; none depends on itself. -/
def writeModrinthDep (modId versionId : ℕ) (pid : String) (dep : ModrinthDepSeed) : Conn Unit :=
  match modrinthRelKind dep.depType, dep.projectId with
  | some (kind, severity), some depPid =>
    if depPid = pid then pure ()
    else upsertRelation modId (some versionId)
      ⟨"modrinth:" ++ depPid, dep.versionId, kind, severity, .modrinth⟩
  | _, _ => pure ()

def writeModrinthDeps (modId versionId : ℕ) (jar : JarSeed) : Conn Unit :=
  match jar.projectId with
  | some pid => jar.modrinthDeps.forM (writeModrinthDep modId versionId pid)
  | none => pure ()

/-- What is known of a file; what its manifest declared before is forgotten. -/
def writeFacts (modId versionId : ℕ) (jar : JarSeed) : Conn Unit := do
  execute fun t =>
    { t with relations := t.relations.filter fun r =>
        ¬ (r.fromVersionId = some versionId ∧ r.source = .jarMeta) }
  writeNeeds versionId jar
  writeDeclared modId versionId jar
  setModPackages modId jar.ownedPackages
  writeBridge modId versionId jar
  writeRuntimes modId versionId jar
  writeModrinthDeps modId versionId jar

/-- A dependency of a file on another file, by its name. -/
structure ExternalDep where
  modId : ℕ
  versionId : ℕ
  kind : RelKind
  severity : Option Severity
  fileName : String

/-- A file whose references are to be resolved. -/
structure Derivation where
  modId : ℕ
  versionId : ℕ
  jar : JarSeed

/-- What waits until all jars are read. -/
structure Later where
  derivations : List Derivation
  externalDeps : List ExternalDep

def Later.none : Later := ⟨[], []⟩

def Later.append (l l' : Later) : Later :=
  ⟨l.derivations ++ l'.derivations, l.externalDeps ++ l'.externalDeps⟩

def JarSeed.later (jar : JarSeed) (modId versionId : ℕ) : Later where
  derivations := if jar.derives then [⟨modId, versionId, jar⟩] else []
  externalDeps := jar.externalDeps.map fun d => ⟨modId, versionId, d.1, d.2.1, d.2.2⟩

/-- A jar is put down to the mod of its names; one without a name has no mod. -/
def readJar (jar : JarSeed) : Conn Later := do
  writeJarClass jar
  if jar.aliases = [] then pure .none else do
    let modId ← upsertModByAlias jar.aliases
    setModMeta modId jar.name jar.slug
    let versionId ← writeFile modId jar
    writeFacts modId versionId jar
    pure (jar.later modId versionId)

def readJars : List JarSeed → Conn Later
  | [] => pure .none
  | jar :: jars => do
    let later ← readJar jar
    let rest ← readJars jars
    pure (later.append rest)

/-! ## References -/

/-- The names that a file has been found to refer to, by its id. -/
structure Seen where
  hard : List (ℕ × String)
  optional : List (ℕ × String)

/-- A reference of a file to another mod is written once. -/
def writeRef (kind : RelKind) (modId versionId : ℕ) (target : String) : Conn Unit :=
  upsertRelation modId (some versionId) ⟨target, none, kind, none, .inferred⟩

/-- A reference to a mod that others plug into is optional. -/
def hardRef (modId versionId : ℕ) (seen : Seen) (pkg : String) : Conn Seen := do
  let t ← Txn.read
  match resolveEdgeTarget t pkg modId with
  | none => pure seen
  | some target =>
    if isIntegrationHost target then
      if (versionId, target) ∈ seen.optional then pure seen else do
        writeRef .optionalDep modId versionId target
        pure { seen with optional := (versionId, target) :: seen.optional }
    else if (versionId, target) ∈ seen.hard then pure seen else do
      writeRef .requires modId versionId target
      pure { seen with hard := (versionId, target) :: seen.hard }

/-- What a file refers to hard is not optional. -/
def optionalRef (modId versionId : ℕ) (seen : Seen) (pkg : String) : Conn Seen := do
  let t ← Txn.read
  match resolveEdgeTarget t pkg modId with
  | none => pure seen
  | some target =>
    if (versionId, target) ∈ seen.hard ∨ (versionId, target) ∈ seen.optional then pure seen else do
      writeRef .optionalDep modId versionId target
      pure { seen with optional := (versionId, target) :: seen.optional }

/-- The references of the files: first the hard ones of all, then the optional ones. -/
def derive (derivations : List Derivation) : Conn Unit := do
  let seen ← derivations.foldlM
    (fun seen d => d.jar.hardRefs.foldlM (hardRef d.modId d.versionId) seen) ⟨[], []⟩
  let _ ← derivations.foldlM
    (fun seen d => d.jar.optionalRefs.foldlM (optionalRef d.modId d.versionId) seen) seen
  pure ()

/-! ## Packs -/

/-- The name of a file, as the last jar of its hash has it. -/
def modidBySha (jars : List JarSeed) (sha1 : String) : Option String :=
  jars.reverse.findSome? fun j => if j.sha1 = sha1 then j.modid else none

/-- A mod does not get along with another one, as a curator says. -/
def writeConflict (jars : List JarSeed) (aSha bSha : String) : Conn Unit := do
  let t ← Txn.read
  match t.modIdForSha1 aSha, modidBySha jars bSha with
  | some modId, some modid =>
    upsertRelation modId none ⟨modid, none, .conflicts, some .hard, .curator⟩
  | _, _ => pure ()

def linkMod (build : ℕ) (bm : BuildModSeed) : Conn Unit := do
  let t ← Txn.read
  match t.modVersionIdForSha1 bm.sha1 with
  | some versionId => linkBuildMod build versionId bm.filename
  | none => pure ()

def writePack (jars : List JarSeed) (pack : PackSeed) : Conn Unit := do
  upsertPack pack.packId
  let build ← upsertPackBuild pack.packId pack.packVersion true
  pack.mods.forM (linkMod build)
  pack.conflicts.forM fun p => do
    writeConflict jars p.1 p.2
    writeConflict jars p.2 p.1

/-! ## Identities -/

/-- Two mods of which the slug of one, which has a project, is a name of the other. -/
def splitPairs (t : Tables) : List (ℕ × ℕ) :=
  t.mods.rows.flatMap fun b =>
    (t.aliases.filter fun mr => mr.modId = b.1 ∧ mr.source = .modrinth).flatMap fun _ =>
      (t.aliases.filter fun a => a.source = .modid ∧
        (∃ slug ∈ b.2.slug, slug ≠ "" ∧ noCase a.externalKey = noCase slug) ∧
          a.modId ≠ b.1).map fun a => (a.modId, b.1)

/-- Two mods are folded into one, unless one of them is gone; `consumed` are those that are. -/
def reconcilePair (consumed : List ℕ) (pair : ℕ × ℕ) : Conn (List ℕ) :=
  if pair.1 ∈ consumed ∨ pair.2 ∈ consumed then pure consumed else do
    let survivor ← mergeCollidedMods [pair.1, pair.2]
    let loser := if survivor = pair.1 then pair.2 else pair.1
    let t ← Txn.read
    pure (if t.HasMod loser then consumed else loser :: consumed)

def reconcile (plan : Plan) : Conn Unit := do
  let t ← Txn.read
  let _ ← (plan.order (splitPairs t)).foldlM reconcilePair []
  pure ()

/-- A project that no mod has is attached to the mod of its slug. -/
def linkSelfHosted (project : String × String) : Conn Unit := do
  let t ← Txn.read
  match t.modIdForAlias .modrinth project.1, t.modIdForSelector project.2 with
  | none, some modId => execute fun t => t.attach modId (.modrinth, project.1)
  | _, _ => pure ()

def writeExternalDep (dep : ExternalDep) : Conn Unit := do
  let t ← Txn.read
  upsertRelation dep.modId (some dep.versionId)
    ⟨(externalDepSelector t dep.fileName).getD ("external:" ++ dep.fileName), none, dep.kind,
      dep.severity, .modrinth⟩

/-! ## The whole -/

/-- What is derived anew; if the projects could not be asked, what they said stays. -/
def wipe (modrinthLegOk : Bool) : Conn Unit := do
  execute fun t => { t with packages := [] }
  execute fun t =>
    { t with relations := t.relations.filter fun r =>
        ¬ (r.source = .inferred ∨ modrinthLegOk ∧ r.source = .modrinth) }

def writeScan (plan : Plan) (scan : ScanData) : Conn Unit := do
  wipe scan.modrinthLegOk
  let later ← readJars scan.jars
  derive later.derivations
  scan.packs.forM (writePack scan.jars)
  reconcile plan
  scan.depProjectSlugs.forM linkSelfHosted
  later.externalDeps.forM writeExternalDep
  pruneEmptyReleases

end Harvest

end Smrt
