import Mathlib.Tactic.MkIffOfInductiveProp
import Smrt.Lib.Split
import Smrt.Lib.Table
import Smrt.Lib.Txn

/-!
# The tables of the registry

The identities of mods under ids (`mods`), the names they are known by (`aliases`), their releases
and files, what they depend on (`relations`), the packages they define, and the builds of the packs
that ship them. A row refers to other rows by their ids; that these are there, and that keys are
unique, is what the store checks after every statement (`Tables.Integrity`). No statement here
deletes a row that another one refers to, so what the store does then is left out.

Columns that nothing here reads are left out: authors, sizes, times and environments.
-/

namespace Smrt

namespace Registry

/-! ## Rows -/

/-- Where a fact comes from. -/
inductive Source
  | curator
  | authored
  | jarMeta
  | modrinth
  | inferred
  | harvested
  deriving DecidableEq

/-- A row that a harvest never overwrites. -/
def Source.isPrecious : Source → Bool
  | .curator | .authored => true
  | _ => false

/-- How far a fact of a source is trusted. -/
def Source.rank : Source → ℕ
  | .curator => 100
  | .authored => 90
  | .jarMeta => 50
  | .modrinth => 40
  | .inferred | .harvested => 10

inductive RelKind
  | requires
  | conflicts
  | optionalDep
  | provides
  | recommends
  deriving DecidableEq

/-- How badly two mods disagree. -/
inductive Severity
  | soft
  | hard
  deriving DecidableEq

inductive Channel
  | release
  | beta
  | alpha
  | unknown
  deriving DecidableEq

/-- What kind of a name a mod is known by. -/
inductive AliasSource
  | modid
  | modrinth
  deriving DecidableEq

structure ModRow where
  slug : Option String
  canonicalName : Option String
  source : Source

structure AliasRow where
  modId : ℕ
  source : AliasSource
  externalKey : String

structure ReleaseRow where
  modId : ℕ
  versionNumber : String
  channel : Channel
  source : Source

/-- A file, known by its hash. -/
structure VersionRow where
  modId : ℕ
  version : String
  sha1 : String
  filename : Option String
  mcVersions : List String
  releaseId : Option ℕ
  source : Source

/-- What a mod, or one file of it, depends on; the target is a name, not an id. -/
structure RelationRow where
  fromModId : ℕ
  fromVersionId : Option ℕ
  target : String
  range : Option String
  kind : RelKind
  severity : Option Severity
  source : Source
  confidence : ℕ
  deriving DecidableEq

/-- What tells relations apart: an absent range is the empty one, no file is file zero, and the
confidence does not matter. -/
def RelationRow.dedupeKey (r : RelationRow) : RelationRow :=
  { r with
    fromVersionId := some (r.fromVersionId.getD 0)
    range := some (r.range.getD "")
    confidence := 0 }

/-- What kind of a file a jar is, whether it has a mod or not. -/
structure JarClassRow where
  sha1 : String
  kind : String
  side : Option String
  matchPolicy : Option String
  sideConfidence : Option String
  source : Source
  deriving DecidableEq

structure BuildRow where
  packId : String
  packVersion : String
  isLatest : Bool

/-- A file that a build ships. -/
structure BuildModRow where
  buildId : ℕ
  versionId : ℕ
  filename : String

/-! ## Tables -/

structure Tables where
  mods : Table ModRow
  aliases : List AliasRow
  releases : Table ReleaseRow
  versions : Table VersionRow
  relations : List RelationRow
  /-- The packages that the jars of a mod define. -/
  packages : List (ℕ × String)
  /-- The loaders that a file suits. -/
  targets : List (ℕ × String)
  /-- The classes that the mixins of a file need, by their config. -/
  needs : List (ℕ × String × String)
  jarClasses : List JarClassRow
  packs : List String
  builds : Table BuildRow
  buildMods : List BuildModRow
  /-- The loader that a project bridges. -/
  bridges : List (String × String)

namespace Tables

variable (t : Tables)

abbrev HasMod (id : ℕ) : Prop := (t.mods.get? id).isSome

abbrev HasRelease (id : ℕ) : Prop := (t.releases.get? id).isSome

abbrev HasVersion (id : ℕ) : Prop := (t.versions.get? id).isSome

abbrev HasBuild (id : ℕ) : Prop := (t.builds.get? id).isSome

/-- The constraints of the tables: what is referred to is there, and keys are unique. Ids are given
    out from one on, so that no file is file zero. -/
@[mk_iff]
structure Integrity : Prop where
  aliasMod : ∀ a ∈ t.aliases, t.HasMod a.modId
  aliasKey : (t.aliases.map fun a => (a.source, a.externalKey)).Nodup
  releaseMod : t.releases.All fun r => t.HasMod r.modId
  releaseKey : t.releases.Distinct fun r => (r.modId, r.versionNumber, r.channel)
  versionMod : t.versions.All fun v => t.HasMod v.modId
  versionRelease : t.versions.All fun v => ∀ r ∈ v.releaseId, t.HasRelease r
  versionSha1 : t.versions.Distinct VersionRow.sha1
  versionZero : ¬ t.HasVersion 0
  relationMod : ∀ r ∈ t.relations, t.HasMod r.fromModId
  relationVersion : ∀ r ∈ t.relations, ∀ v ∈ r.fromVersionId, t.HasVersion v
  relationKey : (t.relations.map RelationRow.dedupeKey).Nodup
  packageMod : ∀ p ∈ t.packages, t.HasMod p.1
  packageKey : t.packages.Nodup
  targetVersion : ∀ p ∈ t.targets, t.HasVersion p.1
  needVersion : ∀ p ∈ t.needs, t.HasVersion p.1
  buildPack : t.builds.All fun b => b.packId ∈ t.packs
  buildKey : t.builds.Distinct fun b => (b.packId, b.packVersion)
  buildModBuild : ∀ p ∈ t.buildMods, t.HasBuild p.buildId
  buildModVersion : ∀ p ∈ t.buildMods, t.HasVersion p.versionId
  buildModKey : (t.buildMods.map fun p => (p.buildId, p.versionId)).Nodup
  jarClassSha1 : (t.jarClasses.map JarClassRow.sha1).Nodup

instance : DecidablePred Integrity := fun t => decidable_of_iff' _ (integrity_iff t)

/-- A registry without mods; it knows one bridge. -/
def empty : Tables where
  mods := .empty
  aliases := []
  releases := .empty
  versions := .empty
  relations := []
  packages := []
  targets := []
  needs := []
  jarClasses := []
  packs := []
  builds := .empty
  buildMods := []
  bridges := [("u58R1TMW", "fabric")]

/-- The registry has these mods and these files. -/
def Has (mods versions : List ℕ) : Prop :=
  (∀ id ∈ mods, t.HasMod id) ∧ ∀ id ∈ versions, t.HasVersion id

end Tables

/-! ## Connections -/

/-- Why a transaction fails: a constraint, a row that has to be there and is not, or a check. -/
inductive DbError
  | constraint
  | noRows
  | refused (reason : String)
  deriving DecidableEq

/-- A transaction on the registry. -/
abbrev Conn : Type → Type := Txn Tables.Integrity DbError

/-- A statement that writes. -/
abbrev execute (f : Tables → Tables) : Conn Unit := Txn.write .constraint f

/-- The row that a query has to find. -/
def queryRow {α : Type} (row : Option α) : Conn α := row.elim (Txn.fail .noRows) pure

/-! ## Queries -/

namespace Tables

variable (t : Tables)

def modIdForAlias (source : AliasSource) (key : String) : Option ℕ :=
  (t.aliases.find? fun a => a.source = source ∧ a.externalKey = key).map AliasRow.modId

def versionForSha1 (sha1 : String) : Option (ℕ × VersionRow) :=
  t.versions.find? fun v => v.sha1 = sha1

def modIdForSha1 (sha1 : String) : Option ℕ := (t.versionForSha1 sha1).map fun v => v.2.modId

def modVersionIdForSha1 (sha1 : String) : Option ℕ := (t.versionForSha1 sha1).map Prod.fst

/-- Text without case, as it is compared (`NOCASE`). -/
def noCase (text : String) : List Char := text.toList.map Char.toLower

/-- The mod of the newest file of a name. -/
def modIdForFilename (filename : String) : Option ℕ :=
  (t.versions.rows.reverse.find? fun v => v.2.filename.any fun f => noCase f = noCase filename).map
    fun v => v.2.modId

/-- A name of a mod. -/
def nameOf (source : AliasSource) (modId : ℕ) : Option String :=
  (t.aliases.find? fun a => a.modId = modId ∧ a.source = source).map AliasRow.externalKey

def modidForMod (modId : ℕ) : Option String := t.nameOf .modid modId

def modrinthIdForMod (modId : ℕ) : Option String := t.nameOf .modrinth modId

def bridgedLoaderForProject (projectId : String) : Option String := t.bridges.lookup projectId

/-- The mod that defines a package, if there is only one. -/
def ownerModForPrefix (pkg : String) : Option ℕ :=
  match ((t.packages.filter fun p => p.2 = pkg).map Prod.fst).dedup with
  | [id] => some id
  | _ => none

/-- The mod that a dependency names, without the version range behind `@`. -/
def modIdForSelector (selector : String) : Option ℕ :=
  let name := String.ofList (selector.toList.takeWhile fun c => c ≠ '@')
  match stripPrefix name "modrinth:" with
  | some projectId => t.modIdForAlias .modrinth projectId
  | none => (t.aliases.find? fun a => a.source = .modid ∧ noCase a.externalKey = noCase name).map
      AliasRow.modId

end Tables

open Tables in
/-- A name is attached to one mod. -/
theorem Tables.Integrity.modIdForAlias_eq_some {t : Tables} (ht : t.Integrity) {source : AliasSource}
    {key : String} {id : ℕ} : t.modIdForAlias source key = some id ↔
      ∃ a ∈ t.aliases, a.source = source ∧ a.externalKey = key ∧ a.modId = id := by
  rw [modIdForAlias, Option.map_eq_some_iff]
  constructor
  · rintro ⟨a, ha, rfl⟩
    have hkey : a.source = source ∧ a.externalKey = key := of_decide_eq_true
      (List.find?_some (p := fun a : AliasRow => a.source = source ∧ a.externalKey = key) ha)
    exact ⟨a, List.mem_of_find?_eq_some ha, hkey.1, hkey.2, rfl⟩
  · rintro ⟨a, ha, hsource, hkey, rfl⟩
    rcases hfind : t.aliases.find? (fun a => a.source = source ∧ a.externalKey = key) with _ | a'
    · exact absurd (decide_eq_true ⟨hsource, hkey⟩) (List.find?_eq_none.1 hfind a ha)
    · have hkey' : a'.source = source ∧ a'.externalKey = key := of_decide_eq_true
        (List.find?_some (p := fun a : AliasRow => a.source = source ∧ a.externalKey = key) hfind)
      have he := List.inj_on_of_nodup_map ht.aliasKey (List.mem_of_find?_eq_some hfind) ha
        (Prod.ext (hkey'.1.trans hsource.symm) (hkey'.2.trans hkey.symm))
      exact ⟨a', hfind, congrArg AliasRow.modId he⟩

open Tables in
/-- A selector names a mod that is there. -/
theorem Tables.Integrity.hasMod_of_selector {t : Tables} (ht : t.Integrity) {selector : String}
    {id : ℕ} (h : t.modIdForSelector selector = some id) : t.HasMod id := by
  rw [modIdForSelector] at h
  split at h <;> obtain ⟨a, ha, rfl⟩ := Option.map_eq_some_iff.1 h <;>
    exact ht.aliasMod a (List.mem_of_find?_eq_some ha)

end Registry

end Smrt
