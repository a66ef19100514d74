import Mathlib.Data.List.Forall2
import Mathlib.Tactic.MkIffOfInductiveProp
import Smrt.Lib.Gather
import Smrt.Lib.Migrate
import Smrt.Registry.Tables

/-!
# The migrations of the registry

The registry is brought up to date when it is opened (`applyPending`): most steps are statements in
one transaction, and four are scripts that rebuild a table, as a constraint cannot be changed in
place. A registry may be of any earlier version, as far back as the one whose files had a target
each (`Sound`).

What is kept of a registry is `Kept`: every row, as it was but for what the new columns and words
say.

The steps that add tables and columns without rows are the identity here, and columns that are
copied as they are, with their times, sizes and confidences, are left out.
-/

namespace Smrt

namespace Migrations

open Migrate

/-! ## Rows -/

structure FileRow where
  id : ℕ
  modId : ℕ
  version : String
  sha1 : String
  /-- The column of the first registries. -/
  target : Option String
  releaseId : Option ℕ
  deriving DecidableEq

structure ReleaseRow where
  id : ℕ
  modId : ℕ
  versionNumber : String
  channel : String
  source : Registry.Source
  deriving DecidableEq

structure RelationRow where
  id : ℕ
  fromModId : ℕ
  fromVersionId : Option ℕ
  targetModid : String
  targetVersionRange : Option String
  kind : String
  severity : Option String
  source : Registry.Source
  deriving DecidableEq

structure PackRow where
  id : String
  /-- The column of the first registries. -/
  provenance : Option String
  deriving DecidableEq

/-- A registry of any version: its rows, and which of the tables and columns it has. -/
structure Db where
  created : Bool
  mods : List ℕ
  files : List FileRow
  targetColumn : Bool
  targets : Option (List (ℕ × String))
  releases : Option (List ReleaseRow)
  /-- The channels that a release may have. -/
  channels : List String
  relations : List RelationRow
  severityColumn : Bool
  packs : List PackRow
  provenanceColumn : Bool
  /-- The builds with their packs. -/
  builds : List (ℕ × String)

namespace Db

variable (d : Db)

def targetRows : List (ℕ × String) := d.targets.getD []

def releaseRows : List ReleaseRow := d.releases.getD []

/-- A file without tables. -/
def fresh : Db where
  created := false
  mods := []
  files := []
  targetColumn := false
  targets := none
  releases := none
  channels := []
  relations := []
  severityColumn := false
  packs := []
  provenanceColumn := false
  builds := []

end Db

/-! ## Constraints -/

def oldChannels : List String := ["release", "beta", "dev", "unknown"]

def newChannels : List String := ["release", "beta", "alpha", "unknown"]

/-- The kinds of relations, with severities or without. -/
def kinds (severityColumn : Bool) : List String :=
  ["requires", "conflicts", "optional_dep", "provides", "recommends"] ++
    if severityColumn then [] else ["breaks"]

def ReleaseRow.key (r : ReleaseRow) : ℕ × String × String := (r.modId, r.versionNumber, r.channel)

/-- What tells relations apart (`idx_rel_dedupe`): all but the place, with nothing for what is
absent. -/
def RelationRow.key (r : RelationRow) : RelationRow :=
  { r with
    id := 0
    fromVersionId := some (r.fromVersionId.getD 0)
    severity := some (r.severity.getD "")
    targetVersionRange := some (r.targetVersionRange.getD "") }

/-- An incompatibility says how hard it is, and nothing else does. -/
def Stated (kind : String) (severity : Option String) : Prop :=
  (kind = "conflicts" ↔ severity ≠ none) ∧ ∀ s ∈ severity, s ∈ ["hard", "soft"]

instance (kind : String) (severity : Option String) : Decidable (Stated kind severity) :=
  inferInstanceAs (Decidable ((kind = "conflicts" ↔ severity ≠ none) ∧ _))

/-- The unique indexes and the checks. -/
@[mk_iff]
structure Constraints (d : Db) : Prop where
  fileIds : (d.files.map FileRow.id).Nodup
  fileSha1s : (d.files.map FileRow.sha1).Nodup
  targetKeys : d.targetRows.Nodup
  releaseIds : (d.releaseRows.map ReleaseRow.id).Nodup
  releaseKeys : (d.releaseRows.map ReleaseRow.key).Nodup
  releaseChannels : ∀ r ∈ d.releaseRows, r.channel ∈ d.channels
  relationIds : (d.relations.map RelationRow.id).Nodup
  relationKeys : (d.relations.map RelationRow.key).Nodup
  relationKinds : ∀ r ∈ d.relations, r.kind ∈ kinds d.severityColumn
  relationSeverities : d.severityColumn = true → ∀ r ∈ d.relations, Stated r.kind r.severity
  packIds : (d.packs.map PackRow.id).Nodup

instance : DecidablePred Constraints := fun d => decidable_of_iff' _ (constraints_iff d)

/-- The rows of releases refer to mods that are there. -/
def Db.ReleaseMods (d : Db) : Prop := ∀ r ∈ d.releaseRows, r.modId ∈ d.mods

instance : DecidablePred Db.ReleaseMods := fun d =>
  inferInstanceAs (Decidable (∀ r ∈ d.releaseRows, _))

/-- The foreign keys. -/
@[mk_iff]
structure References (d : Db) : Prop where
  fileMod : ∀ v ∈ d.files, v.modId ∈ d.mods
  fileRelease : ∀ v ∈ d.files, ∀ r ∈ v.releaseId, r ∈ d.releaseRows.map ReleaseRow.id
  targetFile : ∀ t ∈ d.targetRows, t.1 ∈ d.files.map FileRow.id
  releaseMod : d.ReleaseMods
  relationMod : ∀ r ∈ d.relations, r.fromModId ∈ d.mods
  relationFile : ∀ r ∈ d.relations, ∀ v ∈ r.fromVersionId, v ∈ d.files.map FileRow.id
  buildPack : ∀ b ∈ d.builds, b.2 ∈ d.packs.map PackRow.id

instance : DecidablePred References := fun d => decidable_of_iff' _ (references_iff d)

/-! ## Steps -/

/-- Why a step fails. -/
inductive Failure
  | constraint
  /-- A table is there already. -/
  | present
  /-- A table is not there. -/
  | absent
  /-- Rows refer to rows that are not there. -/
  | violations
  deriving DecidableEq

/-- A transaction, in which the foreign keys are not enforced. -/
def store (d : Db) : Except Failure Db := if Constraints d then .ok d else .error .constraint

def foreignKeyCheck (d : Db) : Except Failure Unit :=
  if References d then .ok () else .error .violations

/-- The first tables (`0001_init.sql`). -/
def init (d : Db) : Except Failure Db :=
  if d.created then .error .present else store { d with created := true, targets := some [] }

def insertOrIgnore (rows : List (ℕ × String)) (row : ℕ × String) : List (ℕ × String) :=
  if rows.contains row then rows else rows ++ [row]

/-- The targets, with those of the files. -/
def Db.allTargets (d : Db) : List (ℕ × String) :=
  (d.files.filterMap fun v => v.target.map fun t => (v.id, t)).foldl insertOrIgnore
    d.targetRows

/-- The targets of the files are in a table (`0004`). -/
def Db.withTargetTable (d : Db) : Db :=
  { d with
    targets := some d.allTargets
    files := d.files.map fun v => { v with target := none, releaseId := none }
    targetColumn := false }

def modVersionHasTargetColumn (d : Db) : Bool := d.targetColumn

def reconcileTargetSchema : Script Failure Db where
  ensure d := .ok { d with targets := some d.targetRows }
  settled d := !modVersionHasTargetColumn d
  rebuild d := store d.withTargetTable
  check := foreignKeyCheck

/-- A release for each number of a mod. -/
def Db.groups (d : Db) : List ReleaseRow :=
  (d.files.map fun v => (v.modId, v.version)).dedup.mapIdx fun i g =>
    { id := i + 1, modId := g.1, versionNumber := g.2, channel := "unknown", source := .harvested }

/-- The release of the number of a file. -/
def FileRow.group (releases : List ReleaseRow) (v : FileRow) : Option ℕ :=
  (releases.find? fun r => r.modId = v.modId ∧ r.versionNumber = v.version ∧
    r.channel = "unknown").map ReleaseRow.id

/-- The files are in the releases of their numbers. -/
def Db.withReleases (d : Db) : Db :=
  { d with
    releases := some d.groups
    channels := oldChannels
    files := d.files.map fun v => { v with releaseId := v.group d.groups } }

/-- Releases over the files (`0007_mod_release.sql`). -/
def addReleases (d : Db) : Except Failure Db :=
  if d.releases.isSome then .error .present else store d.withReleases

/-- Nobody reads where a pack was from (`0009`). -/
def Db.withoutProvenance (d : Db) : Db :=
  { d with
    packs := d.packs.map fun p => { p with provenance := none }
    provenanceColumn := false }

def packHasProvenanceColumn (d : Db) : Bool := d.provenanceColumn

def dropPackProvenance : Script Failure Db where
  ensure := .ok
  settled d := !packHasProvenanceColumn d
  rebuild d := store d.withoutProvenance
  check := foreignKeyCheck

def derived : List Registry.Source := [.harvested, .jarMeta, .inferred, .modrinth]

/-- The files of a mod. -/
def filesOf (files : List FileRow) (modId : ℕ) : List ℕ :=
  (files.filter fun v => v.modId = modId).map FileRow.id

/-- The file of a mod, if it is the only one. -/
def onlyFile : List ℕ → Option ℕ
  | [id] => some id
  | _ => none

def RelationRow.attach (files : List FileRow) (r : RelationRow) : RelationRow :=
  if r.source ∈ derived then
    { r with fromVersionId := (onlyFile (filesOf files r.fromModId)).or r.fromVersionId }
  else r

def Db.withArtifacts (d : Db) : Db :=
  { d with relations := d.relations.map (RelationRow.attach d.files) }

/-- Relations belong to files (`0011_relation_artifact.sql`). -/
def attachRelations (d : Db) : Except Failure Db := store d.withArtifacts

/-- The word of a channel now. -/
def foldChannel (channel : String) : String := if channel = "dev" then "alpha" else channel

/-- A release may be an alpha (`0016`). -/
def Db.withAlpha (d : Db) : Db :=
  { d with
    releases := d.releases.map fun rs => rs.map fun r => { r with channel := foldChannel r.channel }
    channels := newChannels }

def widenReleaseChannelVocab : Script Failure Db where
  ensure d := if d.releases.isSome then .ok d else .error .absent
  settled d := d.channels.contains "alpha"
  rebuild d := store d.withAlpha
  check d := if d.ReleaseMods then .ok () else .error .violations

/-- One kind of incompatibilities. -/
def collapseKind (kind : String) : String :=
  if kind ∈ ["conflicts", "breaks"] then "conflicts" else kind

/-- How hard an old kind of incompatibilities is. -/
def collapseSeverity (kind : String) : Option String :=
  if kind = "conflicts" then some "hard" else if kind = "breaks" then some "soft" else none

def RelationRow.collapse (r : RelationRow) : RelationRow :=
  { r with kind := collapseKind r.kind, severity := collapseSeverity r.kind }

/-- An incompatibility says how hard it is (`0022`). -/
def Db.withSeverities (d : Db) : Db :=
  { d with relations := d.relations.map RelationRow.collapse, severityColumn := true }

def relationHasSeverityColumn (d : Db) : Bool := d.severityColumn

def collapseConflictKinds : Script Failure Db where
  ensure := .ok
  settled := relationHasSeverityColumn
  rebuild d := store d.withSeverities
  check := foreignKeyCheck

/-- Tables and columns that have no rows here. -/
def other : Migration Failure Db := .sql .ok

def migrations : Steps Failure Db :=
  [(1, .sql init), (2, other), (3, other), (4, .code reconcileTargetSchema), (5, other), (6, other),
    (7, .sql addReleases), (8, other), (9, .code dropPackProvenance), (10, other),
    (11, .sql attachRelations), (12, other), (13, other), (14, other), (15, other),
    (16, .code widenReleaseChannelVocab), (17, other), (18, other), (19, other), (20, other),
    (21, other), (22, .code collapseConflictKinds), (23, other), (24, other)]

/-- What a start does that is not interrupted. -/
def applyPending (version : ℕ) (d : Db) : Except Failure Db :=
  upgrade (pending migrations version) d

/-! ## Registries -/

/-- What the tables and columns of a version are. -/
structure Shaped (n : ℕ) (d : Db) : Prop where
  fresh : n = 0 → d = Db.fresh
  created : d.created = decide (0 < n)
  targets : 4 ≤ n → d.targets.isSome = true ∧ d.targetColumn = false
  target : ∀ v ∈ d.files, v.target.isSome = d.targetColumn
  releases : d.releases.isSome = decide (7 ≤ n)
  release : n < 7 → ∀ v ∈ d.files, v.releaseId = none
  channels : 7 ≤ n → d.channels = if n < 16 then oldChannels else newChannels
  provenance : 9 ≤ n → d.provenanceColumn = false
  artifact : n < 11 → ∀ r ∈ d.relations, r.fromVersionId = none
  severityColumn : d.severityColumn = decide (22 ≤ n)
  severity : n < 22 → ∀ r ∈ d.relations, r.severity = none

/-- A registry of a version, as it is while nothing is being done to it. -/
structure Sound (n : ℕ) (d : Db) : Prop where
  shaped : Shaped n d
  constraints : Constraints d
  references : References d

/-- How much a relation says, in the words of now. -/
def meaning (kind : String) (severity : Option String) : String × Option String :=
  if kind = "breaks" then ("conflicts", some "soft")
  else if kind = "conflicts" then ("conflicts", some (severity.getD "hard"))
  else (kind, severity)

/-- A relation is kept: it is of the same file, or of the only file of its mod. -/
structure RelationRow.Kept (files : List FileRow) (r r' : RelationRow) : Prop where
  id : r'.id = r.id
  fromModId : r'.fromModId = r.fromModId
  targetModid : r'.targetModid = r.targetModid
  targetVersionRange : r'.targetVersionRange = r.targetVersionRange
  source : r'.source = r.source
  meaning : meaning r'.kind r'.severity = meaning r.kind r.severity
  file : r'.fromVersionId = r.fromVersionId ∨ r.fromVersionId = none ∧ r.source ∈ derived ∧
    r'.fromVersionId = onlyFile (filesOf files r.fromModId)

structure FileRow.Kept (v v' : FileRow) : Prop where
  id : v'.id = v.id
  modId : v'.modId = v.modId
  version : v'.version = v.version
  sha1 : v'.sha1 = v.sha1
  release : ∀ r ∈ v.releaseId, v'.releaseId = some r

structure ReleaseRow.Kept (r r' : ReleaseRow) : Prop where
  id : r'.id = r.id
  modId : r'.modId = r.modId
  versionNumber : r'.versionNumber = r.versionNumber
  channel : foldChannel r'.channel = foldChannel r.channel
  source : r'.source = r.source

/-- A file suits a target, as the one column or the table of targets says. -/
def Db.Suits (d : Db) (id : ℕ) (target : String) : Prop :=
  (∃ v ∈ d.files, v.id = id ∧ v.target = some target) ∨ (id, target) ∈ d.targetRows

/-- Every file is in the release of its number. -/
def Db.Grouped (d : Db) : Prop := ∀ v ∈ d.files, ∃ r ∈ d.releaseRows,
  v.releaseId = some r.id ∧ r.modId = v.modId ∧ r.versionNumber = v.version

/-- What is kept of a registry. -/
structure Kept (d d' : Db) : Prop where
  mods : d'.mods = d.mods
  files : List.Forall₂ FileRow.Kept d.files d'.files
  suits : ∀ id target, d'.Suits id target ↔ d.Suits id target
  releases : d.releases ≠ none → d'.releases ≠ none ∧
    List.Forall₂ ReleaseRow.Kept d.releaseRows d'.releaseRows
  grouped : d.releases = none → d'.releases = none ∨ d'.Grouped
  relations : List.Forall₂ (RelationRow.Kept d.files) d.relations d'.relations
  packs : d'.packs.map PackRow.id = d.packs.map PackRow.id
  builds : d'.builds = d.builds

/-! ## What is kept is kept on -/

section Rows

variable {α β : Type} {R : α → β → Prop} {l : List α} {l' : List β}

theorem map_eq_of_forall₂ {γ : Type} {f : α → γ} {g : β → γ} (h : List.Forall₂ R l l')
    (hf : ∀ a b, R a b → g b = f a) : l'.map g = l.map f := by
  induction h with
  | nil => rfl
  | cons hab _ ih => rw [List.map_cons, List.map_cons, hf _ _ hab, ih]

theorem exists_of_forall₂ (h : List.Forall₂ R l l') {b : β} (hb : b ∈ l') :
    ∃ a ∈ l, R a b := by
  induction h with
  | nil => exact absurd hb List.not_mem_nil
  | cons hab _ ih =>
    rcases List.mem_cons.1 hb with rfl | hb
    · exact ⟨_, List.mem_cons_self, hab⟩
    · obtain ⟨a, ha, h⟩ := ih hb
      exact ⟨a, List.mem_cons_of_mem _ ha, h⟩

theorem exists_of_forall₂' (h : List.Forall₂ R l l') {a : α} (ha : a ∈ l) :
    ∃ b ∈ l', R a b := by
  obtain ⟨b, hb, hab⟩ := exists_of_forall₂ h.flip ha
  exact ⟨b, hb, hab⟩

theorem forall₂_trans {γ : Type} {S : β → γ → Prop} {T : α → γ → Prop} {l'' : List γ}
    (h : List.Forall₂ R l l') (h' : List.Forall₂ S l' l'')
    (hT : ∀ a b c, R a b → S b c → T a c) : List.Forall₂ T l l'' := by
  induction h generalizing l'' with
  | nil =>
    rcases h' with _ | _
    exact .nil
  | cons hab _ ih =>
    rcases h' with _ | ⟨hbc, hrest⟩
    exact .cons (hT _ _ _ hab hbc) (ih hrest)

/-- Rows that are changed one by one. -/
theorem forall₂_map {R : α → α → Prop} {f : α → α} (h : ∀ a ∈ l, R a (f a)) :
    List.Forall₂ R l (l.map f) :=
  List.forall₂_map_right_iff.2 (List.forall₂_same.2 h)

end Rows

section Keep

variable {d d' d'' : Db}

theorem FileRow.Kept.refl (v : FileRow) : v.Kept v := ⟨rfl, rfl, rfl, rfl, fun _ h => h⟩

theorem ReleaseRow.Kept.refl (r : ReleaseRow) : r.Kept r := ⟨rfl, rfl, rfl, rfl, rfl⟩

theorem RelationRow.Kept.refl (files : List FileRow) (r : RelationRow) : r.Kept files r :=
  ⟨rfl, rfl, rfl, rfl, rfl, rfl, .inl rfl⟩

theorem FileRow.Kept.trans {v v' v'' : FileRow} (h : v.Kept v') (h' : v'.Kept v'') :
    v.Kept v'' where
  id := h'.id.trans h.id
  modId := h'.modId.trans h.modId
  version := h'.version.trans h.version
  sha1 := h'.sha1.trans h.sha1
  release := fun r hr => h'.release r (h.release r hr)

theorem ReleaseRow.Kept.trans {r r' r'' : ReleaseRow} (h : r.Kept r') (h' : r'.Kept r'') :
    r.Kept r'' where
  id := h'.id.trans h.id
  modId := h'.modId.trans h.modId
  versionNumber := h'.versionNumber.trans h.versionNumber
  channel := h'.channel.trans h.channel
  source := h'.source.trans h.source

theorem RelationRow.Kept.trans {files files' : List FileRow} {r r' r'' : RelationRow}
    (hfiles : filesOf files' r.fromModId = filesOf files r.fromModId) (h : r.Kept files r')
    (h' : r'.Kept files' r'') : r.Kept files r'' where
  id := h'.id.trans h.id
  fromModId := h'.fromModId.trans h.fromModId
  targetModid := h'.targetModid.trans h.targetModid
  targetVersionRange := h'.targetVersionRange.trans h.targetVersionRange
  source := h'.source.trans h.source
  meaning := h'.meaning.trans h.meaning
  file := by
    rcases h'.file with hsame | ⟨hnone, hderived, hfile⟩
    · rw [hsame]
      exact h.file
    · rw [h.source] at hderived
      rw [h.fromModId, hfiles] at hfile
      rcases h.file with hsame | ⟨hwas, -, -⟩
      · exact .inr ⟨hsame.symm.trans hnone, hderived, hfile⟩
      · exact .inr ⟨hwas, hderived, hfile⟩

/-- The files of a mod are known by what is kept of them. -/
theorem filesOf_eq {files files' : List FileRow} (h : List.Forall₂ FileRow.Kept files files')
    (modId : ℕ) : filesOf files' modId = filesOf files modId := by
  rw [filesOf, filesOf]
  induction h with
  | nil => rfl
  | @cons v v' _ _ hv _ ih =>
    rw [List.filter_cons, List.filter_cons, hv.modId]
    by_cases hmod : v.modId = modId
    · rw [if_pos (decide_eq_true hmod), if_pos (decide_eq_true hmod), List.map_cons, List.map_cons,
        hv.id, ih]
    · rw [if_neg (by simpa using hmod), if_neg (by simpa using hmod), ih]

theorem Kept.refl (d : Db) : Kept d d where
  mods := rfl
  files := List.forall₂_same.2 fun v _ => .refl v
  suits := fun _ _ => .rfl
  releases := fun h => ⟨h, List.forall₂_same.2 fun r _ => .refl r⟩
  grouped := .inl
  relations := List.forall₂_same.2 fun r _ => .refl _ r
  packs := rfl
  builds := rfl

/-- Files that are in the releases of their numbers stay there. -/
theorem Db.Grouped.kept (h : d.Grouped) (hkept : Kept d d') (hreleases : d.releases ≠ none) :
    d'.Grouped := by
  intro v' hv'
  obtain ⟨v, hv, hvv⟩ := exists_of_forall₂ hkept.files hv'
  obtain ⟨r, hr, hrelease, hmod, hnumber⟩ := h v hv
  obtain ⟨r', hr', hrr⟩ := exists_of_forall₂' (hkept.releases hreleases).2 hr
  refine ⟨r', hr', ?_, ?_, ?_⟩
  · rw [hrr.id]
    exact hvv.release r.id hrelease
  · rw [hrr.modId, hvv.modId, hmod]
  · rw [hrr.versionNumber, hvv.version, hnumber]

theorem Kept.trans (h : Kept d d') (h' : Kept d' d'') : Kept d d'' where
  mods := h'.mods.trans h.mods
  files := forall₂_trans h.files h'.files fun _ _ _ => .trans
  suits := fun id target => (h'.suits id target).trans (h.suits id target)
  releases := by
    intro hsome
    obtain ⟨hsome', hrows⟩ := h.releases hsome
    obtain ⟨hsome'', hrows'⟩ := h'.releases hsome'
    exact ⟨hsome'', forall₂_trans hrows hrows' fun _ _ _ => .trans⟩
  grouped := by
    intro hnone
    by_cases hnone' : d'.releases = none
    · exact h'.grouped hnone'
    · exact .inr (((h.grouped hnone).resolve_left hnone').kept h' hnone')
  relations := forall₂_trans h.relations h'.relations fun r _ _ =>
    .trans (filesOf_eq h.files r.fromModId)
  packs := h'.packs.trans h.packs
  builds := h'.builds.trans h.builds

end Keep

end Migrations

end Smrt
