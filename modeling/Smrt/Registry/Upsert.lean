import Smrt.Registry.Tables

/-!
# Writing to the registry

The writers that a harvest uses, row by row. Each is keyed by what makes the row what it is, so that
writing it again changes nothing, and none overwrites a precious row.

None of them takes a mod or a file away, and none fails, provided the mod and the file that it is
about are there: with these among the mods and files that it `Keeps`.
-/

namespace Smrt

namespace Registry

open Tables

/-! ## Mods and files -/

/-- What is known fills a gap; what is not leaves the row as it is. -/
def setModMeta (modId : ℕ) (name slug : Option String) : Conn Unit :=
  execute fun t =>
    { t with mods := t.mods.modify modId fun m =>
        if m.source.isPrecious then m
        else { m with canonicalName := name.or m.canonicalName, slug := slug.or m.slug } }

def Tables.releaseFor (t : Tables) (modId : ℕ) (versionNumber : String) (channel : Channel) :
    Option ℕ :=
  (t.releases.find? fun r =>
    r.modId = modId ∧ r.versionNumber = versionNumber ∧ r.channel = channel).map Prod.fst

/-- The release of a version in a channel, which is made if it is not there. -/
def upsertRelease (source : Source) (modId : ℕ) (versionNumber : String) (channel : Channel) :
    Conn ℕ := do
  let t ← Txn.read
  match t.releaseFor modId versionNumber channel with
  | some id => pure id
  | none => do
    execute fun t =>
      { t with releases := t.releases.insert { modId, versionNumber, channel, source } }
    pure t.releases.nextId

/-- The loaders that a file suits, instead of those it had. -/
def setModVersionTargets (versionId : ℕ) (targets : List String) (precious : Bool) : Conn Unit :=
  if precious then pure () else do
    execute fun t => { t with targets := t.targets.filter fun p => p.1 ≠ versionId }
    (if targets = [] then ["any"] else targets).forM fun target =>
      execute fun t => { t with targets := t.targets.insert (versionId, target) }

/-- The files, with one that is put down to a mod. -/
def Tables.putVersion (t : Tables) (modId : ℕ) (version sha1 : String) (filename : Option String)
    (mcVersions : List String) : Table VersionRow :=
  match t.versionForSha1 sha1 with
  | none => t.versions.insert
      { modId, version, sha1, filename, mcVersions, releaseId := none, source := .harvested }
  | some (id, _) => t.versions.modify id fun v =>
      if v.source.isPrecious then v else { v with modId, version, filename, mcVersions }

/-- A file is put down to a mod, under a release of its version. -/
def upsertModVersion (modId : ℕ) (version : String) (targets : List String) (sha1 : String)
    (filename : Option String) (mcVersions : List String) : Conn ℕ := do
  execute fun t =>
    { t with versions := t.putVersion modId version sha1 filename mcVersions }
  let t ← Txn.read
  let (id, v) ← queryRow (t.versionForSha1 sha1)
  setModVersionTargets id targets v.source.isPrecious
  if v.source.isPrecious then pure id else do
    let releaseId ← upsertRelease .harvested modId version .unknown
    execute fun t =>
      { t with versions := t.versions.modify id fun v =>
          if v.source.isPrecious then v else { v with releaseId := some releaseId } }
    pure id

/-- A file is moved to the release of its channel. -/
def setHarvestedRelease (sha1 : String) (modId : ℕ) (version : String) (channel : Channel) :
    Conn Unit := do
  let t ← Txn.read
  match t.versionForSha1 sha1 with
  | none => pure ()
  | some (id, v) =>
    if v.source.isPrecious then pure () else do
      let releaseId ← upsertRelease .harvested modId version channel
      execute fun t =>
        { t with versions := t.versions.modify id fun v => { v with releaseId := some releaseId } }

/-- The releases that no file is in are dropped, if they are harvested. -/
def pruneEmptyReleases : Conn Unit :=
  execute fun t =>
    { t with releases := t.releases.filter fun id r =>
        r.source.isPrecious || t.versions.rows.any fun v => v.2.releaseId = some id }

def setModPackages (modId : ℕ) (prefixes : List String) : Conn Unit :=
  prefixes.forM fun pkg => execute fun t => { t with packages := t.packages.insert (modId, pkg) }

/-- What the mixins of a file need, instead of what they did. -/
def setMixinNeeds (versionId : ℕ) (needs : List (String × String)) : Conn Unit := do
  execute fun t => { t with needs := t.needs.filter fun p => p.1 ≠ versionId }
  needs.forM fun need =>
    execute fun t => { t with needs := t.needs.insert (versionId, need.1, need.2) }

/-! ## Relations -/

/-- A relation, without where it starts. -/
structure Edge where
  target : String
  range : Option String
  kind : RelKind
  severity : Option Severity
  source : Source

/-- Only a conflict has a severity, and it always has one. -/
def Edge.row (e : Edge) (fromModId : ℕ) (fromVersionId : Option ℕ) (rank : ℕ) :
    RelationRow where
  fromModId
  fromVersionId
  target := e.target
  range := e.range
  kind := e.kind
  severity := if e.kind = .conflicts then some (e.severity.getD .hard) else none
  source := e.source
  confidence := rank

/-- A row is added, unless there is one that is the same. -/
def insertOrIgnore (r : RelationRow) (l : List RelationRow) : List RelationRow :=
  if r.dedupeKey ∈ l.map RelationRow.dedupeKey then l else l ++ [r]

def upsertRelationRanked (fromModId : ℕ) (fromVersionId : Option ℕ) (e : Edge) (rank : ℕ) :
    Conn Unit :=
  execute fun t =>
    { t with relations := insertOrIgnore (e.row fromModId fromVersionId rank) t.relations }

def upsertRelation (fromModId : ℕ) (fromVersionId : Option ℕ) (e : Edge) : Conn Unit :=
  upsertRelationRanked fromModId fromVersionId e e.source.rank

/-! ## Classes -/

/-- The classes of the jars, with one that replaces what was known of the jar. -/
def putJarClass (row : JarClassRow) (l : List JarClassRow) : List JarClassRow :=
  if row.sha1 ∈ l.map JarClassRow.sha1 then l.map fun c => if c.sha1 = row.sha1 then row else c
  else l ++ [row]

/-- The class that a jar is found to have, unless one was decided. -/
def setJarClass (sha1 kind : String) (side matchPolicy sideConfidence : Option String) :
    Conn Unit :=
  execute fun t =>
    if (t.jarClasses.any fun c => c.sha1 = sha1 ∧ c.source = .authored) then t
    else
      { t with
        jarClasses := putJarClass
          { sha1, kind, side, matchPolicy, sideConfidence, source := .harvested } t.jarClasses }

/-! ## Builds -/

def upsertPack (packId : String) : Conn Unit :=
  execute fun t => { t with packs := t.packs.insert packId }

def Tables.buildFor (t : Tables) (packId packVersion : String) : Option ℕ :=
  (t.builds.find? fun b => b.packId = packId ∧ b.packVersion = packVersion).map Prod.fst

def upsertPackBuild (packId packVersion : String) (isLatest : Bool) : Conn ℕ := do
  execute fun t =>
    { t with builds := match t.buildFor packId packVersion with
        | none => t.builds.insert { packId, packVersion, isLatest }
        | some id => t.builds.modify id fun b => { b with isLatest } }
  let t ← Txn.read
  queryRow (t.buildFor packId packVersion)

/-- The files of the builds, with one of a build, under the name that it has there. -/
def putBuildMod (row : BuildModRow) (l : List BuildModRow) : List BuildModRow :=
  if (l.any fun p => p.buildId = row.buildId ∧ p.versionId = row.versionId) then
    l.map fun p => if p.buildId = row.buildId ∧ p.versionId = row.versionId then row else p
  else l ++ [row]

def linkBuildMod (buildId versionId : ℕ) (filename : String) : Conn Unit :=
  execute fun t => { t with buildMods := putBuildMod { buildId, versionId, filename } t.buildMods }

/-! ## What stays -/

/-- The transaction lands, and these mods and files stay. -/
def Keeps {α : Type} (mods versions : List ℕ) (m : Conn α) : Prop :=
  Txn.Lands (fun t => t.Has mods versions) m fun _ t => t.Has mods versions

section Rules

variable {mods versions : List ℕ} {α β : Type}

theorem lands_execute {P Q : Tables → Prop} {f : Tables → Tables}
    (h : ∀ t : Tables, t.Integrity → P t → (f t).Integrity ∧ Q (f t)) :
    Txn.Lands P (execute f) fun _ => Q := Txn.Lands.write h

theorem keeps_execute {f : Tables → Tables}
    (h : ∀ t : Tables, t.Integrity → t.Has mods versions →
      (f t).Integrity ∧ (f t).Has mods versions) : Keeps mods versions (execute f) :=
  Txn.Lands.write h

theorem Keeps.bind {m : Conn α} {f : α → Conn β} (hm : Keeps mods versions m)
    (hf : ∀ a, Keeps mods versions (f a)) : Keeps mods versions (m >>= f) :=
  Txn.Lands.bind hm hf

theorem keeps_pure (a : α) : Keeps mods versions (pure a : Conn α) :=
  Txn.Lands.pure fun _ _ h => h

theorem keeps_forM {l : List β} {f : β → Conn PUnit} (h : ∀ x ∈ l, Keeps mods versions (f x)) :
    Keeps mods versions (l.forM f) := Txn.Lands.forM h

theorem lands_queryRow {P : Tables → Prop} {row : Option α} {Q : α → Tables → Prop}
    (h : ∀ t : Tables, P t → ∃ a, row = some a ∧ Q a t) : Txn.Lands P (queryRow row) Q := by
  intro s hs
  obtain ⟨a, rfl, hq⟩ := h s.1 hs
  exact ⟨a, s, rfl, hq⟩

end Rules

section Integrity

variable {t : Tables}

/-- Mods may change, as long as none goes. -/
theorem Tables.Integrity.of_mods (h : t.Integrity) {mods : Table ModRow}
    (hmods : ∀ id, t.HasMod id → (mods.get? id).isSome) : ({ t with mods }).Integrity :=
  { h with
    aliasMod := fun a ha => hmods _ (h.aliasMod a ha)
    releaseMod := h.releaseMod.imp fun _ hr => hmods _ hr
    versionMod := h.versionMod.imp fun _ hv => hmods _ hv
    relationMod := fun r hr => hmods _ (h.relationMod r hr)
    packageMod := fun p hp => hmods _ (h.packageMod p hp) }

/-- Files may change, as long as none goes, and what they refer to is there. -/
theorem Tables.Integrity.of_versions (h : t.Integrity) {versions : Table VersionRow}
    (hversions : ∀ id, t.HasVersion id → (versions.get? id).isSome)
    (hmod : versions.All fun v => t.HasMod v.modId)
    (hrelease : versions.All fun v => ∀ r ∈ v.releaseId, t.HasRelease r)
    (hsha1 : versions.Distinct VersionRow.sha1) (hzero : ¬ (versions.get? 0).isSome) :
    ({ t with versions }).Integrity :=
  { h with
    versionMod := hmod
    versionRelease := hrelease
    versionSha1 := hsha1
    versionZero := hzero
    relationVersion := fun r hr v hv => hversions _ (h.relationVersion r hr v hv)
    targetVersion := fun p hp => hversions _ (h.targetVersion p hp)
    needVersion := fun p hp => hversions _ (h.needVersion p hp)
    buildModVersion := fun p hp => hversions _ (h.buildModVersion p hp) }

theorem Tables.Integrity.of_targets (h : t.Integrity) {targets : List (ℕ × String)}
    (htargets : ∀ p ∈ targets, t.HasVersion p.1) : ({ t with targets }).Integrity :=
  { h with targetVersion := htargets }

theorem Tables.Integrity.of_needs (h : t.Integrity) {needs : List (ℕ × String × String)}
    (hneeds : ∀ p ∈ needs, t.HasVersion p.1) : ({ t with needs }).Integrity :=
  { h with needVersion := hneeds }

theorem Tables.Integrity.of_packages (h : t.Integrity) {packages : List (ℕ × String)}
    (hpackages : ∀ p ∈ packages, t.HasMod p.1) (hkey : packages.Nodup) :
    ({ t with packages }).Integrity :=
  { h with packageMod := hpackages, packageKey := hkey }

theorem Tables.Integrity.of_relations (h : t.Integrity) {relations : List RelationRow}
    (hmod : ∀ r ∈ relations, t.HasMod r.fromModId)
    (hversion : ∀ r ∈ relations, ∀ v ∈ r.fromVersionId, t.HasVersion v)
    (hkey : (relations.map RelationRow.dedupeKey).Nodup) : ({ t with relations }).Integrity :=
  { h with relationMod := hmod, relationVersion := hversion, relationKey := hkey }

theorem Tables.Integrity.of_buildMods (h : t.Integrity) {buildMods : List BuildModRow}
    (hbuild : ∀ p ∈ buildMods, t.HasBuild p.buildId)
    (hversion : ∀ p ∈ buildMods, t.HasVersion p.versionId)
    (hkey : (buildMods.map fun p => (p.buildId, p.versionId)).Nodup) :
    ({ t with buildMods }).Integrity :=
  { h with buildModBuild := hbuild, buildModVersion := hversion, buildModKey := hkey }

theorem Tables.Integrity.of_jarClasses (h : t.Integrity) {jarClasses : List JarClassRow}
    (hsha1 : (jarClasses.map JarClassRow.sha1).Nodup) : ({ t with jarClasses }).Integrity :=
  { h with jarClassSha1 := hsha1 }

/-- Releases may change, as long as those go only in which there is no file. -/
theorem Tables.Integrity.of_releases (h : t.Integrity) {releases : Table ReleaseRow}
    (hmod : releases.All fun r => t.HasMod r.modId)
    (hkey : releases.Distinct fun r => (r.modId, r.versionNumber, r.channel))
    (hversion : t.versions.All fun v => ∀ r ∈ v.releaseId, (releases.get? r).isSome) :
    ({ t with releases }).Integrity :=
  { h with releaseMod := hmod, releaseKey := hkey, versionRelease := hversion }

end Integrity

/-- What holds of a new item and of all others. -/
theorem forall_mem_insert {α : Type} [BEq α] [LawfulBEq α] {p : α → Prop} {a : α} {l : List α}
    (hl : ∀ x ∈ l, p x) (ha : p a) : ∀ x ∈ l.insert a, p x := by
  intro x hx
  rcases List.mem_insert_iff.1 hx with rfl | hx
  · exact ha
  · exact hl x hx

/-! ## The writers land -/

section Land

variable {mods versions : List ℕ} {modId versionId : ℕ}

theorem Tables.get?_of_releaseFor {t : Tables} {versionNumber : String} {channel : Channel} {id : ℕ}
    (h : t.releaseFor modId versionNumber channel = some id) :
    ∃ r, t.releases.get? id = some r ∧ r.modId = modId ∧ r.versionNumber = versionNumber ∧
      r.channel = channel := by
  obtain ⟨⟨i, r⟩, hr, rfl⟩ := Option.map_eq_some_iff.1 h
  obtain ⟨hget, hkey⟩ := Table.get?_of_find? hr
  exact ⟨r, hget, of_decide_eq_true hkey⟩

theorem Tables.all_of_releaseFor {t : Tables} {versionNumber : String} {channel : Channel}
    (h : t.releaseFor modId versionNumber channel = none) :
    t.releases.All fun r => (r.modId, r.versionNumber, r.channel) ≠
      (modId, versionNumber, channel) := by
  refine (Table.all_of_find? (Option.map_eq_none_iff.1 h)).imp fun r hr he => hr ?_
  simp only [Prod.mk.injEq] at he
  exact decide_eq_true he

/-- There is a release afterwards, and nothing but the releases has changed. -/
theorem lands_upsertRelease {P : Tables → Prop} (source : Source) (versionNumber : String)
    (channel : Channel) (hmod : ∀ t, P t → t.HasMod modId)
    (hP : ∀ t releases, P t → P { t with releases }) :
    Txn.Lands P (upsertRelease source modId versionNumber channel) fun id t =>
      P t ∧ t.HasRelease id := by
  refine Txn.Lands.read_bind fun t ht hp => ?_
  rcases hfor : t.releaseFor modId versionNumber channel with _ | id
  · refine Txn.Lands.bind (lands_execute (Q := fun t' => P t' ∧ t'.HasRelease t.releases.nextId)
      fun t' ht' he => ?_) fun _ => Txn.Lands.pure fun _ _ h => h
    subst t'
    refine ⟨ht.of_releases (ht.releaseMod.insert (hmod _ hp))
      (ht.releaseKey.insert (all_of_releaseFor hfor)) ?_, hP _ _ hp, ?_⟩
    · exact ht.versionRelease.imp fun v hv r hr => Table.isSome_get?_insert (hv r hr)
    · exact Option.isSome_iff_exists.2 ⟨_, Table.get?_insert_nextId⟩
  · obtain ⟨r, hr, -⟩ := get?_of_releaseFor hfor
    refine Txn.Lands.pure fun t' _ he => ?_
    rw [he]
    exact ⟨hp, Option.isSome_iff_exists.2 ⟨r, hr⟩⟩

theorem keeps_setModVersionTargets (hversion : versionId ∈ versions) (targets : List String)
    (precious : Bool) : Keeps mods versions (setModVersionTargets versionId targets precious) := by
  rw [setModVersionTargets]
  by_cases hprecious : precious = true
  · rw [if_pos hprecious]
    exact keeps_pure ()
  · rw [if_neg hprecious]
    refine Keeps.bind (keeps_execute fun t ht hhas => ⟨ht.of_targets fun p hp => ?_, hhas⟩)
      fun _ => keeps_forM fun target _ => keeps_execute fun t ht hhas => ⟨ht.of_targets ?_, hhas⟩
    · exact ht.targetVersion p (List.mem_of_mem_filter hp)
    · exact forall_mem_insert ht.targetVersion (hhas.2 versionId hversion)

theorem keeps_setMixinNeeds (hversion : versionId ∈ versions) (needs : List (String × String)) :
    Keeps mods versions (setMixinNeeds versionId needs) :=
  Keeps.bind (keeps_execute fun _ ht hhas =>
    ⟨ht.of_needs fun p hp => ht.needVersion p (List.mem_of_mem_filter hp), hhas⟩)
    fun _ => keeps_forM fun _ _ => keeps_execute fun _ ht hhas =>
      ⟨ht.of_needs (forall_mem_insert ht.needVersion (hhas.2 versionId hversion)), hhas⟩

/-- A relation of a mod and a file that are there can be added. -/
theorem Tables.Integrity.insertOrIgnore {t : Tables} (h : t.Integrity) {r : RelationRow}
    (hmod : t.HasMod r.fromModId) (hversion : ∀ v ∈ r.fromVersionId, t.HasVersion v) :
    ({ t with relations := Registry.insertOrIgnore r t.relations }).Integrity := by
  rw [Registry.insertOrIgnore]
  split_ifs with hdup
  · exact h
  · refine h.of_relations ?_ ?_ ?_
    · exact List.forall_mem_append.2 ⟨h.relationMod, List.forall_mem_singleton.2 hmod⟩
    · exact List.forall_mem_append.2 ⟨h.relationVersion, List.forall_mem_singleton.2 hversion⟩
    · rw [List.map_append, List.map_singleton]
      exact List.nodup_append.2 ⟨h.relationKey, List.nodup_singleton _, fun a ha b hb hab =>
        hdup (List.mem_singleton.1 hb ▸ hab ▸ ha)⟩

theorem keeps_upsertRelationRanked (hmod : modId ∈ mods) {fromVersionId : Option ℕ}
    (hversion : ∀ v ∈ fromVersionId, v ∈ versions) (e : Edge) (rank : ℕ) :
    Keeps mods versions (upsertRelationRanked modId fromVersionId e rank) :=
  keeps_execute fun _ ht hhas =>
    ⟨ht.insertOrIgnore (hhas.1 _ hmod) fun v hv => hhas.2 v (hversion v hv), hhas⟩

/-- A file that is put down to a mod is there, and every other one stays. -/
theorem putVersion_spec {t : Tables} (ht : t.Integrity) (hmod : t.HasMod modId)
    (version sha1 : String) (filename : Option String) (mcVersions : List String) :
    ({ t with versions := t.putVersion modId version sha1 filename mcVersions }).Integrity ∧
      (∀ id, t.HasVersion id →
        ((t.putVersion modId version sha1 filename mcVersions).get? id).isSome) ∧
      ∃ p, (t.putVersion modId version sha1 filename mcVersions).find?
        (fun v => v.sha1 = sha1) = some p := by
  have hfind : ∀ {versions : Table VersionRow} {id : ℕ} {v : VersionRow},
      versions.get? id = some v → v.sha1 = sha1 →
        ∃ p, versions.find? (fun v => v.sha1 = sha1) = some p := by
    intro versions id v hv hsha1
    rcases hnone : versions.find? (fun v => v.sha1 = sha1) with _ | p
    · exact absurd (decide_eq_true hsha1) ((Table.all_of_find? hnone).get hv)
    · exact ⟨p, rfl⟩
  rw [putVersion]
  rcases hfor : t.versionForSha1 sha1 with _ | ⟨id, v⟩
  · have hkeep : ∀ id, t.HasVersion id →
        ((t.versions.insert
          ⟨modId, version, sha1, filename, mcVersions, none, .harvested⟩).get? id).isSome :=
      fun id hid => Table.isSome_get?_insert hid
    have hold : ((t.versions.insert
        ⟨modId, version, sha1, filename, mcVersions, none, .harvested⟩).get? 0).isSome →
          t.HasVersion 0 := fun h => by
      rwa [Table.get?_insert_of_ne (Nat.succ_ne_zero _).symm] at h
    have hfresh : t.versions.All fun v => v.sha1 ≠ sha1 :=
      (Table.all_of_find? hfor).imp fun v hv he => hv (decide_eq_true he)
    exact ⟨ht.of_versions hkeep (ht.versionMod.insert hmod) (ht.versionRelease.insert nofun)
      (ht.versionSha1.insert hfresh) (ht.versionZero ∘ hold), hkeep,
      hfind Table.get?_insert_nextId rfl⟩
  · obtain ⟨hget, hsha1⟩ := Table.get?_of_find? hfor
    have hkeep : ∀ j, t.HasVersion j → ((t.versions.modify id fun v =>
        if v.source.isPrecious then v
        else { v with modId, version, filename, mcVersions }).get? j).isSome :=
      fun j hj => Table.isSome_get?_modify.trans hj
    refine ⟨ht.of_versions hkeep (ht.versionMod.modify fun r hr => ?_)
      (ht.versionRelease.modify fun r hr => ?_) (ht.versionSha1.modify_of_eq fun r => ?_)
      (ht.versionZero ∘ Table.isSome_get?_modify.symm.trans), hkeep, ?_⟩
    · split_ifs
      · exact ht.versionMod.get hr
      · exact hmod
    · have hrelease := ht.versionRelease.get hr
      split_ifs <;> exact hrelease
    · split_ifs <;> rfl
    · refine hfind (Table.get?_modify_self.trans (congrArg _ hget)) ?_
      dsimp only
      split_ifs <;> exact of_decide_eq_true hsha1

/-- A file may be moved to a release that is there. -/
theorem Tables.Integrity.setRelease {t : Tables} (ht : t.Integrity) {releaseId : ℕ}
    (hrelease : t.HasRelease releaseId) {f : VersionRow → VersionRow}
    (hf : ∀ v, f v = v ∨ f v = { v with releaseId := some releaseId }) (id : ℕ) :
    ({ t with versions := t.versions.modify id f }).Integrity := by
  refine ht.of_versions (fun j hj => Table.isSome_get?_modify.trans hj)
    (ht.versionMod.modify fun v hv => ?_) (ht.versionRelease.modify fun v hv => ?_)
    (ht.versionSha1.modify_of_eq fun v => ?_)
    (ht.versionZero ∘ Table.isSome_get?_modify.symm.trans) <;>
    rcases hf v with he | he <;> rw [he]
  · exact ht.versionMod.get hv
  · exact (ht.versionMod.get hv :)
  · exact ht.versionRelease.get hv
  · intro r hr
    obtain rfl := Option.some.inj hr
    exact hrelease

theorem Tables.Has.of_releases {t : Tables} (releases : Table ReleaseRow)
    (h : t.Has mods versions) : ({ t with releases }).Has mods versions := h

theorem Tables.Has.modifyVersion {t : Tables} {f : VersionRow → VersionRow}
    (h : t.Has mods versions) (id : ℕ) :
    ({ t with versions := t.versions.modify id f }).Has mods versions :=
  ⟨h.1, fun v hv => Table.isSome_get?_modify.trans (h.2 v hv)⟩

/-- The file is there afterwards. -/
theorem lands_upsertModVersion (hmod : modId ∈ mods) (version : String) (targets : List String)
    (sha1 : String) (filename : Option String) (mcVersions : List String) :
    Txn.Lands (fun t => t.Has mods versions)
      (upsertModVersion modId version targets sha1 filename mcVersions) fun id t =>
        t.Has mods (id :: versions) := by
  refine Txn.Lands.bind (Q := fun _ t => t.Has mods versions ∧
    ∃ p, t.versionForSha1 sha1 = some p) (lands_execute fun t ht hhas => ?_) fun _ => ?_
  · obtain ⟨hint, hkeep, hfind⟩ := putVersion_spec ht (hhas.1 modId hmod) version sha1 filename
      mcVersions
    exact ⟨hint, ⟨hhas.1, fun v hv => hkeep v (hhas.2 v hv)⟩, hfind⟩
  refine Txn.Lands.read_bind fun t ht hp => ?_
  refine Txn.Lands.bind (Q := fun p t' => t'.Has mods (p.1 :: versions))
    (lands_queryRow fun t' he => ?_) fun p => ?_
  · obtain ⟨hhas, p, hp⟩ := hp
    refine ⟨p, hp, he ▸ ⟨hhas.1, List.forall_mem_cons.2 ⟨?_, hhas.2⟩⟩⟩
    exact Option.isSome_iff_exists.2 ⟨p.2, (Table.get?_of_find? hp).1⟩
  obtain ⟨id, v⟩ := p
  refine Txn.Lands.bind (keeps_setModVersionTargets List.mem_cons_self targets _) fun _ => ?_
  dsimp only
  split_ifs
  · exact Txn.Lands.pure fun _ _ h => h
  · refine Txn.Lands.bind (lands_upsertRelease .harvested version .unknown
      (fun t h => h.1 modId hmod) fun t releases h => h.of_releases releases) fun releaseId => ?_
    refine Txn.Lands.bind (lands_execute (Q := fun t => t.Has mods (id :: versions))
      fun t ht h => ⟨ht.setRelease h.2 (fun v => ?_) id, h.1.modifyVersion id⟩)
      fun _ => Txn.Lands.pure fun _ _ h => h
    split_ifs
    · exact .inl rfl
    · exact .inr rfl

theorem keeps_setHarvestedRelease (hmod : modId ∈ mods) (sha1 version : String)
    (channel : Channel) :
    Keeps mods versions (setHarvestedRelease sha1 modId version channel) := by
  refine Txn.Lands.read_bind fun t ht hhas => ?_
  rcases t.versionForSha1 sha1 with _ | ⟨id, v⟩
  · exact Txn.Lands.pure fun t' _ he => he ▸ hhas
  dsimp only
  split_ifs
  · exact Txn.Lands.pure fun t' _ he => he ▸ hhas
  · refine Txn.Lands.bind ((lands_upsertRelease (P := fun t => t.Has mods versions) .harvested
      version channel (fun t h => h.1 modId hmod) fun t releases h => h.of_releases releases).of_pre
        fun t' _ he => he ▸ hhas) fun releaseId => ?_
    exact lands_execute fun t ht h =>
      ⟨ht.setRelease h.2 (fun v => .inr rfl) id, h.1.modifyVersion id⟩

/-- A row that replaces the one of its key leaves the keys as they are. -/
theorem map_key_replace {ρ κ : Type} [DecidableEq κ] (key : ρ → κ) {row : ρ} {l : List ρ} :
    (l.map fun r => if key r = key row then row else r).map key = l.map key := by
  rw [List.map_map]
  refine List.map_congr_left fun r _ => ?_
  rw [Function.comp_apply]
  split_ifs with h
  · exact h.symm
  · rfl

theorem nodup_putJarClass {row : JarClassRow} {l : List JarClassRow}
    (h : (l.map JarClassRow.sha1).Nodup) : ((putJarClass row l).map JarClassRow.sha1).Nodup := by
  rw [putJarClass]
  split_ifs with hmem
  · rw [map_key_replace]
    exact h
  · rw [List.map_append, List.map_singleton]
    exact List.nodup_append.2 ⟨h, List.nodup_singleton _, fun a ha b hb hab =>
      hmem (List.mem_singleton.1 hb ▸ hab ▸ ha)⟩

theorem mem_putJarClass (row : JarClassRow) (l : List JarClassRow) : row ∈ putJarClass row l := by
  rw [putJarClass]
  split_ifs with hmem
  · obtain ⟨c, hc, he⟩ := List.mem_map.1 hmem
    exact List.mem_map.2 ⟨c, hc, if_pos he⟩
  · exact List.mem_append_right _ (List.mem_singleton_self row)

theorem nodup_putBuildMod {row : BuildModRow} {l : List BuildModRow}
    (h : (l.map fun p => (p.buildId, p.versionId)).Nodup) :
    ((putBuildMod row l).map fun p => (p.buildId, p.versionId)).Nodup := by
  rw [putBuildMod]
  split_ifs with hany
  · have hreplace : (l.map fun p => if p.buildId = row.buildId ∧ p.versionId = row.versionId then row
        else p) = l.map fun p => if (p.buildId, p.versionId) = (row.buildId, row.versionId) then row
          else p := by
      simp only [Prod.mk.injEq]
    rw [hreplace, map_key_replace fun p : BuildModRow => (p.buildId, p.versionId)]
    exact h
  · rw [List.map_append, List.map_singleton]
    refine List.nodup_append.2 ⟨h, List.nodup_singleton _, ?_⟩
    rintro x hx y hy rfl
    obtain ⟨p, hp, hkey⟩ := List.mem_map.1 hx
    rw [List.mem_singleton.1 hy] at hkey
    exact hany (List.any_eq_true.2 ⟨p, hp, decide_eq_true (Prod.mk.inj hkey)⟩)

theorem mem_putBuildMod {row p : BuildModRow} {l : List BuildModRow} (h : p ∈ putBuildMod row l) :
    p = row ∨ p ∈ l := by
  rw [putBuildMod] at h
  split_ifs at h
  · obtain ⟨q, hq, rfl⟩ := List.mem_map.1 h
    split_ifs
    · exact .inl rfl
    · exact .inr hq
  · rcases List.mem_append.1 h with h | h
    · exact .inr h
    · exact .inl (List.mem_singleton.1 h)

theorem Tables.Integrity.of_packs {t : Tables} (h : t.Integrity) {packs : List String}
    (hpacks : ∀ p ∈ t.packs, p ∈ packs) : ({ t with packs }).Integrity :=
  { h with buildPack := h.buildPack.imp fun _ hb => hpacks _ hb }

/-- Builds may change, as long as none goes. -/
theorem Tables.Integrity.of_builds {t : Tables} (h : t.Integrity) {builds : Table BuildRow}
    (hbuilds : ∀ id, t.HasBuild id → (builds.get? id).isSome)
    (hpack : builds.All fun b => b.packId ∈ t.packs)
    (hkey : builds.Distinct fun b => (b.packId, b.packVersion)) : ({ t with builds }).Integrity :=
  { h with
    buildPack := hpack
    buildKey := hkey
    buildModBuild := fun p hp => hbuilds _ (h.buildModBuild p hp) }

/-- A pack is there afterwards. -/
theorem lands_upsertPack (packId : String) :
    Txn.Lands (fun t => t.Has mods versions) (upsertPack packId) fun _ t =>
      t.Has mods versions ∧ packId ∈ t.packs :=
  lands_execute fun _ ht hhas =>
    ⟨ht.of_packs fun _ hp => List.mem_insert_of_mem hp, hhas, List.mem_insert_self⟩

/-- A build is found by its pack and its version. -/
theorem Tables.Integrity.buildFor_eq_some {t : Tables} (ht : t.Integrity)
    {packId packVersion : String} {id : ℕ} : t.buildFor packId packVersion = some id ↔
      ∃ b, t.builds.get? id = some b ∧ b.packId = packId ∧ b.packVersion = packVersion := by
  have hfind : ∀ b, t.builds.find? (fun b => b.packId = packId ∧ b.packVersion = packVersion) =
      some (id, b) ↔ t.builds.get? id = some b ∧
        (b.packId, b.packVersion) = (packId, packVersion) := by
    intro b
    refine ht.buildKey.find?_eq_some fun b => ?_
    rw [decide_eq_true_iff, Prod.mk.injEq]
  rw [buildFor, Option.map_eq_some_iff]
  constructor
  · rintro ⟨⟨i, b⟩, hb, rfl⟩
    have hi : i = (i, b).1 := rfl
    obtain ⟨hget, hkey⟩ := (hfind b).1 hb
    exact ⟨b, hget, Prod.mk.inj hkey⟩
  · rintro ⟨b, hget, hid, hversion⟩
    exact ⟨(id, b), (hfind b).2 ⟨hget, Prod.ext hid hversion⟩, rfl⟩

/-- The builds with one of a pack. -/
def Tables.putBuild (t : Tables) (packId packVersion : String) (isLatest : Bool) : Table BuildRow :=
  match t.buildFor packId packVersion with
  | none => t.builds.insert { packId, packVersion, isLatest }
  | some id => t.builds.modify id fun b => { b with isLatest }

/-- The build of a pack that is there is there afterwards. -/
theorem lands_upsertPackBuild {P : Tables → Prop} {packId : String} (packVersion : String)
    (isLatest : Bool) (hpack : ∀ t, P t → packId ∈ t.packs)
    (hP : ∀ t : Tables, P t → P { t with builds := t.putBuild packId packVersion isLatest }) :
    Txn.Lands P (upsertPackBuild packId packVersion isLatest) fun id t => P t ∧ t.HasBuild id := by
  refine Txn.Lands.bind (Q := fun _ t => P t ∧ ∃ id, t.buildFor packId packVersion = some id)
    (lands_execute fun t ht hp => ?_) fun _ => Txn.Lands.read_bind fun t ht hp => ?_
  · have hput := hP t hp
    rw [putBuild] at hput
    rcases hfor : t.buildFor packId packVersion with _ | id
    · rw [hfor] at hput
      have hfresh : t.builds.All fun b => (b.packId, b.packVersion) ≠ (packId, packVersion) :=
        (Table.all_of_find? (Option.map_eq_none_iff.1 hfor)).imp fun b hb he =>
          hb (decide_eq_true (Prod.mk.inj he))
      have hkey : (t.builds.insert ⟨packId, packVersion, isLatest⟩).Distinct
          fun b => (b.packId, b.packVersion) := ht.buildKey.insert hfresh
      have hint := ht.of_builds (fun _ hid => Table.isSome_get?_insert hid)
        (ht.buildPack.insert (hpack t hp)) hkey
      exact ⟨hint, hput, _, hint.buildFor_eq_some.2 ⟨_, Table.get?_insert_nextId, rfl, rfl⟩⟩
    · rw [hfor] at hput
      obtain ⟨b, hb, hid, hversion⟩ := ht.buildFor_eq_some.1 hfor
      have hint : ({ t with builds := t.builds.modify id fun b => { b with isLatest } }).Integrity :=
        ht.of_builds (fun _ hid => Table.isSome_get?_modify.trans hid)
          (ht.buildPack.modify fun b hb => (ht.buildPack.get hb :))
          (ht.buildKey.modify_of_eq fun _ => rfl)
      refine ⟨hint, hput, id, hint.buildFor_eq_some.2 ⟨{ b with isLatest }, ?_, hid, hversion⟩⟩
      exact Table.get?_modify_self.trans (congrArg _ hb)
  · obtain ⟨hp, id, hid⟩ := hp
    refine lands_queryRow fun t' he => ⟨id, hid, he ▸ hp, ?_⟩
    obtain ⟨b, hb, -⟩ := ht.buildFor_eq_some.1 hid
    exact he ▸ Option.isSome_iff_exists.2 ⟨b, hb⟩

/-- A file that is there can be put into a build that is there. -/
theorem Tables.Integrity.putBuildMod {t : Tables} (h : t.Integrity) {row : BuildModRow}
    (hbuild : t.HasBuild row.buildId) (hversion : t.HasVersion row.versionId) :
    ({ t with buildMods := Registry.putBuildMod row t.buildMods }).Integrity := by
  refine h.of_buildMods (fun p hp => ?_) (fun p hp => ?_) (nodup_putBuildMod h.buildModKey) <;>
    rcases mem_putBuildMod hp with rfl | hp
  · exact hbuild
  · exact h.buildModBuild p hp
  · exact hversion
  · exact h.buildModVersion p hp

theorem keeps_pruneEmptyReleases : Keeps mods versions pruneEmptyReleases := by
  rw [pruneEmptyReleases]
  refine keeps_execute fun t ht hhas => ⟨ht.of_releases ?_ ht.releaseKey.filter ?_, hhas⟩
  · exact ht.releaseMod.filter
  -- A release that a file is in is not dropped.
  · intro x hx r hr
    obtain ⟨row, hrow⟩ := Option.isSome_iff_exists.1 (ht.versionRelease x hx r hr)
    have hkeep : (row.source.isPrecious ||
        t.versions.rows.any fun v => v.2.releaseId = some r) = true :=
      Bool.or_eq_true_iff.2 (.inr (List.any_eq_true.2 ⟨x, hx, decide_eq_true hr⟩))
    rw [Table.get?_filter, hrow, Option.filter_some, if_pos hkeep]
    rfl

end Land

end Registry

end Smrt
