import Smrt.Authoring.HarvestRuns
import Smrt.Authoring.HarvestSpares
import Smrt.Authoring.Manifest
import Smrt.Domain.Version
import Smrt.Lib.Keyed

/-!
# The builds of the packs

A pack is published version by version, and the pointer `latest` of its directory names one of them.
A harvest records the version that it finds there (`scanPacks`) as a build, and marks it as the
latest one; that no other one is the latest any more is not recorded. So the registry marks every
version that a harvest ever found (`Shelved`), and agrees with the pointer just as long as that was
one version only (`oneLatest_iff`).

The packs that use a mod are listed with the greatest version that ships it (`packsUsingModById`), as
a text: the mirror compares versions number by number (`comparePackVersions`).
-/

namespace Smrt

namespace Harvest

open Registry Registry.Tables Txn

/-! ## Storage -/

/-- The manifests of a pack, by their versions, and the version that `latest` points at. -/
structure PackDir where
  manifests : List (String × PackManifest)
  latest : Option String

abbrev Storage := List (String × PackDir)

namespace Storage

variable (s : Storage)

def dir (packId : String) : PackDir := (s.lookup packId).getD ⟨[], none⟩

def loadLatestManifest (packId : String) : Option PackManifest :=
  (s.dir packId).latest.bind fun version => (s.dir packId).manifests.lookup version

end Storage

/-- What is published: a build, or the pointer is moved to one that is. -/
inductive Publication
  | build (packId : String) (manifest : PackManifest) (overwrite : Bool)
  | point (packId packVersion : String)

/-- A version that is published is not published again, unless that is asked for. -/
def publish (s : Storage) : Publication → Option Storage
  | .build packId manifest overwrite =>
    if !overwrite && ((s.dir packId).manifests.lookup manifest.packVersion).isSome then none
    else some (put packId
      { manifests := put manifest.packVersion manifest (s.dir packId).manifests
        latest := some manifest.packVersion } s)
  | .point packId packVersion =>
    if ((s.dir packId).manifests.lookup packVersion).isNone then none
    else some (put packId { s.dir packId with latest := some packVersion } s)

/-! ## What a harvest finds -/

/-- The hash of a file of a manifest; of several of a name, that of the last one. -/
def shaByFilename (m : PackManifest) (filename : String) : Option String :=
  (m.mods.reverse.find? fun e => e.filename = filename).map ModEntry.sha1

def packSeed (packId : String) (m : PackManifest) : PackSeed where
  packId
  packVersion := m.packVersion
  mods := m.mods.map fun e => ⟨e.sha1, e.filename⟩
  conflicts := m.mods.flatMap fun e =>
    (e.display.elim [] Display.incompatibleWith).filterMap fun b =>
      (shaByFilename m b).map fun sha1 => (e.sha1, sha1)

/-- A pack without a build is left out. -/
def scanPacks (s : Storage) : List PackSeed :=
  (s.map Prod.fst).filterMap fun packId => (s.loadLatestManifest packId).map (packSeed packId)

/-! ## What the registry says -/

/-- The versions of a pack that are marked as the latest one. -/
def latestBuilds (t : Tables) (packId : String) : List String :=
  (t.builds.rows.filter fun b => b.2.packId = packId ∧ b.2.isLatest).map fun b => b.2.packVersion

/-- A build that ships a file of a mod. -/
structure ModUse where
  packId : String
  packVersion : String
  version : String
  filename : String
  deriving DecidableEq

/-- The builds that ship a file of a mod. -/
def modUses (t : Tables) (modId : ℕ) : List ModUse :=
  (t.versions.rows.filter fun v => v.2.modId = modId).flatMap fun v =>
    (t.buildMods.filter fun bm => bm.versionId = v.1).flatMap fun bm =>
      ((t.builds.get? bm.buildId).map fun b =>
        (⟨b.packId, b.packVersion, v.2.version, bm.filename⟩ : ModUse)).toList

/-- Versions are compared as texts. -/
def ModUse.less (a b : ModUse) : Bool := a.packVersion < b.packVersion

/-- The packs that use a mod, each with the greatest text of a version that ships it. -/
def packsUsingModById (t : Tables) (modId : ℕ) : List ModUse :=
  (greatest ModUse.packId ModUse.less (modUses t modId)).map Prod.snd

section Uses

variable {t : Tables} {modId : ℕ}

theorem of_mem_greatest_less {l : List ModUse} {packId : String} {u : ModUse}
    (hu : (packId, u) ∈ greatest ModUse.packId ModUse.less l) :
    u ∈ l ∧ u.packId = packId ∧ ∀ w ∈ l, w.packId = packId → u.less w = false := by
  have htrans : ∀ a b c : ModUse, a.less b = true → b.less c = true → a.less c = true :=
    fun a b c hab hbc => decide_eq_true ((of_decide_eq_true hab).trans (of_decide_eq_true hbc))
  have hirrefl : ∀ a : ModUse, a.less a = false := fun a => decide_eq_false (lt_irrefl _)
  exact of_mem_greatest htrans hirrefl hu

/-- A pack that is listed ships the mod, and no text of a version that does is greater. -/
theorem of_mem_packsUsing {u : ModUse} (hu : u ∈ packsUsingModById t modId) :
    u ∈ modUses t modId ∧
      ∀ w ∈ modUses t modId, w.packId = u.packId → ¬ u.packVersion < w.packVersion := by
  obtain ⟨⟨packId, v⟩, hv, rfl⟩ := List.mem_map.1 hu
  obtain ⟨hmem, rfl, hall⟩ := of_mem_greatest_less hv
  exact ⟨hmem, fun w hw hp => of_decide_eq_false (hall w hw hp)⟩

/-- Every pack that ships the mod is listed. -/
theorem exists_mem_packsUsing {w : ModUse} (hw : w ∈ modUses t modId) :
    ∃ u ∈ packsUsingModById t modId, u.packId = w.packId := by
  obtain ⟨u, hu⟩ : ∃ u, (w.packId, u) ∈ greatest ModUse.packId ModUse.less (modUses t modId) :=
    exists_mem_greatest hw
  exact ⟨u, List.mem_map.2 ⟨_, hu, rfl⟩, (of_mem_greatest_less hu).2.1⟩

/-- Every pack is listed once, in the order of their ids. -/
theorem pairwise_packsUsing : (packsUsingModById t modId).Pairwise fun u w => u.packId < w.packId := by
  refine List.pairwise_map.2 ((increasing_greatest _).imp_of_mem fun {p q} hp hq hlt => ?_)
  rw [(of_mem_greatest_less hp).2.1, (of_mem_greatest_less hq).2.1]
  exact hlt

end Uses

/-! ## What a harvest records -/

/-- The packs and their builds. -/
def shelf (t : Tables) : List String × Table BuildRow := (t.packs, t.builds)

/-- The versions that were found are recorded, and all of them as the latest one. -/
structure Shelved (t : Tables) (found : List (String × String)) : Prop where
  pack : ∀ packId, packId ∈ t.packs ↔ ∃ version, (packId, version) ∈ found
  build : t.builds.All fun b => b.isLatest = true ∧ (b.packId, b.packVersion) ∈ found
  found : ∀ p ∈ found, (t.buildFor p.1 p.2).isSome

theorem Shelved.of_shelf {t t' : Tables} {found : List (String × String)} (h : Shelved t found)
    (hshelf : Same shelf t t') : Shelved t' found := by
  obtain ⟨hpacks, hbuilds⟩ := Prod.mk.inj (hshelf : (t'.packs, t'.builds) = (t.packs, t.builds))
  refine ⟨hpacks ▸ h.pack, hbuilds ▸ h.build, fun p hp => ?_⟩
  rw [buildFor, hbuilds]
  exact h.found p hp

/-- Nothing but the packs writes their builds. -/
theorem spares_shelf (shas : List String) : Spares shas (Same shelf) where
  relations _ _ _ := rfl
  packages _ _ := rfl
  needs _ _ := rfl
  jarClasses _ _ _ := rfl
  mods _ _ _ _ _ := rfl
  newMod _ := rfl
  attach _ _ _ := rfl
  fold _ _ _ _ _ _ _ _ := rfl
  file _ h := (congrArg shelf h.rest :)
  prune _ _ := rfl

section Write

variable {t : Tables}

theorem isSome_buildFor {packId packVersion : String} (ht : t.Integrity) : (t.buildFor packId packVersion).isSome ↔
    ∃ id b, t.builds.get? id = some b ∧ b.packId = packId ∧ b.packVersion = packVersion := by
  simp only [Option.isSome_iff_exists, ht.buildFor_eq_some]

/-- A build that is put on the shelf is there, and the others stay. -/
theorem get?_putBuild (ht : t.Integrity) (packId packVersion : String) (isLatest : Bool) :
    (∀ id b, t.builds.get? id = some b → ∃ b', (t.putBuild packId packVersion isLatest).get? id =
      some b' ∧ b'.packId = b.packId ∧ b'.packVersion = b.packVersion) ∧
    ∃ id b, (t.putBuild packId packVersion isLatest).get? id = some b ∧ b.packId = packId ∧
      b.packVersion = packVersion := by
  rw [putBuild]
  rcases hfor : t.buildFor packId packVersion with _ | i
  · refine ⟨fun id b hb => ⟨b, ?_, rfl, rfl⟩, _, _, Table.get?_insert_nextId, rfl, rfl⟩
    exact (Table.get?_insert_of_ne (Table.lt_nextId_of_get? hb).ne).trans hb
  · obtain ⟨b, hb, hid, hversion⟩ := ht.buildFor_eq_some.1 hfor
    refine ⟨fun id b' hb' => ?_, i, { b with isLatest }, ?_, hid, hversion⟩
    · by_cases hi : id = i
      · subst hi
        exact ⟨{ b' with isLatest }, Table.get?_modify_self.trans (congrArg _ hb'), rfl, rfl⟩
      · exact ⟨b', (Table.get?_modify_of_ne hi).trans hb', rfl, rfl⟩
    · exact Table.get?_modify_self.trans (congrArg _ hb)

theorem all_putBuild {packId packVersion : String} {p : BuildRow → Prop} {isLatest : Bool} (h : t.builds.All p)
    (hnew : p ⟨packId, packVersion, isLatest⟩) (hold : ∀ b, p b → p { b with isLatest }) :
    (t.putBuild packId packVersion isLatest).All p := by
  rw [putBuild]
  split
  · exact h.insert hnew
  · exact h.modify fun b hb => hold b (h.get hb)

/-- The pack of a version is recorded, but its build is not. -/
structure Unshelved (t : Tables) (found : List (String × String)) (p : String × String) : Prop where
  pack : ∀ packId, packId ∈ t.packs ↔ ∃ version, (packId, version) ∈ found ++ [p]
  build : t.builds.All fun b => b.isLatest = true ∧ (b.packId, b.packVersion) ∈ found
  found : ∀ p ∈ found, (t.buildFor p.1 p.2).isSome

theorem ensures_upsertPack (found : List (String × String)) (packId packVersion : String) :
    Ensures (fun t => Shelved t found) (upsertPack packId) fun _ t =>
      Unshelved t found (packId, packVersion) := by
  rw [upsertPack]
  refine Ensures.write fun t _ _ h => ⟨fun packId => ?_, h.build, h.found⟩
  rw [List.mem_insert_iff, h.pack]
  simp only [List.mem_append, List.mem_singleton, Prod.mk.injEq, exists_or, exists_and_left,
    exists_eq, and_true]
  exact or_comm

theorem ensures_upsertPackBuild (found : List (String × String)) (packId packVersion : String) :
    Ensures (fun t => Unshelved t found (packId, packVersion))
      (upsertPackBuild packId packVersion true) fun _ t =>
        Shelved t (found ++ [(packId, packVersion)]) := by
  refine Ensures.bind (Q := fun _ t => Shelved t (found ++ [(packId, packVersion)]))
    (Ensures.write fun t ht ht' h => ?_) fun _ => Ensures.read_bind fun t _ h => ?_
  · obtain ⟨hkept, hnew⟩ := get?_putBuild ht packId packVersion true
    have hall := h.build.imp fun b hb => And.imp_right (List.mem_append_left [(packId, packVersion)]) hb
    refine ⟨h.pack, all_putBuild hall ⟨rfl, List.mem_append_right _ (List.mem_singleton_self _)⟩
      fun b hb => ⟨rfl, hb.2⟩, List.forall_mem_append.2 ⟨fun p hp => ?_,
        List.forall_mem_singleton.2 ((isSome_buildFor ht').2 hnew)⟩⟩
    obtain ⟨id, b, hb, hid, hversion⟩ := (isSome_buildFor ht).1 (h.found p hp)
    obtain ⟨b', hb', hid', hversion'⟩ := hkept id b hb
    exact (isSome_buildFor ht').2 ⟨id, b', hb', hid'.trans hid, hversion'.trans hversion⟩
  · intro s hs a s' hm
    exact h.of_shelf (hs ▸ along_queryRow (R := Same shelf) _ s a s' hm)

/-- What is found of a pack is recorded. -/
theorem ensures_writePack {found : List (String × String)} (jars : List JarSeed) (pack : PackSeed) :
    Ensures (fun t => Shelved t found) (writePack jars pack) fun _ t =>
      Shelved t (found ++ [(pack.packId, pack.packVersion)]) := by
  have hlink : ∀ build bm, Along (Same shelf) (linkMod build bm) := by
    intro build bm
    refine Along.read_bind fun t _ => ?_
    split
    · rw [linkBuildMod]
      exact along_execute fun _ => rfl
    · exact Along.pure
  have hconflict : ∀ aSha bSha, Along (Same shelf) (writeConflict jars aSha bSha) :=
    fun _ _ => along_writeConflict (spares_shelf []).relating _ _ _
  refine (ensures_upsertPack found _ _).bind fun _ => (ensures_upsertPackBuild found _ _).bind
    fun build => ?_
  intro s hs a s' hm
  have hrest := (Along.forM (l := pack.mods) fun bm _ => hlink build bm).bind fun _ =>
    Along.forM (l := pack.conflicts) fun p _ =>
      (hconflict p.1 p.2).bind fun _ => hconflict p.2 p.1
  exact hs.of_shelf (hrest s a s' hm)

theorem ensures_writePacks {found : List (String × String)} (jars : List JarSeed)
    (packs : List PackSeed) :
    Ensures (fun t => Shelved t found) (packs.forM (writePack jars)) fun _ t =>
      Shelved t (found ++ packs.map fun p => (p.packId, p.packVersion)) := by
  induction packs generalizing found with
  | nil => exact Ensures.pure fun t h => by rwa [List.map_nil, List.append_nil]
  | cons pack packs ih =>
    refine (ensures_writePack jars pack).bind fun _ => ih.imp (fun _ h => h) fun _ t h => ?_
    rwa [List.append_assoc] at h

/-- A harvest records what it finds, and nothing else. -/
theorem ensures_shelved {found : List (String × String)} (plan : Plan) (scan : ScanData) :
    Ensures (fun t => Shelved t found) (writeScan plan scan) fun _ t =>
      Shelved t (found ++ scan.packs.map fun p => (p.packId, p.packVersion)) := by
  have hspares := spares_shelf (scan.jars.map JarSeed.sha1)
  have hkeep : ∀ {α : Type} {found : List (String × String)} {m : Conn α},
      Along (Same shelf) m → Ensures (fun t => Shelved t found) m fun _ t => Shelved t found :=
    fun hm s hs a s' hrun => hs.of_shelf (hm s a s' hrun)
  refine (hkeep (hspares.along_wipe _)).bind fun _ => (hkeep (hspares.along_readJars
    fun jar hjar _ => List.mem_map_of_mem hjar)).bind fun later => ?_
  refine (hkeep (along_derive hspares.relating _)).bind fun _ => ?_
  refine (ensures_writePacks _ _).bind fun _ => (hkeep (hspares.along_reconcile plan)).bind fun _ => ?_
  refine (hkeep (Along.forM fun p _ => hspares.along_linkSelfHosted p)).bind fun _ => ?_
  refine (hkeep (Along.forM fun d _ => along_writeExternalDep hspares.relating d)).bind fun _ => ?_
  exact hkeep hspares.along_pruneEmptyReleases

end Write

/-! ## The runs -/

/-- The storage and the registry, and the versions that the harvests found, each with its pack. -/
structure Mirror where
  storage : Storage
  registry : Stored Integrity
  found : List (String × String)

/-- Something is published, and a harvest follows: what it finds in the jars, and of the projects. -/
structure Round where
  publication : Publication
  plan : Plan
  jars : List JarSeed
  depProjectSlugs : List (String × String)
  modrinthLegOk : Bool

def Round.scan (r : Round) (s : Storage) : ScanData where
  jars := r.jars
  packs := scanPacks s
  depProjectSlugs := r.depProjectSlugs
  modrinthLegOk := r.modrinthLegOk

/-- The rounds whose publication is accepted and whose harvest lands. -/
def mirror : System Mirror Round where
  init s := s.storage = [] ∧ s.registry.1 = Tables.empty ∧ s.found = []
  step s r := (publish s.storage r.publication).bind fun storage =>
    match writeScan r.plan (r.scan storage) s.registry with
    | .ok (_, registry) => some
      { storage, registry,
        found := s.found ++ (scanPacks storage).map fun p => (p.packId, p.packVersion) }
    | .error _ => none

/-- The registry has the packs that are published, and of each of them the version that `latest`
    points at, and no other one, is marked as the latest. -/
structure OneLatest (s : Mirror) : Prop where
  pack : ∀ packId, packId ∈ s.registry.1.packs ↔ (s.storage.loadLatestManifest packId).isSome
  latest : ∀ packId m, s.storage.loadLatestManifest packId = some m →
    latestBuilds s.registry.1 packId = [m.packVersion]

/-- The packs that ship a mod are listed, each once and with a file of a build that no other one that
    ships the mod is greater than. -/
structure UsesGreatest (t : Tables) (modId : ℕ) : Prop where
  pack : ∀ w ∈ modUses t modId, ∃ u ∈ packsUsingModById t modId, u.packId = w.packId
  once : (packsUsingModById t modId).Pairwise fun u w => u.packId < w.packId
  greatest : ∀ u ∈ packsUsingModById t modId, u ∈ modUses t modId ∧
    ∀ w ∈ modUses t modId, w.packId = u.packId →
      comparePackVersions u.packVersion w.packVersion ≠ .lt

/-- All harvests found a pack at the same version. -/
def Unmoved (s : Mirror) : Prop := ∀ p ∈ s.found, ∀ q ∈ s.found, p.1 = q.1 → p.2 = q.2

section Runs

theorem mem_scanPacks {s : Storage} {p : String × String} :
    p ∈ (scanPacks s).map (fun pack => (pack.packId, pack.packVersion)) ↔
      ∃ m, s.loadLatestManifest p.1 = some m ∧ m.packVersion = p.2 := by
  rw [scanPacks, List.map_filterMap]
  constructor
  · intro hp
    obtain ⟨packId, -, hsome⟩ := List.mem_filterMap.1 hp
    obtain ⟨seed, hseed, rfl⟩ := Option.map_eq_some_iff.1 hsome
    obtain ⟨m, hm, rfl⟩ := Option.map_eq_some_iff.1 hseed
    exact ⟨m, hm, rfl⟩
  · rintro ⟨m, hm, hversion⟩
    refine List.mem_filterMap.2 ⟨p.1, ?_, ?_⟩
    · rcases hdir : s.lookup p.1 with _ | d
      · rw [Storage.loadLatestManifest, Storage.dir, hdir] at hm
        cases hm
      · exact List.mem_map.2 ⟨_, mem_of_lookup hdir, rfl⟩
    · rw [hm]
      exact congrArg some (Prod.ext rfl hversion)

/-- What is published stays so. -/
theorem isSome_of_publish {s s' : Storage} {publication : Publication}
    (h : publish s publication = some s') {packId : String}
    (hm : (s.loadLatestManifest packId).isSome) : (s'.loadLatestManifest packId).isSome := by
  -- Another directory is as it was, and `latest` points at a manifest of this one.
  have hput : ∀ id (d : PackDir), (∃ version, d.latest = some version ∧
      (d.manifests.lookup version).isSome) →
        (Storage.loadLatestManifest (put id d s) packId).isSome := by
    rintro id d ⟨version, hlatest, hmanifest⟩
    rw [Storage.loadLatestManifest, Storage.dir, lookup_put]
    by_cases hid : packId = id
    · rw [if_pos hid, Option.getD_some, hlatest]
      exact hmanifest
    · rw [if_neg hid]
      exact hm
  rw [publish.eq_def] at h
  split at h
  · split at h
    · cases h
    · obtain rfl := Option.some.inj h
      exact hput _ _ ⟨_, rfl, by rw [lookup_put, if_pos rfl]; rfl⟩
  · split at h
    · cases h
    · next hsome =>
      obtain rfl := Option.some.inj h
      refine hput _ _ ⟨_, rfl, ?_⟩
      rw [Bool.not_eq_true, Option.isNone_eq_false_iff] at hsome
      exact hsome

/-- What the harvests found is on the shelf, and what is published was found. -/
structure Recorded (s : Mirror) : Prop where
  shelved : Shelved s.registry.1 s.found
  latest : ∀ packId m, s.storage.loadLatestManifest packId = some m →
    (packId, m.packVersion) ∈ s.found
  published : ∀ p ∈ s.found, (s.storage.loadLatestManifest p.1).isSome

theorem recorded {s : Mirror} (hs : mirror.Reachable s) : Recorded s := by
  refine hs.invariant (P := Recorded) (fun s h => ?_) fun s r s' h _ hstep => ?_
  · obtain ⟨hstorage, hregistry, hfound⟩ := h
    refine ⟨⟨fun packId => ?_, ?_, ?_⟩, fun packId m hm => ?_, ?_⟩
    · rw [hregistry, hfound]
      exact ⟨nofun, nofun⟩
    · rw [hregistry]
      exact nofun
    · rw [hfound]
      exact nofun
    · rw [hstorage] at hm
      cases hm
    · rw [hfound]
      exact nofun
  · obtain ⟨storage, hpublish, hscan⟩ := Option.bind_eq_some_iff.1 hstep
    split at hscan
    · next hrun =>
      obtain rfl := Option.some.inj hscan
      refine ⟨ensures_shelved _ _ _ h.shelved _ _ hrun, fun packId m hm => ?_, ?_⟩
      · exact List.mem_append_right _ (mem_scanPacks.2 ⟨m, hm, rfl⟩)
      · refine List.forall_mem_append.2 ⟨fun p hp => isSome_of_publish hpublish (h.published p hp),
          fun p hp => ?_⟩
        obtain ⟨m, hm, -⟩ := mem_scanPacks.1 hp
        exact Option.isSome_iff_exists.2 ⟨m, hm⟩
    · cases hscan

/-- The version of a pack is marked as the latest one if a harvest found it. -/
theorem mem_latestBuilds {t : Tables} {found : List (String × String)} (ht : t.Integrity)
    (h : Shelved t found) {packId version : String} :
    version ∈ latestBuilds t packId ↔ (packId, version) ∈ found := by
  constructor
  · intro hv
    obtain ⟨⟨id, b⟩, hb, rfl⟩ := List.mem_map.1 hv
    obtain ⟨hrow, hp⟩ := List.mem_filter.1 hb
    obtain ⟨rfl, -⟩ := of_decide_eq_true hp
    exact (h.build _ hrow).2
  · intro hv
    obtain ⟨id, b, hb, hid, hversion⟩ := (isSome_buildFor ht).1 (h.found _ hv)
    have hrow := Table.get?_eq_some.1 hb
    exact List.mem_map.2 ⟨_, List.mem_filter.2 ⟨hrow, decide_eq_true ⟨hid, (h.build _ hrow).1⟩⟩,
      hversion⟩

/-- No version of a pack is marked twice. -/
theorem nodup_latestBuilds {t : Tables} (ht : t.Integrity) (packId : String) :
    (latestBuilds t packId).Nodup := by
  have hpack : ∀ {x}, x ∈ t.builds.rows.filter (fun b => b.2.packId = packId ∧ b.2.isLatest) →
      x.2.packId = packId := fun hx => (of_decide_eq_true (List.mem_filter.1 hx).2).1
  have hkeys : t.builds.rows.Pairwise fun x y =>
      (x.2.packId, x.2.packVersion) ≠ (y.2.packId, y.2.packVersion) := List.pairwise_map.1 ht.buildKey
  refine List.pairwise_map.2 ((hkeys.filter _).imp_of_mem fun {x y} hx hy hkey he => hkey ?_)
  exact Prod.ext ((hpack hx).trans (hpack hy).symm) he

/-- The registry agrees with the storage just as long as every harvest finds a pack at the version
    at which all others do. -/
theorem oneLatest_iff : ∀ s, mirror.Reachable s →
    ((OneLatest s ∧ ∀ modId, UsesGreatest s.registry.1 modId) ↔ Unmoved s) := by
  intro s hs
  have h := recorded hs
  have ht := s.registry.2
  constructor
  · rintro ⟨hone, -⟩ p hp q hq hpq
    obtain ⟨m, hm⟩ := Option.isSome_iff_exists.1 (h.published p hp)
    have honly : ∀ version, (p.1, version) ∈ s.found → version = m.packVersion := by
      intro version hv
      have hmem := (mem_latestBuilds ht h.shelved).2 hv
      rw [hone.latest _ m hm] at hmem
      exact List.mem_singleton.1 hmem
    exact (honly _ hp).trans (honly _ (hpq ▸ hq)).symm
  · intro hun
    have hversion : ∀ {modId} {u}, u ∈ modUses s.registry.1 modId →
        (u.packId, u.packVersion) ∈ s.found := by
      intro modId u hu
      obtain ⟨v, -, hu⟩ := List.mem_flatMap.1 hu
      obtain ⟨bm, -, hu⟩ := List.mem_flatMap.1 hu
      obtain ⟨b, hb, rfl⟩ := Option.map_eq_some_iff.1 (Option.mem_toList.1 hu)
      exact (h.shelved.build.get hb).2
    refine ⟨⟨fun packId => ?_, fun packId m hm => ?_⟩, fun modId =>
      ⟨fun w hw => exists_mem_packsUsing hw, pairwise_packsUsing, fun u hu => ?_⟩⟩
    · rw [h.shelved.pack]
      constructor
      · rintro ⟨version, hv⟩
        exact h.published _ hv
      · intro hsome
        obtain ⟨m, hm⟩ := Option.isSome_iff_exists.1 hsome
        exact ⟨_, h.latest _ m hm⟩
    · have hlatest := h.latest _ m hm
      refine List.Perm.eq_singleton ((List.perm_ext_iff_of_nodup (nodup_latestBuilds ht packId)
        (List.nodup_singleton _)).2 fun version => ?_)
      rw [mem_latestBuilds ht h.shelved, List.mem_singleton]
      exact ⟨fun hv => hun _ hv _ hlatest rfl, fun he => he ▸ hlatest⟩
    · obtain ⟨hmem, -⟩ := of_mem_packsUsing hu
      refine ⟨hmem, fun w hw hpack => ?_⟩
      have he : w.packVersion = u.packVersion := hun _ (hversion hw) _ (hversion hmem) hpack
      rw [he, comparePackVersions_self]
      exact nofun

end Runs

/-! ### Two versions -/

/-- A build with one mod. -/
def oneMod (packVersion : String) : PackManifest where
  packId := "p"
  packVersion
  minecraftVersion := "1.12.2"
  loader := ⟨"forge", "14.23.5.2860"⟩
  javaMajor := 8
  auth := none
  mods := [⟨"a.jar", "1", 1, true, true, .smrtCache "a.jar", none, none⟩]
  assets := []

/-- A build with one mod is published. -/
def oneModRound (packVersion : String) : Round where
  publication := .build "p" (oneMod packVersion) false
  plan := inOrder
  jars := [{ JarSeed.ofSha1 "1" with modid := some "a", version := some "3" }]
  depProjectSlugs := []
  modrinthLegOk := true

/-- What holds after some rounds of a new mirror holds of a state that is reached. -/
theorem exists_mirror (rounds : List Round) {p : Mirror → Bool}
    (h : (mirror.run ⟨[], fresh, []⟩ rounds).any p = true) :
    ∃ s, mirror.Reachable s ∧ p s = true := by
  obtain ⟨s, hrun, hp⟩ := (Option.any_eq_true _ _).1 h
  exact ⟨s, System.Reach.run (.init ⟨rfl, rfl, rfl⟩) hrun, hp⟩

theorem oneLatest_oneMod : ∃ s, mirror.Reachable s ∧ latestBuilds s.registry.1 "p" = ["9"] ∧
    OneLatest s ∧ ∀ modId, UsesGreatest s.registry.1 modId := by
  obtain ⟨s, hs, hp⟩ := exists_mirror [oneModRound "9"]
    (p := fun s => latestBuilds s.registry.1 "p" = ["9"] ∧ s.found = [("p", "9")]) (by decide +kernel)
  obtain ⟨hlatest, hfound⟩ := of_decide_eq_true hp
  have hun : Unmoved s := by
    rw [Unmoved, hfound]
    decide
  exact ⟨s, hs, hlatest, (oneLatest_iff s hs).2 hun⟩

/-- Two versions are marked as the latest one, and the older one is listed. -/
theorem oneLatest_twoMods : ∃ s, mirror.Reachable s ∧ ¬ OneLatest s ∧
    ¬ UsesGreatest s.registry.1 1 := by
  obtain ⟨s, hs, hp⟩ := exists_mirror [oneModRound "9", oneModRound "10"]
    (p := fun s => (s.storage.loadLatestManifest "p").isSome ∧
      latestBuilds s.registry.1 "p" = ["9", "10"] ∧
        modUses s.registry.1 1 = [⟨"p", "9", "3", "a.jar"⟩, ⟨"p", "10", "3", "a.jar"⟩] ∧
          packsUsingModById s.registry.1 1 = [⟨"p", "9", "3", "a.jar"⟩]) (by decide +kernel)
  obtain ⟨hm, hlatest, huses, hlisted⟩ := of_decide_eq_true hp
  refine ⟨s, hs, fun hone => ?_, fun hgreatest => ?_⟩
  · obtain ⟨m, hm⟩ := Option.isSome_iff_exists.1 hm
    have hone := hone.latest "p" m hm
    rw [hlatest] at hone
    exact List.cons_ne_nil _ _ (List.cons.inj hone).2
  · have hall := hgreatest.greatest
    rw [huses, hlisted] at hall
    exact (hall _ List.mem_cons_self).2 ⟨"p", "10", "3", "a.jar"⟩
      (List.mem_cons_of_mem _ List.mem_cons_self) rfl (by decide +kernel)

end Harvest

end Smrt
