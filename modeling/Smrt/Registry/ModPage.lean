import Smrt.Lib.Keyed
import Smrt.Registry.Browse
import Smrt.Registry.Edges

/-!
# The page of a mod

What the registry shows of a mod (`modDetail`): its names, its files under their releases, the
relations that touch it (`edgesForMod`), and which packs ship it, each with its latest build
(`packsUsingModById`).

Only the last of these is read from the builds of the packs; what is kept of it for some packs is
what is read from the builds of these (`packsUsingModById_eq`).
-/

namespace Smrt

namespace Registry

open Tables

/-! ## What is shown -/

/-- Which build of a pack ships a mod, and as which file. -/
structure ModUse where
  packId : String
  packVersion : String
  version : String
  filename : String
  deriving DecidableEq

/-- A file as it is shown; whether it is in the cache is not said here. -/
structure ShownFile where
  version : String
  targets : List String
  mcVersions : List String
  sha1 : String
  filename : Option String
  source : Source
  cached : Bool
  modrinthProjectId : Option String
  deriving DecidableEq

structure ShownRelease where
  releaseId : ℕ
  versionNumber : String
  channel : Channel
  source : Source
  files : List ShownFile
  deriving DecidableEq

structure ModDetail where
  modId : ℕ
  name : String
  slug : Option String
  modid : Option String
  modrinthProjectId : Option String
  loaders : List String
  mcVersions : List String
  releases : List ShownRelease
  edges : List ModEdge
  usedBy : List ModUse
  deriving DecidableEq

/-- The order of the channels, by their words. -/
def channelOrder : Channel → ℕ
  | .alpha => 0
  | .beta => 1
  | .release => 2
  | .unknown => 3

/-- The order of the releases: by channel, then by version number, then by id. -/
def releaseOrder (r r' : ℕ × ReleaseRow) : Prop :=
  channelOrder r.2.channel < channelOrder r'.2.channel ∨
    channelOrder r.2.channel = channelOrder r'.2.channel ∧
      (r.2.versionNumber < r'.2.versionNumber ∨
        r.2.versionNumber = r'.2.versionNumber ∧ r.1 ≤ r'.1)

instance : DecidableRel releaseOrder := fun _ _ => inferInstanceAs (Decidable (_ ∨ _))

namespace Tables

variable (t : Tables) (modId : ℕ)

/-! ## The page -/

/-- The file of a build, with the build and the version that it is of, if this is one of the mod. -/
def useOf (p : BuildModRow) : Option ModUse := do
  let v ← t.versions.get? p.versionId
  let b ← t.builds.get? p.buildId
  if v.modId = modId then some ⟨b.packId, b.packVersion, v.version, p.filename⟩ else none

/-- The packs that ship a mod, each with the build of its greatest version. -/
def packsUsingModById : List ModUse :=
  (greatest ModUse.packId (fun u w => u.packVersion < w.packVersion)
    (t.buildMods.filterMap (t.useOf modId))).map Prod.snd

def showFile (v : ℕ × VersionRow) : ShownFile where
  version := v.2.version
  targets := ((t.targets.filter fun target => target.1 = v.1).map Prod.snd).insertionSort (· ≤ ·)
  mcVersions := v.2.mcVersions
  sha1 := v.2.sha1
  filename := v.2.filename
  source := v.2.source
  cached := false
  modrinthProjectId := t.modrinthIdForMod v.2.modId

/-- The releases that have files of the mod. -/
def releasesOfModById : List ShownRelease :=
  let filesOf (releaseId : ℕ) := t.versions.rows.filter fun v =>
    v.2.modId = modId ∧ v.2.releaseId = some releaseId
  ((t.releases.rows.filter fun r => filesOf r.1 ≠ []).insertionSort releaseOrder).map fun r =>
    ⟨r.1, r.2.versionNumber, r.2.channel, r.2.source, (filesOf r.1).map t.showFile⟩

def modDetail : Except DbError (Option ModDetail) :=
  match t.mods.get? modId with
  | none => .ok none
  | some m => do
    let modid := t.modidForMod modId
    let releases := t.releasesOfModById modId
    let files := releases.flatMap ShownRelease.files
    let edges ← t.edgesForMod modId
    .ok (some
      { modId
        name := ((m.canonicalName.or m.slug).or modid).getD ("#" ++ toString modId)
        slug := m.slug
        modid
        modrinthProjectId := t.modrinthIdForMod modId
        loaders := sortedSet (files.flatMap ShownFile.targets)
        mcVersions := sortMc (sortedSet (files.flatMap ShownFile.mcVersions))
        releases
        edges
        usedBy := t.packsUsingModById modId })

/-- The mod that is asked for: by its id, by a file of it, or by its slug. -/
def modIdForKey (key : String) : Option ℕ :=
  match parseI64 key with
  | some id => id.toNat?
  | none =>
    match stripPrefix key "sha1:" with
    | some sha1 => t.modIdForSha1 sha1
    | none => (t.mods.find? fun m => m.slug.any fun slug => noCase slug = noCase key).map Prod.fst

section Page

variable {t t' : Tables} {modId : ℕ} {d : ModDetail}

theorem modDetail_usedBy (h : t.modDetail modId = .ok (some d)) :
    d.usedBy = t.packsUsingModById modId := by
  rw [modDetail] at h
  rcases hm : t.mods.get? modId with _ | m <;> rw [hm] at h
  · cases h
  · obtain ⟨edges, -, h⟩ := bind_eq_ok.1 h
    obtain rfl := Option.some.inj (Except.ok.inj h)
    rfl

/-- With other builds, the page is the same but for the packs. -/
theorem modDetail_of_builds (h : t' =
      { t with packs := t'.packs, builds := t'.builds, buildMods := t'.buildMods }) :
    t'.modDetail modId = (t.modDetail modId).map (Option.map fun d =>
      { d with usedBy := t'.packsUsingModById modId }) := by
  have hmods : t'.mods = t.mods := by rw [h]
  have hmodid : t'.modidForMod modId = t.modidForMod modId := by rw [h]; rfl
  have hmodrinth : t'.modrinthIdForMod modId = t.modrinthIdForMod modId := by rw [h]; rfl
  have hreleases : t'.releasesOfModById modId = t.releasesOfModById modId := by rw [h]; rfl
  have hedges : t'.edgesForMod modId = t.edgesForMod modId := by rw [h]; rfl
  rw [modDetail, modDetail, hmods, hmodid, hmodrinth, hreleases, hedges]
  rcases t.mods.get? modId with _ | m
  · rfl
  · rcases t.edgesForMod modId with e | edges
    · rfl
    · rfl

end Page

/-! ## What is kept for some packs -/

section Kept

variable {t t' : Tables} {modId : ℕ} {shown : String → Bool}

/-- The pack of a file of a build. -/
def packOf (t : Tables) (p : BuildModRow) : Option String :=
  (t.builds.get? p.buildId).map BuildRow.packId

/-- The builds of the packs that are shown are the same, with their files. -/
structure SameBuilds (shown : String → Bool) (t t' : Tables) : Prop where
  versions : t.versions = t'.versions
  builds : ∀ id b, shown b.packId = true → (t.builds.get? id = some b ↔ t'.builds.get? id = some b)
  files : (t.buildMods.filter fun p => (t.packOf p).any shown) =
    t'.buildMods.filter fun p => (t'.packOf p).any shown

theorem useOf_packId {p : BuildModRow} {u : ModUse} (h : t.useOf modId p = some u) :
    t.packOf p = some u.packId := by
  obtain ⟨v, -, h⟩ := Option.bind_eq_some_iff.1 h
  obtain ⟨b, hb, h⟩ := Option.bind_eq_some_iff.1 h
  split_ifs at h
  obtain rfl := Option.some.inj h
  rw [packOf, hb, Option.map_some]

/-- The uses by the packs that are shown are read from their builds. -/
theorem filter_uses : (t.buildMods.filterMap (t.useOf modId)).filter (fun u => shown u.packId) =
    (t.buildMods.filter fun p => (t.packOf p).any shown).filterMap (t.useOf modId) := by
  rw [List.filter_filterMap, List.filterMap_filter]
  refine List.filterMap_congr fun p _ => ?_
  rcases hu : t.useOf modId p with _ | u
  · simp
  · rw [useOf_packId hu, Option.any_some, Option.filter_some]

theorem SameBuilds.useOf (h : SameBuilds shown t t') {p : BuildModRow}
    (hp : (t.packOf p).any shown = true) : t.useOf modId p = t'.useOf modId p := by
  obtain ⟨packId, hpack, hshown⟩ := (Option.any_eq_true _ _).1 hp
  obtain ⟨b, hb, rfl⟩ := Option.map_eq_some_iff.1 hpack
  rw [Tables.useOf, Tables.useOf, ← h.versions, hb, (h.builds _ _ hshown).1 hb]

/-- What is kept of the packs that ship a mod is what the builds of these packs say. -/
theorem packsUsingModById_eq (h : SameBuilds shown t t') :
    (t.packsUsingModById modId).filter (fun u => shown u.packId) =
      (t'.packsUsingModById modId).filter fun u => shown u.packId := by
  have huses : (t.buildMods.filterMap (t.useOf modId)).filter (fun u => shown u.packId) =
      (t'.buildMods.filterMap (t'.useOf modId)).filter fun u => shown u.packId := by
    rw [filter_uses, filter_uses, ← h.files]
    exact List.filterMap_congr fun p hp => h.useOf (List.mem_filter.1 hp).2
  have hkept : ∀ t : Tables, (t.packsUsingModById modId).filter (fun u => shown u.packId) =
      (greatest ModUse.packId (fun u w => u.packVersion < w.packVersion)
        ((t.buildMods.filterMap (t.useOf modId)).filter fun u => shown u.packId)).map Prod.snd := by
    intro t
    rw [packsUsingModById, List.filter_map, ← filter_greatest]
    refine congrArg _ (List.filter_congr fun q hq => ?_)
    exact congrArg shown (key_of_mem_greatest hq)
  rw [hkept, hkept, huses]

end Kept

end Tables

end Registry

end Smrt
