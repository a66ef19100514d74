import Smrt.Registry.Fold

/-!
# The decisions of an operator

What an operator decides about mods, releases, files and relations is written as authored, and a
harvest leaves such rows alone.

Merging a mod into another (`mergeMods`) loses nothing (`lands_mergeMods`): each row of the mod goes
to the other one, unless that has one with the same key.
-/

namespace Smrt

namespace Registry

open Tables

/-! ## Relations and classes -/

def addAuthoredRelation (fromModId : ℕ) (target : String) (kind : RelKind)
    (severity : Option Severity) : Conn Unit :=
  upsertRelation fromModId none { target, range := none, kind, severity, source := .authored }

def removeAuthoredRelation (fromModId : ℕ) (target : String) (kind : RelKind) : Conn Unit :=
  execute fun t =>
    { t with relations := t.relations.filter fun r =>
        ¬ (r.fromModId = fromModId ∧ r.target = target ∧ r.kind = kind ∧ r.source = .authored) }

def setAuthoredConflict (aModId : ℕ) (aModid : String) (bModId : ℕ) (bModid : String)
    (remove : Bool) : Conn Unit :=
  if remove then do
    removeAuthoredRelation aModId bModid .conflicts
    removeAuthoredRelation bModId aModid .conflicts
  else do
    addAuthoredRelation aModId bModid .conflicts (some .hard)
    addAuthoredRelation bModId aModid .conflicts (some .hard)

/-- The mod of a modid, which has to be known. -/
def knownModid (modid : String) : Conn ℕ := do
  let t ← Txn.read
  match t.modIdForAlias .modid modid with
  | some id => pure id
  | none => Txn.fail (.refused ("mod '" ++ modid ++ "' not in registry (harvest first)"))

def setConflict (aModid bModid : String) (remove : Bool) : Conn Unit := do
  let a ← knownModid aModid
  let b ← knownModid bModid
  setAuthoredConflict a aModid b bModid remove

def authorRelation (fromModId : ℕ) (target : String) (kind : RelKind) (severity : Option Severity)
    (remove : Bool) : Conn Unit :=
  if remove then removeAuthoredRelation fromModId target kind
  else addAuthoredRelation fromModId target kind severity

def jarKinds : List String := ["mod", "coremod", "library"]

/-- The class of a jar whose mod no project has, or what was decided about it is dropped. -/
def setAuthoredJarClass (sha1 kind : String) (side matchPolicy : Option String) (remove : Bool) :
    Conn Unit :=
  if remove then
    execute fun t =>
      { t with jarClasses := t.jarClasses.filter fun c => ¬ (c.sha1 = sha1 ∧ c.source = .authored) }
  else if kind ∉ jarKinds then
    Txn.fail (.refused "kind must be one of [\"mod\", \"coremod\", \"library\"]")
  else if ∃ s ∈ side, s ∉ ["client", "server", "both"] then
    Txn.fail (.refused "side must be one of client | server | both")
  else if ∃ p ∈ matchPolicy, p ∉ ["must_match", "tolerant"] then
    Txn.fail (.refused "match_policy must be one of must_match | tolerant")
  else if side = some "client" ∧ matchPolicy = some "must_match" then
    Txn.fail (.refused ("client + must_match is contradictory: a client-side mod never requires " ++
      "itself on the server"))
  else do
    let t ← Txn.read
    match (t.modIdForSha1 sha1).bind fun id => t.modrinthIdForMod id with
    | some pid =>
      Txn.fail (.refused ("jar's mod is Modrinth-identified (project " ++ pid ++
        "); its environment flags are authoritative -- fix them upstream instead"))
    | none =>
      execute fun t =>
        { t with
          jarClasses := putJarClass
            { sha1, kind, side, matchPolicy, sideConfidence := side.map fun _ => "high",
              source := .authored } t.jarClasses }

/-! ## Identities -/

/-- The mod of a file: one that is there, or a new one. -/
inductive ModRef
  | existing (id : ℕ)
  | new (name : String)

structure FileIdentity where
  sha1 : String
  filename : Option String
  modRef : ModRef
  versionNumber : String
  channel : Channel
  loaders : List String
  mcVersions : List String

/-- The mod that a file is put down to. -/
def resolveModRef : ModRef → Conn ℕ
  | .existing id => do
    let t ← Txn.read
    if t.HasMod id then pure id
    else Txn.fail (.refused ("mod #" ++ toString id ++ " does not exist"))
  | .new name => do
    if trim name = "" then Txn.fail (.refused "new mod name must not be empty") else do
      let t ← Txn.read
      execute fun t =>
        { t with
          mods := t.mods.insert
            { slug := none, canonicalName := some (trim name), source := .authored } }
      pure t.mods.nextId

/-- The files, with one that is decided; without a name it keeps the one that it had. -/
def Tables.authorVersion (t : Tables) (modId releaseId : ℕ) (id : FileIdentity) :
    Table VersionRow :=
  match t.versionForSha1 id.sha1 with
  | none => t.versions.insert
      { modId, version := id.versionNumber, sha1 := id.sha1, filename := id.filename,
        mcVersions := id.mcVersions, releaseId := some releaseId, source := .authored }
  | some (versionId, _) => t.versions.modify versionId fun v =>
      { v with
        modId, version := id.versionNumber, filename := id.filename.or v.filename,
        mcVersions := id.mcVersions, releaseId := some releaseId, source := .authored }

/-- The mod, the release and the facets of a file are decided. -/
def authorFileIdentity (id : FileIdentity) : Conn ℕ :=
  if trim id.versionNumber = "" then
    Txn.fail (.refused "version_number must not be empty")
  else do
    let modId ← resolveModRef id.modRef
    let releaseId ← upsertRelease .authored modId id.versionNumber id.channel
    execute fun t => { t with versions := t.authorVersion modId releaseId id }
    let t ← Txn.read
    let (versionId, _) ← queryRow (t.versionForSha1 id.sha1)
    setModVersionTargets versionId id.loaders false
    pure versionId

/-- The name or the slug of a mod is decided. -/
def renameMod (modId : ℕ) (name slug : Option String) : Conn Unit :=
  if name = none ∧ slug = none then pure () else do
    let t ← Txn.read
    execute fun t =>
      { t with mods := t.mods.modify modId fun m =>
          { m with canonicalName := name.or m.canonicalName, slug := slug.or m.slug,
                   source := .authored } }
    if t.HasMod modId then pure ()
    else Txn.fail (.refused ("mod #" ++ toString modId ++ " does not exist"))

/-- The version or the channel of a release is decided. -/
def editRelease (releaseId : ℕ) (versionNumber : Option String) (channel : Option Channel) :
    Conn Unit :=
  if versionNumber = none ∧ channel = none then pure () else do
    let t ← Txn.read
    execute fun t =>
      { t with releases := t.releases.modify releaseId fun r =>
          { r with versionNumber := versionNumber.getD r.versionNumber,
                   channel := channel.getD r.channel, source := .authored } }
    if t.HasRelease releaseId then pure ()
    else Txn.fail (.refused ("release #" ++ toString releaseId ++ " does not exist"))

/-- One mod is merged into another, which is decided thereby. -/
def mergeMods (fromModId intoModId : ℕ) : Conn Unit :=
  if fromModId = intoModId then Txn.fail (.refused "cannot merge a mod into itself") else do
    let t ← Txn.read
    if ¬ t.HasMod fromModId then
      Txn.fail (.refused ("source mod " ++ toString fromModId ++ " not in registry"))
    else if ¬ t.HasMod intoModId then
      Txn.fail (.refused ("target mod " ++ toString intoModId ++ " not in registry"))
    else do
      foldMods fromModId intoModId
      execute fun t =>
        { t with mods := t.mods.modify intoModId fun m => { m with source := .authored } }

/-! ## Merging loses nothing -/

/-- A mod is merged into another: it is gone, what it had belongs to the other one, and what other
    mods have is as it was. -/
structure Merged (fromModId intoModId : ℕ) (t t' : Tables) : Prop where
  gone : ¬ t'.HasMod fromModId
  survivor : t'.mods.get? intoModId =
    (t.mods.get? intoModId).map fun m => { m with source := .authored }
  otherMods : ∀ id, id ≠ fromModId → id ≠ intoModId → t'.mods.get? id = t.mods.get? id
  aliases : t'.aliases = t.aliases.map fun a => a.moved fromModId intoModId
  /-- A file is put down to the mod; its release has the version and the channel that it had. -/
  files : ∀ id v, t.versions.get? id = some v → ∃ releaseId,
    t'.versions.get? id = some { v with modId := moveId fromModId intoModId v.modId, releaseId } ∧
      (v.releaseId = none → releaseId = none) ∧
      ∀ i r, v.releaseId = some i → t.releases.get? i = some r → ∃ i' r', releaseId = some i' ∧
        t'.releases.get? i' = some r' ∧ r'.modId = moveId fromModId intoModId r.modId ∧
          r'.versionNumber = r.versionNumber ∧ r'.channel = r.channel ∧
            (r.modId ≠ fromModId → i' = i)
  noFiles : ∀ id, t.versions.get? id = none → t'.versions.get? id = none
  otherReleases : ∀ id r, t.releases.get? id = some r → r.modId ≠ fromModId →
    t'.releases.get? id = some r
  /-- There are no other releases, and those of other mods stay. -/
  noReleases : ∀ id r', t'.releases.get? id = some r' →
    ∃ r, t.releases.get? id = some r ∧ r' = r.moved fromModId intoModId
  releaseKey : t'.releases.Distinct fun r => (r.modId, r.versionNumber, r.channel)
  /-- A relation of the mod is one of the other mod, which may have had it already; then that one
      is kept, with its own confidence. An absent range is the same as an empty one. -/
  relations : ∀ r ∈ t.relations, r.fromModId = fromModId →
    { r with fromModId := intoModId } ∈ t'.relations ∨
      ∃ r' ∈ t.relations, r' ∈ t'.relations ∧ r'.fromModId = intoModId ∧
        r'.fromVersionId = r.fromVersionId ∧ r'.target = r.target ∧ r'.kind = r.kind ∧
          r'.severity = r.severity ∧ r'.source = r.source ∧ r'.range.getD "" = r.range.getD ""
  /-- The relations of the other mods stay, and none comes from elsewhere. -/
  otherRelations : ∀ r, r.fromModId ≠ intoModId → (r ∈ t'.relations ↔
    r ∈ t.relations ∧ r.fromModId ≠ fromModId)
  keptRelations : ∀ r ∈ t.relations, r.fromModId = intoModId → r ∈ t'.relations
  noRelations : ∀ r ∈ t'.relations, r ∈ t.relations ∨ ∃ r' ∈ t.relations,
    r'.fromModId = fromModId ∧ { r' with fromModId := intoModId } = r
  packages : ∀ x, x ∈ t'.packages ↔ (x ∈ t.packages ∧ x.1 ≠ fromModId) ∨
    (x.1 = intoModId ∧ (fromModId, x.2) ∈ t.packages)
  /-- Nothing else changes. -/
  rest : t' = { t with
    mods := t'.mods
    aliases := t'.aliases
    versions := t'.versions
    releases := t'.releases
    relations := t'.relations
    packages := t'.packages }

section Merge

variable {fromModId intoModId : ℕ} {t : Tables}

theorem lands_mergeMods (ht : t.Integrity) (hne : fromModId ≠ intoModId)
    (hfrom : t.HasMod fromModId) (hinto : t.HasMod intoModId) :
    Txn.Lands (fun t' => t' = t) (mergeMods fromModId intoModId) fun _ t' =>
      t' = { t.folded fromModId intoModId with
        mods := (t.folded fromModId intoModId).mods.modify intoModId fun m =>
          { m with source := .authored } } := by
  rw [mergeMods, if_neg hne]
  refine Txn.Lands.read_bind fun t' _ he => ?_
  subst he
  rw [if_neg (not_not_intro hfrom), if_neg (not_not_intro hinto)]
  refine Txn.Lands.bind (lands_foldMods hne ht hinto) fun _ => lands_execute fun t₁ ht₁ he => ?_
  refine ⟨ht₁.of_mods fun id hid => Table.isSome_get?_modify.trans hid, he ▸ rfl⟩

/-- A release that is folded goes to one of the other mod, and the others are put down to it. -/
theorem Tables.Integrity.get?_folded_release (ht : t.Integrity) (hne : fromModId ≠ intoModId) {i : ℕ}
    {r : ReleaseRow} (hr : t.releases.get? i = some r) : ∃ r',
      (t.folded fromModId intoModId).releases.get?
        ((t.foldedInto fromModId intoModId i).getD i) = some r' ∧
      r'.modId = moveId fromModId intoModId r.modId ∧ r'.versionNumber = r.versionNumber ∧
        r'.channel = r.channel := by
  rcases hfold : t.foldedInto fromModId intoModId i with _ | j
  · exact ⟨_, get?_releases_folded.2 ⟨r, hr, hfold, rfl⟩, rfl, rfl, rfl⟩
  · obtain ⟨r₀, r', hr₀, hr', hfrom, hinto, hvn, hch⟩ := ht.foldedInto_eq_some.1 hfold
    obtain rfl := Option.some.inj (hr.symm.trans hr₀)
    have hstays : t.foldedInto fromModId intoModId j = none :=
      foldedInto_eq_none hr' fun h => hne (h.symm.trans hinto)
    refine ⟨_, get?_releases_folded.2 ⟨r', hr', hstays, rfl⟩, ?_, hvn, hch⟩
    rw [ReleaseRow.moved_eq_self fun h => hne (h.symm.trans hinto), hinto, moveId, if_pos hfrom]

/-- Merging a mod into another never fails, and it loses nothing. -/
theorem mergeMods_merged (s : Stored Tables.Integrity) (hne : fromModId ≠ intoModId)
    (hfrom : s.1.HasMod fromModId) (hinto : s.1.HasMod intoModId) :
    ∃ s', mergeMods fromModId intoModId s = .ok ((), s') ∧ Merged fromModId intoModId s.1 s'.1 := by
  obtain ⟨⟨⟩, s', hrun, he⟩ := lands_mergeMods s.2 hne hfrom hinto s rfl
  refine ⟨s', hrun, ?_⟩
  have hs' := s'.2
  obtain ⟨t, ht⟩ := s
  dsimp only at *
  rw [he] at hs' ⊢
  constructor
  case gone =>
    intro h
    have hget := Table.isSome_get?_modify.symm.trans h
    rw [get?_mods_folded, if_pos rfl] at hget
    cases hget
  case survivor => rw [Table.get?_modify_self, get?_mods_folded, if_neg hne.symm]
  case otherMods =>
    intro id hid hid'
    rw [Table.get?_modify_of_ne hid', get?_mods_folded, if_neg hid]
  case aliases => rfl
  case files =>
    intro id v hv
    refine ⟨_, get?_versions_folded.2 ⟨v, hv, rfl⟩, fun hnone => ?_, fun i r hi hr => ?_⟩
    · rw [hnone, Option.map_none]
    · obtain ⟨r', hr', hmod, hkey⟩ := ht.get?_folded_release hne hr
      refine ⟨_, r', ?_, hr', hmod, hkey.1, hkey.2, fun hother => ?_⟩
      · rw [hi, Option.map_some]
      · rw [foldedInto_eq_none hr hother, Option.getD_none]
  case noFiles =>
    intro id hid
    rw [folded, Table.get?_map, hid, Option.map_none]
  case otherReleases =>
    intro id r hr hother
    refine get?_releases_folded.2 ⟨r, hr, foldedInto_eq_none hr hother, ?_⟩
    exact ReleaseRow.moved_eq_self hother
  case noReleases =>
    intro id r' hr'
    obtain ⟨r, hr, -, rfl⟩ := get?_releases_folded.1 hr'
    exact ⟨r, hr, rfl⟩
  case releaseKey => exact hs'.releaseKey
  case relations =>
    intro r hr hfrom
    refine (ht.twin_of_relation hne hr hfrom).imp id ?_
    rintro ⟨r', hr', hmem, hkey⟩
    simp only [RelationRow.dedupeKey, RelationRow.mk.injEq, Option.some.injEq] at hkey
    obtain ⟨hmod, hversion, htarget, hrange, hkind, hseverity, hsource, -⟩ := hkey
    exact ⟨r', hr', hmem, hmod, ht.scope_eq hr' hr hversion, htarget, hkind, hseverity, hsource,
      hrange⟩
  case otherRelations =>
    intro r hother
    refine (ht.mem_relations_folded hne).trans ⟨?_, .inl⟩
    rintro (h | ⟨r', -, -, -, rfl⟩)
    · exact h
    · exact absurd rfl hother
  case keptRelations =>
    exact fun r hr hmod => (ht.mem_relations_folded hne).2 (.inl ⟨hr, hmod ▸ hne.symm⟩)
  case noRelations =>
    intro r hr
    refine ((ht.mem_relations_folded hne).1 hr).imp And.left ?_
    rintro ⟨r', hr', hmod, -, he⟩
    exact ⟨r', hr', hmod, he⟩
  case packages => exact fun x => ht.mem_packages_folded hne
  case rest => rfl

end Merge

/-- Two mods that depend on the same one, the first by a better account, and a file of the first. -/
def twoMods : Tables :=
  { empty with
    mods := (Table.empty.insert ⟨none, none, .harvested⟩).insert ⟨none, none, .harvested⟩
    versions := Table.empty.insert ⟨1, "1", "sha", none, [], none, .harvested⟩
    relations := [⟨1, none, "lib", none, .requires, none, .jarMeta, 55⟩,
      ⟨2, none, "lib", none, .requires, none, .jarMeta, 50⟩] }

theorem twoMods_integrity : twoMods.Integrity := by decide

theorem mergeMods_merged_twoMods : ∃ s',
    mergeMods 1 2 ⟨twoMods, twoMods_integrity⟩ = .ok ((), s') ∧ Merged 1 2 twoMods s'.1 :=
  mergeMods_merged ⟨twoMods, twoMods_integrity⟩ (by decide) (by decide) (by decide)

/-- The better account is lost, and a file without a release stays without one. -/
theorem mergeMods_keeps_lower : ∃ s : Stored Integrity, s.1.HasMod 1 ∧ s.1.HasMod 2 ∧
    ∃ s', mergeMods 1 2 s = .ok ((), s') ∧
      (∃ r ∈ s.1.relations, r.fromModId = 1 ∧ ∀ r' ∈ s'.1.relations, r'.fromModId = 2 →
        r'.target = r.target → r'.kind = r.kind → r'.confidence < r.confidence) ∧
      ∃ v ∈ s.1.versions.get? 1, v.modId = 1 ∧
        ∃ v' ∈ s'.1.versions.get? 1, v'.modId = 2 ∧ v'.releaseId = none := by
  refine ⟨⟨twoMods, twoMods_integrity⟩, by decide, by decide, ?_⟩
  have hne : (1 : ℕ) ≠ 2 := by decide
  obtain ⟨⟨⟩, s', hrun, he⟩ := lands_mergeMods twoMods_integrity hne (by decide) (by decide)
    ⟨twoMods, twoMods_integrity⟩ rfl
  refine ⟨s', hrun, ?_⟩
  rw [he]
  decide

end Registry

end Smrt
