import Mathlib.Tactic.Tauto
import Smrt.Lib.Ignore
import Smrt.Registry.Upsert

/-!
# Folding mods

One mod is folded into another (`foldMods`): what it has is put down to the other one, statement by
statement, and it is deleted. A release that the other one has too is folded into that one, and a
relation or a package that it has too is dropped.

The statements together take the tables to `Tables.folded`, which says where each row goes, and they
never fail (`lands_foldMods`).
-/

namespace Smrt

namespace Registry

open Tables

variable (fromModId intoModId : ℕ)

/-- The mod that a row is put down to. -/
def moveId (id : ℕ) : ℕ := if id = fromModId then intoModId else id

def AliasRow.moved (a : AliasRow) : AliasRow :=
  { a with modId := moveId fromModId intoModId a.modId }

def ReleaseRow.moved (r : ReleaseRow) : ReleaseRow :=
  { r with modId := moveId fromModId intoModId r.modId }

def VersionRow.moved (v : VersionRow) : VersionRow :=
  { v with modId := moveId fromModId intoModId v.modId }

/-- A release is folded into the one of the same version and channel, or put down to the mod. -/
def foldRelease (id : ℕ) (r : ReleaseRow) : Conn Unit := do
  let t ← Txn.read
  match t.releaseFor intoModId r.versionNumber r.channel with
  | some target => do
    execute fun t =>
      { t with versions := t.versions.map fun _ v =>
          if v.releaseId = some id then { v with releaseId := some target } else v }
    execute fun t => { t with releases := t.releases.filter fun i _ => i ≠ id }
  | none =>
    execute fun t =>
      { t with releases := t.releases.modify id fun r => { r with modId := intoModId } }

/-- The relations, those of the mod put down to the other one unless it has them. -/
def moveRelations (l : List RelationRow) : List RelationRow :=
  updateOrIgnore RelationRow.dedupeKey (fun r => r.fromModId = fromModId)
    (fun r => { r with fromModId := intoModId }) [] l

/-- The packages, those of the mod put down to the other one unless it has them. -/
def movePackages (l : List (ℕ × String)) : List (ℕ × String) :=
  updateOrIgnore id (fun x => x.1 = fromModId) (fun x => (intoModId, x.2)) [] l

def foldMods : Conn Unit :=
  if fromModId = intoModId then pure () else do
    let t ← Txn.read
    (t.releases.rows.filter fun x => x.2.modId = fromModId).forM fun x =>
      foldRelease intoModId x.1 x.2
    execute fun t =>
      { t with versions := t.versions.map fun _ v => v.moved fromModId intoModId }
    execute fun t => { t with aliases := t.aliases.map fun a => a.moved fromModId intoModId }
    execute fun t => { t with relations := moveRelations fromModId intoModId t.relations }
    execute fun t => { t with relations := t.relations.filter fun r => r.fromModId ≠ fromModId }
    execute fun t => { t with packages := movePackages fromModId intoModId t.packages }
    execute fun t => { t with packages := t.packages.filter fun x => x.1 ≠ fromModId }
    execute fun t => { t with mods := t.mods.filter fun id _ => id ≠ fromModId }

/-! ## Where the rows go -/

/-- The release that a release of the mod is folded into, if there is one. -/
def Tables.foldedInto (t : Tables) (id : ℕ) : Option ℕ :=
  (t.releases.get? id).bind fun r =>
    if r.modId = fromModId then t.releaseFor intoModId r.versionNumber r.channel else none

/-- A row of the releases, after some of them are folded. -/
def ReleaseRow.movedIf (moved : List ℕ) (id : ℕ) (r : ReleaseRow) : ReleaseRow :=
  if id ∈ moved then r.moved fromModId intoModId else r

/-- The releases in the list `moved` are folded, and no file is in those in `left` any more. -/
def Tables.releasesFolded (t : Tables) (left moved : List ℕ) : Tables :=
  { t with
    versions := t.versions.map fun _ v =>
      { v with releaseId := v.releaseId.map fun r =>
          if r ∈ left then (t.foldedInto fromModId intoModId r).getD r else r }
    releases := (t.releases.filter fun id _ =>
        id ∉ moved ∨ t.foldedInto fromModId intoModId id = none).map fun id r =>
      r.movedIf fromModId intoModId moved id }

/-- One mod is folded into another. -/
def Tables.folded (t : Tables) : Tables :=
  { t with
    mods := t.mods.filter fun id _ => id ≠ fromModId
    aliases := t.aliases.map fun a => a.moved fromModId intoModId
    releases := (t.releases.filter fun id _ =>
      (t.foldedInto fromModId intoModId id).isNone).map fun _ r => r.moved fromModId intoModId
    versions := t.versions.map fun _ v =>
      { v with
        modId := moveId fromModId intoModId v.modId
        releaseId := v.releaseId.map fun r => (t.foldedInto fromModId intoModId r).getD r }
    relations := moveRows RelationRow.dedupeKey (fun r => r.fromModId = fromModId)
      (fun r => { r with fromModId := intoModId }) t.relations
    packages := moveRows id (fun x => x.1 = fromModId) (fun x => (intoModId, x.2)) t.packages }

section Releases

variable {fromModId intoModId} {t : Tables}

/-- A release is found by its key. -/
theorem Tables.Integrity.releaseFor_eq_some (ht : t.Integrity) {modId id : ℕ}
    {versionNumber : String} {channel : Channel} :
    t.releaseFor modId versionNumber channel = some id ↔ ∃ r, t.releases.get? id = some r ∧
      r.modId = modId ∧ r.versionNumber = versionNumber ∧ r.channel = channel := by
  have hfind : ∀ r, t.releases.find? (fun r => r.modId = modId ∧ r.versionNumber = versionNumber ∧
      r.channel = channel) = some (id, r) ↔ t.releases.get? id = some r ∧
        (r.modId, r.versionNumber, r.channel) = (modId, versionNumber, channel) := by
    intro r
    refine ht.releaseKey.find?_eq_some fun r => ?_
    rw [decide_eq_true_iff, Prod.mk.injEq, Prod.mk.injEq]
  rw [releaseFor, Option.map_eq_some_iff]
  constructor
  · rintro ⟨⟨i, r⟩, hr, rfl⟩
    have hi : i = (i, r).1 := rfl
    obtain ⟨hget, hkey⟩ := (hfind r).1 hr
    rw [Prod.mk.injEq, Prod.mk.injEq] at hkey
    exact ⟨r, hget, hkey⟩
  · rintro ⟨r, hget, hkey⟩
    refine ⟨(id, r), (hfind r).2 ⟨hget, ?_⟩, rfl⟩
    rw [Prod.mk.injEq, Prod.mk.injEq]
    exact hkey

/-- A release is folded into the release of the other mod that has its version and channel. -/
theorem Tables.Integrity.foldedInto_eq_some (ht : t.Integrity) {id j : ℕ} :
    t.foldedInto fromModId intoModId id = some j ↔ ∃ r r', t.releases.get? id = some r ∧
      t.releases.get? j = some r' ∧ r.modId = fromModId ∧ r'.modId = intoModId ∧
        r'.versionNumber = r.versionNumber ∧ r'.channel = r.channel := by
  rw [foldedInto, Option.bind_eq_some_iff]
  constructor
  · rintro ⟨r, hr, hj⟩
    split_ifs at hj with hmod
    obtain ⟨r', hr', hkey⟩ := ht.releaseFor_eq_some.1 hj
    exact ⟨r, r', hr, hr', hmod, hkey⟩
  · rintro ⟨r, r', hr, hr', hmod, hkey⟩
    exact ⟨r, hr, (if_pos hmod).trans (ht.releaseFor_eq_some.2 ⟨r', hr', hkey⟩)⟩

/-- A release of another mod is not folded. -/
theorem Tables.foldedInto_eq_none {id : ℕ} {r : ReleaseRow} (hr : t.releases.get? id = some r)
    (hmod : r.modId ≠ fromModId) : t.foldedInto fromModId intoModId id = none := by
  rw [foldedInto, hr, Option.bind_some, if_neg hmod]

/-- The mod of a release stays, or it is moved. -/
theorem ReleaseRow.movedIf_modId (moved : List ℕ) (id : ℕ) (r : ReleaseRow) :
    (r.movedIf fromModId intoModId moved id).modId = r.modId ∨
      id ∈ moved ∧ r.modId = fromModId ∧
        (r.movedIf fromModId intoModId moved id).modId = intoModId := by
  rw [movedIf]
  by_cases hid : id ∈ moved
  · rw [if_pos hid, ReleaseRow.moved, moveId]
    by_cases hmod : r.modId = fromModId
    · exact .inr ⟨hid, hmod, if_pos hmod⟩
    · exact .inl (if_neg hmod)
  · rw [if_neg hid]
    exact .inl rfl

theorem ReleaseRow.movedIf_key (moved : List ℕ) (id : ℕ) (r : ReleaseRow) :
    (r.movedIf fromModId intoModId moved id).versionNumber = r.versionNumber ∧
      (r.movedIf fromModId intoModId moved id).channel = r.channel := by
  rw [movedIf]
  split_ifs <;> exact ⟨rfl, rfl⟩

/-- A release that is not folded is there, perhaps under the other mod. -/
theorem Tables.get?_releases_releasesFolded {left moved : List ℕ} {id : ℕ} {r : ReleaseRow} :
    (t.releasesFolded fromModId intoModId left moved).releases.get? id = some r ↔
      ∃ r₀, t.releases.get? id = some r₀ ∧
        (id ∈ moved → t.foldedInto fromModId intoModId id = none) ∧
        r₀.movedIf fromModId intoModId moved id = r := by
  rw [releasesFolded, Table.get?_map, Table.get?_filter, Option.map_eq_some_iff]
  constructor
  · rintro ⟨r₀, hr₀, he⟩
    obtain ⟨hget, hkeep⟩ := Option.filter_eq_some_iff.1 hr₀
    exact ⟨r₀, hget, fun hid => (of_decide_eq_true hkeep).resolve_left (not_not_intro hid), he⟩
  · rintro ⟨r₀, hget, hkeep, he⟩
    exact ⟨r₀, Option.filter_eq_some_iff.2
      ⟨hget, decide_eq_true (Decidable.not_or_of_imp hkeep)⟩, he⟩

theorem Tables.versions_releasesFolded (left moved : List ℕ) :
    (t.releasesFolded fromModId intoModId left moved).versions = t.versions.map fun _ v =>
      { v with releaseId := v.releaseId.map fun r =>
          if r ∈ left then (t.foldedInto fromModId intoModId r).getD r else r } := rfl

theorem Tables.get?_versions_releasesFolded {left moved : List ℕ} {id : ℕ} {v : VersionRow} :
    (t.releasesFolded fromModId intoModId left moved).versions.get? id = some v ↔
      ∃ v₀, t.versions.get? id = some v₀ ∧
        { v₀ with releaseId := v₀.releaseId.map fun r =>
            if r ∈ left then (t.foldedInto fromModId intoModId r).getD r else r } = v := by
  rw [versions_releasesFolded, Table.get?_map, Option.map_eq_some_iff]

section Apart

variable (hne : fromModId ≠ intoModId)

include hne

/-- A release that another one is folded into stays. -/
theorem Tables.Integrity.get?_of_foldedInto (ht : t.Integrity) {left moved : List ℕ} {id j : ℕ}
    (hj : t.foldedInto fromModId intoModId id = some j) :
    ((t.releasesFolded fromModId intoModId left moved).releases.get? j).isSome := by
  obtain ⟨r, r', -, hr', -, hmod, -⟩ := ht.foldedInto_eq_some.1 hj
  refine Option.isSome_iff_exists.2 ⟨_, get?_releases_releasesFolded.2 ⟨r', hr', fun _ => ?_, rfl⟩⟩
  exact foldedInto_eq_none hr' fun h => hne (h.symm.trans hmod)

/-- The constraints hold after some of the releases are folded. -/
theorem Tables.Integrity.releasesFolded (ht : t.Integrity) (hinto : t.HasMod intoModId)
    (left moved : List ℕ) (hsub : ∀ id ∈ moved, id ∈ left) :
    (t.releasesFolded fromModId intoModId left moved).Integrity := by
  have hversion : ∀ id, ((t.releasesFolded fromModId intoModId left moved).versions.get? id).isSome =
      (t.versions.get? id).isSome := fun id => Table.isSome_get?_map
  refine { ht with
    releaseMod := Table.all_of_get? fun id r hr => ?_
    releaseKey := Table.Distinct.of_eq_of_key fun i j r r' hr hr' hkey => ?_
    versionMod := Table.all_of_get? fun id v hv => ?_
    versionRelease := Table.all_of_get? fun id v hv r hr => ?_
    versionSha1 := ht.versionSha1.map fun _ _ => rfl
    versionZero := ht.versionZero ∘ (hversion 0).symm.trans
    relationVersion := fun r hr v hv => (hversion v).trans (ht.relationVersion r hr v hv)
    targetVersion := fun p hp => (hversion p.1).trans (ht.targetVersion p hp)
    needVersion := fun p hp => (hversion p.1).trans (ht.needVersion p hp)
    buildModVersion := fun p hp => (hversion p.versionId).trans (ht.buildModVersion p hp) }
  · obtain ⟨r₀, hr₀, -, rfl⟩ := get?_releases_releasesFolded.1 hr
    have hmod : t.HasMod r₀.modId := ht.releaseMod.get hr₀
    have hmoved : t.HasMod (r₀.movedIf fromModId intoModId moved id).modId := by
      rcases r₀.movedIf_modId moved id with he | ⟨-, -, he⟩ <;> rw [he]
      · exact hmod
      · exact hinto
    exact hmoved
  · obtain ⟨r₀, hr₀, hkeep, rfl⟩ := get?_releases_releasesFolded.1 hr
    obtain ⟨r₀', hr₀', hkeep', rfl⟩ := get?_releases_releasesFolded.1 hr'
    simp only [Prod.mk.injEq, r₀.movedIf_key, r₀'.movedIf_key] at hkey
    obtain ⟨hmod, hvn, hch⟩ := hkey
    -- If one of them alone has moved, it has a twin there, and would have been folded.
    rcases r₀.movedIf_modId moved i with he | ⟨hi, hfrom, he⟩ <;>
      rcases r₀'.movedIf_modId moved j with he' | ⟨hj, hfrom', he'⟩ <;> rw [he, he'] at hmod
    · exact ht.releaseKey.eq_of_key hr₀ hr₀' (by rw [hmod, hvn, hch])
    · have hfold := ht.foldedInto_eq_some.2 ⟨r₀', r₀, hr₀', hr₀, hfrom', hmod, hvn, hch⟩
      exact absurd (hfold.symm.trans (hkeep' hj)) (Option.some_ne_none i)
    · have hfold :=
        ht.foldedInto_eq_some.2 ⟨r₀, r₀', hr₀, hr₀', hfrom, hmod.symm, hvn.symm, hch.symm⟩
      exact absurd (hfold.symm.trans (hkeep hi)) (Option.some_ne_none j)
    · exact ht.releaseKey.eq_of_key hr₀ hr₀' (by rw [hfrom, hfrom', hvn, hch])
  · obtain ⟨v₀, hv₀, rfl⟩ := get?_versions_releasesFolded.1 hv
    exact (ht.versionMod.get hv₀ :)
  · obtain ⟨v₀, hv₀, rfl⟩ := get?_versions_releasesFolded.1 hv
    obtain ⟨r₀, hr₀, rfl⟩ := Option.map_eq_some_iff.1 hr
    obtain ⟨row, hrow⟩ := Option.isSome_iff_exists.1 (ht.versionRelease.get hv₀ r₀ hr₀)
    have hstays : (r₀ ∈ left → t.foldedInto fromModId intoModId r₀ = none) →
        ((t.releasesFolded fromModId intoModId left moved).releases.get? r₀).isSome := fun h =>
      Option.isSome_iff_exists.2 ⟨_, get?_releases_releasesFolded.2
        ⟨row, hrow, fun hmoved => h (hsub _ hmoved), rfl⟩⟩
    split_ifs with hleft
    · rcases hfold : t.foldedInto fromModId intoModId r₀ with _ | j
      · exact hstays fun _ => hfold
      · exact ht.get?_of_foldedInto hne hfold
    · exact hstays fun h => absurd h hleft

/-- Folding some releases does not change which one another is folded into. -/
theorem Tables.Integrity.releaseFor_releasesFolded (ht : t.Integrity) (hinto : t.HasMod intoModId)
    {moved : List ℕ} {id : ℕ} {r : ReleaseRow} (hr : t.releases.get? id = some r)
    (hmod : r.modId = fromModId) (hid : id ∉ moved) :
    (t.releasesFolded fromModId intoModId moved moved).releaseFor intoModId r.versionNumber
      r.channel = t.foldedInto fromModId intoModId id := by
  have ht' := ht.releasesFolded hne hinto moved moved fun _ h => h
  ext j
  rw [ht'.releaseFor_eq_some, ht.foldedInto_eq_some]
  constructor
  · rintro ⟨r', hr', hmod', hvn, hch⟩
    obtain ⟨r₀, hr₀, -, rfl⟩ := get?_releases_releasesFolded.1 hr'
    rw [(r₀.movedIf_key _ _).1] at hvn
    rw [(r₀.movedIf_key _ _).2] at hch
    rcases r₀.movedIf_modId moved j with he | ⟨hj, hfrom, -⟩
    · exact ⟨r, r₀, hr, hr₀, hmod, he.symm.trans hmod', hvn, hch⟩
    · have heq := ht.releaseKey.eq_of_key hr₀ hr (by rw [hfrom, hmod, hvn, hch])
      exact absurd (heq ▸ hj) hid
  · rintro ⟨r₀, r', hr₀, hr', -, hmod', hvn, hch⟩
    obtain rfl := Option.some.inj (hr.symm.trans hr₀)
    refine ⟨_, get?_releases_releasesFolded.2 ⟨r', hr', fun _ => ?_, rfl⟩, ?_⟩
    · exact foldedInto_eq_none hr' fun h => hne (h.symm.trans hmod')
    · rw [(r'.movedIf_key _ _).1, (r'.movedIf_key _ _).2]
      refine ⟨?_, hvn, hch⟩
      rcases r'.movedIf_modId moved j with he | ⟨-, -, he⟩
      · exact he.trans hmod'
      · exact he

end Apart

/-- The releases other than one are not changed by folding it too. -/
theorem Tables.get?_releases_cons (left left' : List ℕ) {moved : List ℕ} {id j : ℕ} (hj : j ≠ id) :
    (t.releasesFolded fromModId intoModId left (id :: moved)).releases.get? j =
      (t.releasesFolded fromModId intoModId left' moved).releases.get? j := by
  have hmem : j ∈ id :: moved ↔ j ∈ moved := by
    rw [List.mem_cons, or_iff_right hj]
  ext r
  simp only [get?_releases_releasesFolded, ReleaseRow.movedIf, hmem]

/-- A release that is left to itself is put down to the other mod. -/
theorem Tables.releasesFolded_cons_of_none {moved : List ℕ} {id : ℕ} {r : ReleaseRow}
    (hr : t.releases.get? id = some r) (hmod : r.modId = fromModId) (hid : id ∉ moved)
    (hfold : t.foldedInto fromModId intoModId id = none) :
    { t.releasesFolded fromModId intoModId moved moved with
      releases := (t.releasesFolded fromModId intoModId moved moved).releases.modify id fun r =>
        { r with modId := intoModId } } =
      t.releasesFolded fromModId intoModId (id :: moved) (id :: moved) := by
  have hversions : (t.releasesFolded fromModId intoModId moved moved).versions =
      (t.releasesFolded fromModId intoModId (id :: moved) (id :: moved)).versions := by
    rw [versions_releasesFolded, versions_releasesFolded]
    congr 1
    funext _ v
    congr 2
    funext r
    by_cases hrid : r = id
    · rw [hrid, hfold, Option.getD_none, ite_self, ite_self]
    · simp only [List.mem_cons, hrid, false_or]
  have hreleases : ((t.releasesFolded fromModId intoModId moved moved).releases.modify id fun r =>
      { r with modId := intoModId }) =
        (t.releasesFolded fromModId intoModId (id :: moved) (id :: moved)).releases := by
    refine Table.ext_get? fun j => ?_
    rw [Table.get?_modify]
    split_ifs with hj
    · rw [hj, get?_releases_releasesFolded.2 ⟨r, hr, fun _ => hfold, rfl⟩,
        get?_releases_releasesFolded.2 ⟨r, hr, fun _ => hfold, rfl⟩, Option.map_some,
        ReleaseRow.movedIf, ReleaseRow.movedIf, if_neg hid, if_pos List.mem_cons_self,
        ReleaseRow.moved, moveId, if_pos hmod]
    · exact (get?_releases_cons _ _ hj).symm
  rw [hreleases]
  exact congrArg (fun versions =>
    { t.releasesFolded fromModId intoModId (id :: moved) (id :: moved) with versions }) hversions

/-- The files of a release that is folded go to the one that it is folded into. -/
theorem Tables.Integrity.versions_releasesFolded_cons (ht : t.Integrity)
    (hne : fromModId ≠ intoModId) {moved : List ℕ} {id target : ℕ} {r : ReleaseRow}
    (hr : t.releases.get? id = some r) (hmod : r.modId = fromModId) (hid : id ∉ moved)
    (hfold : t.foldedInto fromModId intoModId id = some target) :
    ((t.releasesFolded fromModId intoModId moved moved).versions.map fun _ v =>
      if v.releaseId = some id then { v with releaseId := some target } else v) =
        (t.releasesFolded fromModId intoModId (id :: moved) moved).versions := by
  -- No file is in the release because another one was folded into it.
  have hother : ∀ j ∈ moved, (t.foldedInto fromModId intoModId j).getD j ≠ id := by
    intro j hj
    rcases hj' : t.foldedInto fromModId intoModId j with _ | k
    · rintro rfl
      exact hid hj
    · rintro rfl
      obtain ⟨-, r', -, hr', -, hmod', -⟩ := ht.foldedInto_eq_some.1 hj'
      obtain rfl := Option.some.inj (hr.symm.trans hr')
      exact hne (hmod.symm.trans hmod')
  refine Table.ext_get? fun i => ?_
  rw [Table.get?_map, versions_releasesFolded, versions_releasesFolded, Table.get?_map,
    Table.get?_map, Option.map_map]
  congr 1
  funext v
  obtain ⟨modId, version, sha1, filename, mcVersions, releaseId, source⟩ := v
  rcases releaseId with _ | j
  · rfl
  · simp only [Function.comp_apply, Option.map_some, Option.some.injEq, List.mem_cons]
    by_cases hj : j ∈ moved
    · rw [if_pos hj, if_neg (hother j hj), if_pos (.inr hj)]
    · rw [if_neg hj]
      by_cases hji : j = id
      · rw [if_pos hji, if_pos (.inl hji), hji, hfold, Option.getD_some]
      · rw [if_neg hji, if_neg (not_or_intro hji hj)]

/-- A release that is folded goes. -/
theorem Tables.releases_releasesFolded_cons {left moved : List ℕ} {id target : ℕ}
    (hfold : t.foldedInto fromModId intoModId id = some target) :
    ((t.releasesFolded fromModId intoModId left moved).releases.filter fun i _ => i ≠ id) =
      (t.releasesFolded fromModId intoModId left (id :: moved)).releases := by
  refine Table.ext_get? fun j => ?_
  rw [Table.get?_filter]
  by_cases hj : j = id
  · rw [hj]
    ext r
    simp [get?_releases_releasesFolded, hfold]
  · rw [get?_releases_cons left left hj]
    ext r
    simp [hj]

section Lands

variable (hne : fromModId ≠ intoModId)

include hne

/-- One more release is folded. -/
theorem lands_foldRelease (ht : t.Integrity) (hinto : t.HasMod intoModId) {moved : List ℕ} {id : ℕ}
    {r : ReleaseRow} (hr : t.releases.get? id = some r) (hmod : r.modId = fromModId)
    (hid : id ∉ moved) :
    Txn.Lands (fun t' => t' = t.releasesFolded fromModId intoModId moved moved)
      (foldRelease intoModId id r) fun _ t' =>
        t' = t.releasesFolded fromModId intoModId (id :: moved) (id :: moved) := by
  have hboth := ht.releasesFolded hne hinto (id :: moved) (id :: moved) fun _ h => h
  refine Txn.Lands.read_bind fun t' _ he => ?_
  subst he
  rw [ht.releaseFor_releasesFolded hne hinto hr hmod hid]
  rcases hfold : t.foldedInto fromModId intoModId id with _ | target
  · refine lands_execute fun t' _ he => ?_
    rw [he, releasesFolded_cons_of_none hr hmod hid hfold]
    exact ⟨hboth, rfl⟩
  · have hversions := ht.versions_releasesFolded_cons hne hr hmod hid hfold
    have hleft := ht.releasesFolded hne hinto (id :: moved) moved
      fun _ h => List.mem_cons_of_mem _ h
    refine Txn.Lands.bind (Q := fun _ t' =>
      t' = t.releasesFolded fromModId intoModId (id :: moved) moved)
      (lands_execute fun t' _ he => ?_) fun _ => lands_execute fun t' _ he => ?_
    · rw [he, hversions]
      exact ⟨hleft, rfl⟩
    · rw [he, releases_releasesFolded_cons hfold]
      exact ⟨hboth, rfl⟩

/-- The releases of a list are folded in turn. -/
theorem lands_foldReleases (ht : t.Integrity) (hinto : t.HasMod intoModId)
    {l : List (ℕ × ReleaseRow)}
    (hl : ∀ x ∈ l, t.releases.get? x.1 = some x.2 ∧ x.2.modId = fromModId)
    (hnodup : (l.map Prod.fst).Nodup) (moved : List ℕ) (hmoved : ∀ x ∈ l, x.1 ∉ moved) :
    Txn.Lands (fun t' => t' = t.releasesFolded fromModId intoModId moved moved)
      (l.forM fun x => foldRelease intoModId x.1 x.2) fun _ t' =>
        ∃ all : List ℕ, (∀ i, i ∈ all ↔ i ∈ moved ∨ i ∈ l.map Prod.fst) ∧
          t' = t.releasesFolded fromModId intoModId all all := by
  induction l generalizing moved with
  | nil => exact Txn.Lands.pure fun t' _ he => ⟨moved, fun i => by simp, he⟩
  | cons x l ih =>
    obtain ⟨hx, hl⟩ := List.forall_mem_cons.1 hl
    obtain ⟨hxl, hnodup⟩ := List.nodup_cons.1 hnodup
    obtain ⟨hxmoved, hmoved⟩ := List.forall_mem_cons.1 hmoved
    refine Txn.Lands.bind (lands_foldRelease hne ht hinto hx.1 hx.2 hxmoved) fun _ => ?_
    refine (ih hl hnodup _ fun y hy => ?_).of_post fun _ t' _ ⟨all, hall, he⟩ =>
      ⟨all, fun i => ?_, he⟩
    · rw [List.mem_cons, not_or]
      refine ⟨?_, hmoved y hy⟩
      rintro hyx
      exact hxl (hyx ▸ List.mem_map_of_mem hy)
    · rw [hall, List.mem_cons, List.map_cons, List.mem_cons]
      tauto

end Lands

end Releases

/-! ## The rest of the rows -/

section Rest

variable {fromModId intoModId} {t : Tables}

theorem moveId_ne (hne : fromModId ≠ intoModId) (id : ℕ) :
    moveId fromModId intoModId id ≠ fromModId := by
  rw [moveId]
  split_ifs with h
  · exact hne.symm
  · exact h

theorem hasMod_moveId (hinto : t.HasMod intoModId) {id : ℕ} (hid : t.HasMod id) :
    t.HasMod (moveId fromModId intoModId id) := by
  rw [moveId]
  split_ifs
  · exact hinto
  · exact hid

/-- Aliases may be put down to other mods that are there. -/
theorem Tables.Integrity.of_aliases (h : t.Integrity) {aliases : List AliasRow}
    (hmod : ∀ a ∈ aliases, t.HasMod a.modId)
    (hkey : (aliases.map fun a => (a.source, a.externalKey)).Nodup) :
    ({ t with aliases }).Integrity :=
  { h with aliasMod := hmod, aliasKey := hkey }

/-- A mod that nothing refers to can go. -/
theorem Tables.Integrity.deleteMod (h : t.Integrity) {id : ℕ} (haliases : ∀ a ∈ t.aliases, a.modId ≠ id)
    (hreleases : t.releases.All fun r => r.modId ≠ id)
    (hversions : t.versions.All fun v => v.modId ≠ id)
    (hrelations : ∀ r ∈ t.relations, r.fromModId ≠ id) (hpackages : ∀ x ∈ t.packages, x.1 ≠ id) :
    ({ t with mods := t.mods.filter fun i _ => i ≠ id }).Integrity := by
  have hmods : ∀ i, t.HasMod i → i ≠ id → ((t.mods.filter fun i _ => i ≠ id).get? i).isSome := by
    intro i hi hne
    obtain ⟨m, hm⟩ := Option.isSome_iff_exists.1 hi
    rw [Table.get?_filter, hm]
    simp [hne]
  exact { h with
    aliasMod := fun a ha => hmods _ (h.aliasMod a ha) (haliases a ha)
    releaseMod := fun x hx => hmods _ (h.releaseMod x hx) (hreleases x hx)
    versionMod := fun x hx => hmods _ (h.versionMod x hx) (hversions x hx)
    relationMod := fun r hr => hmods _ (h.relationMod r hr) (hrelations r hr)
    packageMod := fun x hx => hmods _ (h.packageMod x hx) (hpackages x hx) }

theorem Tables.releasesFolded_nil : t.releasesFolded fromModId intoModId [] [] = t := by
  have hversions : (t.releasesFolded fromModId intoModId [] []).versions = t.versions := by
    refine Table.ext_get? fun id => ?_
    rw [versions_releasesFolded, Table.get?_map]
    simp
  have hreleases : (t.releasesFolded fromModId intoModId [] []).releases = t.releases := by
    refine Table.ext_get? fun id => ?_
    ext r
    simp [get?_releases_releasesFolded, ReleaseRow.movedIf]
  have ht : t.releasesFolded fromModId intoModId [] [] =
      { t with
        versions := (t.releasesFolded fromModId intoModId [] []).versions
        releases := (t.releasesFolded fromModId intoModId [] []).releases } := rfl
  rw [ht, hversions, hreleases]

theorem ReleaseRow.moved_eq_self {r : ReleaseRow} (hmod : r.modId ≠ fromModId) :
    r.moved fromModId intoModId = r := by
  rw [moved, moveId, if_neg hmod]

theorem Tables.get?_mods_folded {id : ℕ} : (t.folded fromModId intoModId).mods.get? id =
    if id = fromModId then none else t.mods.get? id := by
  rw [folded, Table.get?_filter]
  by_cases hid : id = fromModId
  · rw [if_pos hid]
    simp [hid]
  · rw [if_neg hid]
    ext m
    simp [hid]

theorem Tables.get?_releases_folded {id : ℕ} {r : ReleaseRow} :
    (t.folded fromModId intoModId).releases.get? id = some r ↔ ∃ r₀, t.releases.get? id = some r₀ ∧
      t.foldedInto fromModId intoModId id = none ∧ r₀.moved fromModId intoModId = r := by
  rw [folded, Table.get?_map, Table.get?_filter, Option.map_eq_some_iff]
  simp only [Option.filter_eq_some_iff, Option.isNone_iff_eq_none, and_assoc]

theorem Tables.get?_versions_folded {id : ℕ} {v : VersionRow} :
    (t.folded fromModId intoModId).versions.get? id = some v ↔ ∃ v₀, t.versions.get? id = some v₀ ∧
      { v₀ with
        modId := moveId fromModId intoModId v₀.modId
        releaseId := v₀.releaseId.map fun r => (t.foldedInto fromModId intoModId r).getD r } = v := by
  rw [folded, Table.get?_map, Option.map_eq_some_iff]

variable (left : List ℕ) {all : List ℕ}
  (hall : ∀ id r, t.releases.get? id = some r → r.modId = fromModId → id ∈ all)

include hall

omit left in
/-- A release that is not in the list is of another mod. -/
theorem Tables.foldedInto_of_notMem {id : ℕ} (hid : id ∉ all) :
    t.foldedInto fromModId intoModId id = none := by
  rcases hr : t.releases.get? id with _ | r
  · rw [foldedInto, hr, Option.bind_none]
  · exact foldedInto_eq_none hr fun hmod => hid (hall id r hr hmod)

/-- When all releases of the mod are folded, they are as they will be. -/
theorem Tables.releases_releasesFolded_all :
    (t.releasesFolded fromModId intoModId left all).releases =
      (t.folded fromModId intoModId).releases := by
  refine Table.ext_get? fun id => ?_
  ext r
  rw [get?_releases_releasesFolded, get?_releases_folded]
  refine exists_congr fun r₀ => and_congr_right fun hr₀ => and_congr ?_ ?_
  · exact ⟨fun h => by_contra fun hne => hne (foldedInto_of_notMem hall fun hid => hne (h hid)),
      fun h _ => h⟩
  · rw [ReleaseRow.movedIf]
    split_ifs with hid
    · rfl
    · rw [ReleaseRow.moved_eq_self fun hmod => hid (hall id r₀ hr₀ hmod)]

theorem Tables.versions_releasesFolded_all :
    ((t.releasesFolded fromModId intoModId all left).versions.map fun _ v =>
      v.moved fromModId intoModId) = (t.folded fromModId intoModId).versions := by
  refine Table.ext_get? fun id => ?_
  rw [Table.get?_map, versions_releasesFolded, folded, Table.get?_map, Table.get?_map,
    Option.map_map]
  congr 1
  funext v
  simp only [Function.comp_apply, VersionRow.moved]
  congr 2
  funext r
  split_ifs with hr
  · rfl
  · rw [foldedInto_of_notMem hall hr, Option.getD_none]

end Rest

/-! ## Relations and packages -/

section Keys

variable {fromModId intoModId : ℕ} {t : Tables} (hne : fromModId ≠ intoModId)

include hne

/-- The relations of one mod move to another without meeting each other. -/
theorem movesAway_relations (l : List RelationRow) (hkey : (l.map RelationRow.dedupeKey).Nodup) :
    MovesAway RelationRow.dedupeKey (fun r => r.fromModId = fromModId)
      (fun r => { r with fromModId := intoModId }) l where
  unpicked r _ _ := by simpa using hne.symm
  inj r hr r' hr' hp hp' he := by
    refine List.inj_on_of_nodup_map hkey hr hr' ?_
    simp only [RelationRow.dedupeKey, RelationRow.mk.injEq, true_and] at he ⊢
    exact ⟨(of_decide_eq_true hp).trans (of_decide_eq_true hp').symm, he⟩
  apart r hr r' hr' hp hp' he := by
    simp only [RelationRow.dedupeKey, RelationRow.mk.injEq] at he
    exact hne ((of_decide_eq_true hp').symm.trans he.1.symm)

theorem movesAway_packages (l : List (ℕ × String)) :
    MovesAway id (fun x => x.1 = fromModId) (fun x => (intoModId, x.2)) l where
  unpicked r _ _ := by simpa using hne.symm
  inj r hr r' hr' hp hp' he := by
    obtain ⟨-, hpkg⟩ := Prod.mk.inj he
    exact Prod.ext ((of_decide_eq_true hp).trans (of_decide_eq_true hp').symm) hpkg
  apart r hr r' hr' hp hp' he := by
    obtain ⟨hmod, -⟩ := Prod.mk.inj he
    exact hne ((of_decide_eq_true hp').symm.trans hmod.symm)

/-- The relations are those of other mods, and those that have moved. -/
theorem Tables.Integrity.mem_relations_folded (ht : t.Integrity) {r : RelationRow} :
    r ∈ (t.folded fromModId intoModId).relations ↔ (r ∈ t.relations ∧ r.fromModId ≠ fromModId) ∨
      ∃ r' ∈ t.relations, r'.fromModId = fromModId ∧
        { r' with fromModId := intoModId }.dedupeKey ∉ t.relations.map RelationRow.dedupeKey ∧
          { r' with fromModId := intoModId } = r := by
  rw [folded, mem_moveRows ht.relationKey.of_map (movesAway_relations hne _ ht.relationKey)]
  simp only [decide_eq_true_eq, ne_eq]

omit hne in
/-- No file is file zero, so a scope is told by its number. -/
theorem Tables.Integrity.scope_eq (ht : t.Integrity) {r r' : RelationRow} (hr : r ∈ t.relations)
    (hr' : r' ∈ t.relations) (h : r.fromVersionId.getD 0 = r'.fromVersionId.getD 0) :
    r.fromVersionId = r'.fromVersionId := by
  have hpos : ∀ q ∈ t.relations, q.fromVersionId ≠ some 0 := fun q hq h0 =>
    ht.versionZero (ht.relationVersion q hq 0 h0)
  have hr0 := hpos r hr
  have hr0' := hpos r' hr'
  rcases hs : r.fromVersionId with _ | v <;> rcases hs' : r'.fromVersionId with _ | v' <;>
    rw [hs] at h hr0 <;> rw [hs'] at h hr0'
  · exact absurd (congrArg some h.symm) hr0'
  · exact absurd (congrArg some h) hr0
  · exact congrArg some h

/-- A relation of the mod has moved, or it has a twin that was there. -/
theorem Tables.Integrity.twin_of_relation (ht : t.Integrity) {r : RelationRow}
    (hr : r ∈ t.relations) (hfrom : r.fromModId = fromModId) :
    { r with fromModId := intoModId } ∈ (t.folded fromModId intoModId).relations ∨
      ∃ r' ∈ t.relations, r' ∈ (t.folded fromModId intoModId).relations ∧
        r'.dedupeKey = { r with fromModId := intoModId }.dedupeKey := by
  by_cases hkey : { r with fromModId := intoModId }.dedupeKey ∈ t.relations.map RelationRow.dedupeKey
  · obtain ⟨r', hr', he⟩ := List.mem_map.1 hkey
    refine .inr ⟨r', hr', (ht.mem_relations_folded hne).2 (.inl ⟨hr', fun hfrom' => ?_⟩), he⟩
    simp only [RelationRow.dedupeKey, RelationRow.mk.injEq] at he
    exact hne (hfrom'.symm.trans he.1)
  · exact .inl ((ht.mem_relations_folded hne).2 (.inr ⟨r, hr, hfrom, hkey, rfl⟩))

theorem Tables.Integrity.mem_packages_folded (ht : t.Integrity) {x : ℕ × String} :
    x ∈ (t.folded fromModId intoModId).packages ↔ (x ∈ t.packages ∧ x.1 ≠ fromModId) ∨
      (x.1 = intoModId ∧ (fromModId, x.2) ∈ t.packages) := by
  rw [folded, mem_moveRows ht.packageKey (movesAway_packages hne _)]
  simp only [decide_eq_true_eq, List.map_id, id_eq]
  constructor
  · rintro (hx | ⟨⟨i, pkg⟩, hx', rfl, -, rfl⟩)
    · exact .inl hx
    · exact .inr ⟨rfl, hx'⟩
  · rintro (hx | ⟨hinto, hx⟩)
    · exact .inl hx
    · obtain ⟨i, pkg⟩ := x
      obtain rfl : i = intoModId := hinto
      -- Either the other mod had the package, or it has moved.
      by_cases hmem : (i, pkg) ∈ t.packages
      · exact .inl ⟨hmem, hne.symm⟩
      · exact .inr ⟨(fromModId, pkg), hx, rfl, hmem, rfl⟩

/-! ## The whole -/

/-- The constraints hold while the relations of a mod have moved. -/
theorem Tables.Integrity.moveRelations (ht : t.Integrity) (hinto : t.HasMod intoModId) :
    ({ t with relations := Registry.moveRelations fromModId intoModId t.relations }).Integrity := by
  have hmoves := movesAway_relations hne t.relations ht.relationKey
  refine ht.of_relations (fun r hr => ?_) (fun r hr => ?_)
    (nodup_updateOrIgnore ht.relationKey hmoves) <;>
    rcases mem_or_of_mem_updateOrIgnore ht.relationKey.of_map hmoves hr with hr | ⟨r', hr', rfl⟩
  · exact ht.relationMod r hr
  · exact hinto
  · exact ht.relationVersion r hr
  · exact (ht.relationVersion r' hr' :)

theorem Tables.Integrity.movePackages (ht : t.Integrity) (hinto : t.HasMod intoModId) :
    ({ t with packages := Registry.movePackages fromModId intoModId t.packages }).Integrity := by
  have hmoves := movesAway_packages hne t.packages
  have hkey : (t.packages.map id).Nodup := t.packages.map_id.symm ▸ ht.packageKey
  refine ht.of_packages (fun x hx => ?_) ?_
  · rcases mem_or_of_mem_updateOrIgnore ht.packageKey hmoves hx with hx | ⟨x', -, rfl⟩
    · exact ht.packageMod x hx
    · exact hinto
  · have hnodup := nodup_updateOrIgnore hkey hmoves
    rwa [List.map_id] at hnodup

/-- Folding a mod into another never fails, and it takes every row where it belongs. -/
theorem lands_foldMods (ht : t.Integrity) (hinto : t.HasMod intoModId) :
    Txn.Lands (fun t' => t' = t) (foldMods fromModId intoModId) fun _ t' =>
      t' = t.folded fromModId intoModId := by
  rw [foldMods, if_neg hne]
  refine Txn.Lands.read_bind fun t' _ he => ?_
  subst he
  have hfrom : ∀ x ∈ t'.releases.rows.filter (fun x => x.2.modId = fromModId),
      t'.releases.get? x.1 = some x.2 ∧ x.2.modId = fromModId := fun x hx =>
    ⟨Table.get?_eq_some.2 (List.mem_of_mem_filter hx), of_decide_eq_true (List.mem_filter.1 hx).2⟩
  have hids : ((t'.releases.rows.filter fun x => x.2.modId = fromModId).map Prod.fst).Nodup :=
    List.pairwise_map.2 ((t'.releases.increasing.filter _).imp fun hlt => hlt.ne)
  refine Txn.Lands.bind ((lands_foldReleases hne ht hinto hfrom hids [] nofun).of_pre
    fun t _ h => h.trans releasesFolded_nil.symm) fun _ => ?_
  -- The files, which are in the releases that are left, and the aliases.
  refine Txn.Lands.bind (Q := fun _ t => t = { t' with
    releases := (t'.folded fromModId intoModId).releases
    versions := (t'.folded fromModId intoModId).versions }) ?_ fun _ => ?_
  · refine lands_execute fun t₁ ht₁ ⟨all, hall, he⟩ => ⟨?_, ?_⟩
    · refine ht₁.of_versions (fun id hid => Table.isSome_get?_map.trans hid) (Table.All.map ?_)
        (Table.All.map fun id v hv => (ht₁.versionRelease.get hv :))
        (ht₁.versionSha1.map fun _ _ => rfl) (ht₁.versionZero ∘ Table.isSome_get?_map.symm.trans)
      have hinto₁ : t₁.HasMod intoModId := he ▸ hinto
      exact fun id v hv => hasMod_moveId hinto₁ (ht₁.versionMod.get hv)
    · have hcover : ∀ id r, t'.releases.get? id = some r → r.modId = fromModId → id ∈ all :=
        fun id r hr hmod => (hall id).2 (.inr (List.mem_map.2 ⟨(id, r), List.mem_filter.2
          ⟨Table.get?_eq_some.1 hr, decide_eq_true hmod⟩, rfl⟩))
      rw [← releases_releasesFolded_all all hcover, ← versions_releasesFolded_all all hcover, he]
      rfl
  refine Txn.Lands.bind (Q := fun _ t => t = { t' with
    releases := (t'.folded fromModId intoModId).releases
    versions := (t'.folded fromModId intoModId).versions
    aliases := (t'.folded fromModId intoModId).aliases }) ?_ fun _ => ?_
  · refine lands_execute fun t₁ ht₁ he => ⟨?_, he ▸ rfl⟩
    have hinto₁ : t₁.HasMod intoModId := he ▸ hinto
    refine ht₁.of_aliases (List.forall_mem_map.2 fun a ha =>
      hasMod_moveId hinto₁ (ht₁.aliasMod a ha)) ?_
    rw [List.map_map]
    exact ht₁.aliasKey
  -- The relations and the packages: those that cannot move are dropped.
  refine Txn.Lands.bind (Q := fun _ t => t = { t' with
    releases := (t'.folded fromModId intoModId).releases
    versions := (t'.folded fromModId intoModId).versions
    aliases := (t'.folded fromModId intoModId).aliases
    relations := moveRelations fromModId intoModId t'.relations }) ?_ fun _ => ?_
  · exact lands_execute fun t₁ ht₁ he => ⟨ht₁.moveRelations hne (he ▸ hinto), he ▸ rfl⟩
  refine Txn.Lands.bind (Q := fun _ t => t = { t' with
    releases := (t'.folded fromModId intoModId).releases
    versions := (t'.folded fromModId intoModId).versions
    aliases := (t'.folded fromModId intoModId).aliases
    relations := (t'.folded fromModId intoModId).relations }) ?_ fun _ => ?_
  · refine lands_execute fun t₁ ht₁ he => ⟨ht₁.of_relations (fun r hr => ?_) (fun r hr => ?_) ?_, ?_⟩
    · exact ht₁.relationMod r (List.mem_of_mem_filter hr)
    · exact ht₁.relationVersion r (List.mem_of_mem_filter hr)
    · exact ht₁.relationKey.sublist (List.filter_sublist.map _)
    · rw [he]
      simp [folded, moveRows, moveRelations]
  refine Txn.Lands.bind (Q := fun _ t => t = { t' with
    releases := (t'.folded fromModId intoModId).releases
    versions := (t'.folded fromModId intoModId).versions
    aliases := (t'.folded fromModId intoModId).aliases
    relations := (t'.folded fromModId intoModId).relations
    packages := movePackages fromModId intoModId t'.packages }) ?_ fun _ => ?_
  · exact lands_execute fun t₁ ht₁ he => ⟨ht₁.movePackages hne (he ▸ hinto), he ▸ rfl⟩
  refine Txn.Lands.bind (Q := fun _ t => t = { t'.folded fromModId intoModId with
    mods := t'.mods }) ?_ fun _ => ?_
  · refine lands_execute fun t₁ ht₁ he => ⟨ht₁.of_packages (fun x hx => ?_) ?_, ?_⟩
    · exact ht₁.packageMod x (List.mem_of_mem_filter hx)
    · exact ht₁.packageKey.filter _
    · rw [he]
      simp [folded, moveRows, movePackages]
  -- Nothing refers to the mod any more.
  refine lands_execute fun t₁ ht₁ he => ⟨?_, he ▸ rfl⟩
  subst he
  refine ht₁.deleteMod ?_ ?_ ?_ ?_ ?_
  · exact List.forall_mem_map.2 fun a _ => moveId_ne hne _
  · exact Table.All.map (p := fun r : ReleaseRow => r.modId ≠ fromModId)
      fun _ r _ => moveId_ne hne r.modId
  · exact Table.All.map (p := fun v : VersionRow => v.modId ≠ fromModId)
      fun _ v _ => moveId_ne hne v.modId
  · intro r hr
    simpa [folded, moveRows] using (List.mem_filter.1 hr).2
  · intro x hx
    simpa [folded, moveRows] using (List.mem_filter.1 hx).2

end Keys

end Registry

end Smrt
