import Smrt.Authoring.Harvest

/-!
# The parts of a harvest

What each part of a harvest leaves alone (`along_...`), and that it lands, provided the mod and the
file that it writes about are there (`keeps_...`).
-/

namespace Smrt

namespace Harvest

open Registry Registry.Tables

/-! ## What is left alone -/

/-- Everything but the relations. -/
def butRelations (t : Tables) : Tables := { t with relations := [] }

/-- Everything but the files and their releases. -/
def butFiles (t : Tables) : Tables :=
  { t with versions := .empty, releases := .empty, targets := [] }

/-- Everything but what the mixins need. -/
def butNeeds (t : Tables) : Tables := { t with needs := [] }

/-- Everything but the builds, and what a curator says about their mods. -/
def butPacks (t : Tables) : Tables :=
  { t with packs := [], builds := .empty, buildMods := [], relations := [] }

/-- Everything but the classes of the jars. -/
def butClasses (t : Tables) : Tables := { t with jarClasses := [] }

section Along

open Txn

variable {κ : Type} {φ : Tables → κ}

theorem along_execute {f : Tables → Tables} (h : ∀ t, φ (f t) = φ t) :
    Along (Same φ) (execute f) := Along.write fun t _ _ => h t

theorem along_queryRow {R : Tables → Tables → Prop} [Std.Refl R] {α : Type} (row : Option α) :
    Along R (queryRow row) := by
  cases row with
  | none => exact Along.fail
  | some a => exact Along.pure

/-- A relation that holds along every relation that is added. -/
def Relating (R : Tables → Tables → Prop) : Prop :=
  ∀ modId versionId e rank, Along R (upsertRelationRanked modId versionId e rank)

theorem relating_butRelations : Relating (Same butRelations) := by
  intro modId versionId e rank
  rw [upsertRelationRanked]
  exact along_execute fun _ => rfl

section Relating

variable {R : Tables → Tables → Prop} (h : Relating R)

include h

theorem along_upsertRelation (modId : ℕ) (versionId : Option ℕ) (e : Edge) :
    Along R (upsertRelation modId versionId e) :=
  h modId versionId e _

theorem along_writeRef (kind : RelKind) (modId versionId : ℕ) (target : String) :
    Along R (writeRef kind modId versionId target) := along_upsertRelation h _ _ _

theorem along_writeExternalDep (dep : ExternalDep) :
    Along R (writeExternalDep dep) :=
  Along.read_bind fun _ _ => along_upsertRelation h _ _ _

variable [Std.Refl R]

theorem along_writeBridge (modId versionId : ℕ) (jar : JarSeed) :
    Along R (writeBridge modId versionId jar) := by
  refine Along.read_bind fun t _ => ?_
  split
  · exact along_upsertRelation h _ _ _
  · exact Along.pure

theorem along_writeModrinthDep (modId versionId : ℕ) (pid : String) (dep : ModrinthDepSeed) :
    Along R (writeModrinthDep modId versionId pid dep) := by
  rw [writeModrinthDep]
  split
  · split_ifs
    · exact Along.pure
    · exact along_upsertRelation h _ _ _
  · exact Along.pure

theorem along_writeConflict (jars : List JarSeed) (aSha bSha : String) :
    Along R (writeConflict jars aSha bSha) := by
  refine Along.read_bind fun t _ => ?_
  split
  · exact along_upsertRelation h _ _ _
  · exact Along.pure

variable [IsTrans Tables R]

theorem along_writeDeclared (modId versionId : ℕ) (jar : JarSeed) :
    Along R (writeDeclared modId versionId jar) := by
  rw [writeDeclared]
  split_ifs
  · exact Along.pure
  · exact (Along.forM fun _ _ => h _ _ _ _).bind fun _ =>
      Along.forM fun _ _ => along_upsertRelation h _ _ _

theorem along_writeRuntimes (modId versionId : ℕ) (jar : JarSeed) :
    Along R (writeRuntimes modId versionId jar) :=
  (Along.forM fun _ _ => along_upsertRelation h _ _ _).bind fun _ =>
    Along.forM fun _ _ => along_upsertRelation h _ _ _

theorem along_writeModrinthDeps (modId versionId : ℕ) (jar : JarSeed) :
    Along R (writeModrinthDeps modId versionId jar) := by
  rw [writeModrinthDeps]
  split
  · exact Along.forM fun dep _ => along_writeModrinthDep h _ _ _ dep
  · exact Along.pure

theorem along_hardRef (modId versionId : ℕ) (seen : Seen) (pkg : String) :
    Along R (hardRef modId versionId seen pkg) := by
  refine Along.read_bind fun t _ => ?_
  split
  · exact Along.pure
  · split_ifs
    · exact Along.pure
    · exact (along_writeRef h _ _ _ _).bind fun _ => Along.pure
    · exact Along.pure
    · exact (along_writeRef h _ _ _ _).bind fun _ => Along.pure

theorem along_optionalRef (modId versionId : ℕ) (seen : Seen) (pkg : String) :
    Along R (optionalRef modId versionId seen pkg) := by
  refine Along.read_bind fun t _ => ?_
  split
  · exact Along.pure
  · split_ifs
    · exact Along.pure
    · exact (along_writeRef h _ _ _ _).bind fun _ => Along.pure

theorem along_derive (derivations : List Derivation) :
    Along R (derive derivations) :=
  (Along.foldlM fun _ _ _ => Along.foldlM fun pkg _ seen => along_hardRef h _ _ seen pkg).bind
    fun _ => (Along.foldlM fun _ _ _ => Along.foldlM fun pkg _ seen =>
      along_optionalRef h _ _ seen pkg).bind fun _ => Along.pure

end Relating

theorem along_upsertRelease (source : Registry.Source) (modId : ℕ) (versionNumber : String)
    (channel : Channel) : Along (Same butFiles) (upsertRelease source modId versionNumber channel) := by
  refine Along.read_bind fun t _ => ?_
  split
  · exact Along.pure
  · exact (along_execute (by intro _; rfl)).bind fun _ => Along.pure

theorem along_setModVersionTargets (versionId : ℕ) (targets : List String) (precious : Bool) :
    Along (Same butFiles) (setModVersionTargets versionId targets precious) := by
  rw [setModVersionTargets]
  split_ifs
  · exact Along.pure
  all_goals exact (along_execute (by intro _; rfl)).bind fun _ =>
    Along.forM fun _ _ => along_execute fun _ => rfl

theorem along_upsertModVersion (modId : ℕ) (version : String) (targets : List String)
    (sha1 : String) (filename : Option String) (mcVersions : List String) :
    Along (Same butFiles) (upsertModVersion modId version targets sha1 filename mcVersions) := by
  refine (along_execute (by intro _; rfl)).bind fun _ => Along.read_bind fun t _ =>
    (along_queryRow _).bind fun p => (along_setModVersionTargets _ _ _).bind fun _ => ?_
  split_ifs
  · exact Along.pure
  · exact (along_upsertRelease _ _ _ _).bind fun _ => (along_execute (by intro _; rfl)).bind fun _ =>
      Along.pure

theorem along_setHarvestedRelease (sha1 : String) (modId : ℕ) (version : String)
    (channel : Channel) : Along (Same butFiles) (setHarvestedRelease sha1 modId version channel) := by
  refine Along.read_bind fun t _ => ?_
  split
  · exact Along.pure
  · split_ifs
    · exact Along.pure
    · exact (along_upsertRelease _ _ _ _).bind fun _ => along_execute fun _ => rfl

theorem along_writeFile (modId : ℕ) (jar : JarSeed) :
    Along (Same butFiles) (writeFile modId jar) :=
  (along_upsertModVersion _ _ _ _ _ _).bind fun _ =>
    (along_setHarvestedRelease _ _ _ _).bind fun _ => Along.pure

theorem along_pruneEmptyReleases : Along (Same butFiles) pruneEmptyReleases := by
  rw [pruneEmptyReleases]
  exact along_execute fun _ => rfl

theorem along_writeJarClass (jar : JarSeed) : Along (Same butClasses) (writeJarClass jar) := by
  rw [writeJarClass]
  split
  · rw [setJarClass]
    refine along_execute fun t => ?_
    split_ifs <;> rfl
  · exact Along.pure

theorem along_linkMod (build : ℕ) (bm : BuildModSeed) :
    Along (Same butPacks) (linkMod build bm) := by
  refine Along.read_bind fun t _ => ?_
  split
  · rw [linkBuildMod]
    exact along_execute fun _ => rfl
  · exact Along.pure

theorem along_writePack (jars : List JarSeed) (pack : PackSeed) :
    Along (Same butPacks) (writePack jars pack) := by
  have hconflict : ∀ aSha bSha, Along (Same butPacks) (writeConflict jars aSha bSha) :=
    fun aSha bSha => (along_writeConflict relating_butRelations jars aSha bSha).same_of butPacks
  have hpack : Along (Same butPacks) (upsertPack pack.packId) := by
    rw [upsertPack]
    exact along_execute fun _ => rfl
  have hbuild : Along (Same butPacks) (upsertPackBuild pack.packId pack.packVersion true) :=
    (along_execute (by intro _; rfl)).bind fun _ => Along.read_bind fun _ _ => along_queryRow _
  refine hpack.bind fun _ => hbuild.bind fun build => ?_
  exact (Along.forM fun bm _ => along_linkMod build bm).bind fun _ =>
    Along.forM fun p _ => (hconflict _ _).bind fun _ => hconflict _ _

theorem along_writeNeeds (versionId : ℕ) (jar : JarSeed) :
    Along (Same butNeeds) (writeNeeds versionId jar) := by
  rw [writeNeeds]
  split_ifs
  · exact Along.pure
  · exact (along_execute (by intro _; rfl)).bind fun _ => Along.forM fun _ _ => along_execute fun _ => rfl

end Along

/-! ## What lands -/

section Keeps

variable {mods versions : List ℕ} {modId versionId : ℕ}

theorem keeps_read_bind {α : Type} {f : Tables → Conn α} (h : ∀ t, Registry.Keeps mods versions (f t)) :
    Registry.Keeps mods versions (Txn.read >>= f) :=
  Txn.Lands.read_bind fun t _ hhas => (h t).of_pre fun _ _ he => he ▸ hhas

theorem keeps_upsertRelation (hmod : modId ∈ mods) {fromVersionId : Option ℕ}
    (hversion : ∀ v ∈ fromVersionId, v ∈ versions) (e : Edge) :
    Registry.Keeps mods versions (upsertRelation modId fromVersionId e) :=
  keeps_upsertRelationRanked hmod hversion e _

/-- The relations of a kind of source can be dropped. -/
theorem keeps_filterRelations (p : RelationRow → Bool) :
    Registry.Keeps mods versions (execute fun t => { t with relations := t.relations.filter p }) := by
  refine keeps_execute fun t ht hhas => ⟨ht.of_relations (fun r hr => ?_) (fun r hr => ?_) ?_, hhas⟩
  · exact ht.relationMod r (List.mem_of_mem_filter hr)
  · exact ht.relationVersion r (List.mem_of_mem_filter hr)
  · exact ht.relationKey.sublist (List.filter_sublist.map _)

theorem keeps_writeNeeds (hversion : versionId ∈ versions) (jar : JarSeed) :
    Registry.Keeps mods versions (writeNeeds versionId jar) := by
  rw [writeNeeds]
  split_ifs
  · exact keeps_pure ()
  · exact keeps_setMixinNeeds hversion _

section Facts

variable (hmod : modId ∈ mods) (hversion : versionId ∈ versions)

include hmod hversion

theorem keeps_edge (e : Edge) : Registry.Keeps mods versions (upsertRelation modId (some versionId) e) :=
  keeps_upsertRelation hmod (fun _ hv => Option.some.inj hv ▸ hversion) e

theorem keeps_writeDeclared (jar : JarSeed) :
    Registry.Keeps mods versions (writeDeclared modId versionId jar) := by
  rw [writeDeclared]
  split_ifs
  · exact keeps_pure ()
  · refine Keeps.bind (keeps_forM fun dep _ => ?_) fun _ =>
      keeps_forM fun dep _ => keeps_edge hmod hversion _
    exact keeps_upsertRelationRanked hmod (fun _ hv => Option.some.inj hv ▸ hversion) _ _

theorem keeps_writeBridge (jar : JarSeed) :
    Registry.Keeps mods versions (writeBridge modId versionId jar) := by
  refine keeps_read_bind fun t => ?_
  split
  · exact keeps_edge hmod hversion _
  · exact keeps_pure ()

theorem keeps_writeRuntimes (jar : JarSeed) :
    Registry.Keeps mods versions (writeRuntimes modId versionId jar) :=
  Keeps.bind (keeps_forM fun _ _ => keeps_edge hmod hversion _) fun _ =>
    keeps_forM fun _ _ => keeps_edge hmod hversion _

theorem keeps_writeModrinthDep (pid : String) (dep : ModrinthDepSeed) :
    Registry.Keeps mods versions (writeModrinthDep modId versionId pid dep) := by
  rw [writeModrinthDep]
  split
  · split_ifs
    · exact keeps_pure ()
    · exact keeps_edge hmod hversion _
  · exact keeps_pure ()

theorem keeps_writeModrinthDeps (jar : JarSeed) :
    Registry.Keeps mods versions (writeModrinthDeps modId versionId jar) := by
  rw [writeModrinthDeps]
  split
  · exact keeps_forM fun dep _ => keeps_writeModrinthDep hmod hversion _ dep
  · exact keeps_pure ()

theorem keeps_writeExternalDep {dep : ExternalDep} (hdep : dep.modId = modId)
    (hdepVersion : dep.versionId = versionId) : Registry.Keeps mods versions (writeExternalDep dep) := by
  subst hdep hdepVersion
  exact keeps_read_bind fun t => keeps_edge hmod hversion _

end Facts

/-- The file of a jar is there afterwards. -/
theorem lands_writeFile (hmod : modId ∈ mods) (jar : JarSeed) :
    Txn.Lands (fun t => t.Has mods versions) (writeFile modId jar) fun id t =>
      t.Has mods (id :: versions) :=
  Txn.Lands.bind (lands_upsertModVersion hmod _ _ _ _ _) fun _ =>
    Txn.Lands.bind (keeps_setHarvestedRelease hmod _ _ _) fun _ => Txn.Lands.pure fun _ _ h => h

theorem keeps_writeJarClass (jar : JarSeed) : Registry.Keeps mods versions (writeJarClass jar) := by
  rw [writeJarClass]
  split
  · rw [setJarClass]
    refine keeps_execute fun t ht hhas => ?_
    split_ifs
    · exact ⟨ht, hhas⟩
    · exact ⟨ht.of_jarClasses (nodup_putJarClass ht.jarClassSha1), hhas⟩
  · exact keeps_pure ()

/-- What a curator says of a mod can be written: the file is there, and so is its mod. -/
theorem lands_writeConflict {P : Tables → Prop} (hP : ∀ t relations, P t → P { t with relations })
    (jars : List JarSeed) (aSha bSha : String) :
    Txn.Lands P (writeConflict jars aSha bSha) fun _ => P := by
  refine Txn.Lands.read_bind fun t ht hp => ?_
  rcases hmod : t.modIdForSha1 aSha with _ | modId
  · exact Txn.Lands.pure fun _ _ he => he ▸ hp
  rcases modidBySha jars bSha with _ | modid
  · exact Txn.Lands.pure fun _ _ he => he ▸ hp
  obtain ⟨⟨versionId, v⟩, hv, rfl⟩ := Option.map_eq_some_iff.1 hmod
  obtain ⟨hget, -⟩ := Table.get?_of_find? hv
  dsimp only
  rw [upsertRelation, upsertRelationRanked]
  refine lands_execute fun t' _ he => ?_
  subst he
  exact ⟨ht.insertOrIgnore (ht.versionMod.get hget) nofun, hP _ _ hp⟩

theorem lands_linkMod {build : ℕ} (bm : BuildModSeed) :
    Txn.Lands (fun t => t.Has mods versions ∧ t.HasBuild build) (linkMod build bm) fun _ t =>
      t.Has mods versions ∧ t.HasBuild build := by
  refine Txn.Lands.read_bind fun t ht hp => ?_
  rcases hfor : t.modVersionIdForSha1 bm.sha1 with _ | versionId
  · exact Txn.Lands.pure fun _ _ he => he ▸ hp
  obtain ⟨⟨id, v⟩, hv, rfl⟩ := Option.map_eq_some_iff.1 hfor
  obtain ⟨hget, -⟩ := Table.get?_of_find? hv
  dsimp only
  rw [linkBuildMod]
  refine lands_execute fun t' _ he => ?_
  subst he
  exact ⟨ht.putBuildMod hp.2 (Option.isSome_iff_exists.2 ⟨v, hget⟩), hp⟩

theorem keeps_writePack (jars : List JarSeed) (pack : PackSeed) :
    Registry.Keeps mods versions (writePack jars pack) := by
  refine Txn.Lands.bind (lands_upsertPack pack.packId) fun _ => ?_
  refine Txn.Lands.bind (lands_upsertPackBuild pack.packVersion true (fun _ h => h.2)
    fun _ h => h) fun build => ?_
  refine Txn.Lands.bind (Q := fun _ t => t.Has mods versions ∧ t.HasBuild build)
    ((Txn.Lands.forM fun bm _ => lands_linkMod bm).of_pre fun t _ h => ⟨h.1.1, h.2⟩) fun _ => ?_
  refine (Txn.Lands.forM fun p _ => Txn.Lands.bind (lands_writeConflict ?_ jars p.1 p.2) fun _ =>
    lands_writeConflict ?_ jars p.2 p.1).of_post fun _ t _ h => h.1
  all_goals exact fun _ _ h => h

end Keeps

end Harvest

end Smrt
