import Smrt.Authoring.HarvestParts
import Smrt.Lib.System
import Smrt.Registry.Authored

/-!
# The runs of the registry

The registry starts empty and is written by harvests and by what an operator decides, one after the
other. A write that fails changes nothing.

A decision is about relations, classes, files or mods, and leaves the rest alone (`along_...`).
-/

namespace Smrt

namespace Harvest

open Registry Registry.Tables Txn

/-- What an operator decides. -/
inductive Decision
  | conflict (aModid bModid : String) (remove : Bool)
  | relation (fromModId : ℕ) (target : String) (kind : RelKind) (severity : Option Severity)
      (remove : Bool)
  | jarClass (sha1 kind : String) (side matchPolicy : Option String) (remove : Bool)
  | fileIdentity (id : FileIdentity)
  | rename (modId : ℕ) (name slug : Option String)
  | release (releaseId : ℕ) (versionNumber : Option String) (channel : Option Channel)
  | merge (fromModId intoModId : ℕ)

def Decision.write : Decision → Conn Unit
  | .conflict aModid bModid remove => setConflict aModid bModid remove
  | .relation fromModId target kind severity remove =>
    authorRelation fromModId target kind severity remove
  | .jarClass sha1 kind side matchPolicy remove =>
    setAuthoredJarClass sha1 kind side matchPolicy remove
  | .fileIdentity id => do
    let _ ← authorFileIdentity id
    pure ()
  | .rename modId name slug => renameMod modId name slug
  | .release releaseId versionNumber channel => editRelease releaseId versionNumber channel
  | .merge fromModId intoModId => mergeMods fromModId intoModId

/-! ## What the decisions leave alone -/

theorem along_setConflict (aModid bModid : String) (remove : Bool) :
    Along (Same butRelations) (setConflict aModid bModid remove) := by
  have hadd : ∀ id target kind severity,
      Along (Same butRelations) (addAuthoredRelation id target kind severity) :=
    fun _ _ _ _ => along_upsertRelation relating_butRelations _ _ _
  have hremove : ∀ id target kind,
      Along (Same butRelations) (removeAuthoredRelation id target kind) := by
    intro id target kind
    rw [removeAuthoredRelation]
    exact along_execute fun _ => rfl
  have hknown : ∀ modid, Along (Same butRelations) (knownModid modid) := by
    intro modid
    refine Along.read_bind fun t _ => ?_
    split
    · exact Along.pure
    · exact Along.fail
  refine (hknown _).bind fun a => (hknown _).bind fun b => ?_
  rw [setAuthoredConflict]
  split_ifs
  · exact (hremove _ _ _).bind fun _ => hremove _ _ _
  · exact (hadd _ _ _ _).bind fun _ => hadd _ _ _ _

theorem along_authorRelation (fromModId : ℕ) (target : String) (kind : RelKind)
    (severity : Option Severity) (remove : Bool) :
    Along (Same butRelations) (authorRelation fromModId target kind severity remove) := by
  rw [authorRelation]
  split_ifs
  · rw [removeAuthoredRelation]
    exact along_execute fun _ => rfl
  · exact along_upsertRelation relating_butRelations _ _ _

theorem along_setAuthoredJarClass (sha1 kind : String) (side matchPolicy : Option String)
    (remove : Bool) :
    Along (Same butClasses) (setAuthoredJarClass sha1 kind side matchPolicy remove) := by
  rw [setAuthoredJarClass]
  split
  · exact along_execute fun _ => rfl
  iterate 4
    split
    · exact Along.fail
  refine Along.read_bind fun t _ => ?_
  split
  · exact Along.fail
  · exact along_execute fun _ => rfl

theorem along_authorFileIdentity (id : FileIdentity) :
    Along (Same Tables.aliases) (authorFileIdentity id) := by
  have hmod : Along (Same Tables.aliases) (resolveModRef id.modRef) := by
    rw [resolveModRef.eq_def]
    split
    · refine Along.read_bind fun t _ => ?_
      split_ifs
      · exact Along.pure
      · exact Along.fail
    · split_ifs
      · exact Along.fail
      · exact Along.read_bind fun t _ => (along_execute (by intro _; rfl)).bind fun _ => Along.pure
  rw [authorFileIdentity]
  split_ifs
  · exact Along.fail
  · refine hmod.bind fun modId => ?_
    refine ((along_upsertRelease _ _ _ _).same_of Tables.aliases).bind fun releaseId => ?_
    refine (along_execute (by intro _; rfl)).bind fun _ => Along.read_bind fun t _ => (along_queryRow _).bind fun p => ?_
    exact ((along_setModVersionTargets _ _ _).same_of Tables.aliases).bind fun _ => Along.pure

theorem along_renameMod (modId : ℕ) (name slug : Option String) :
    Along (Same Tables.aliases) (renameMod modId name slug) := by
  rw [renameMod]
  split_ifs
  · exact Along.pure
  · refine Along.read_bind fun t _ => (along_execute (by intro _; rfl)).bind fun _ => ?_
    split_ifs
    · exact Along.pure
    · exact Along.fail

theorem along_editRelease (releaseId : ℕ) (versionNumber : Option String)
    (channel : Option Channel) :
    Along (Same butFiles) (editRelease releaseId versionNumber channel) := by
  rw [editRelease]
  split_ifs
  · exact Along.pure
  · refine Along.read_bind fun t _ => (along_execute (by intro _; rfl)).bind fun _ => ?_
    split_ifs
    · exact Along.pure
    · exact Along.fail

/-- A merge that lands is one of two mods that are there. -/
theorem along_mergeMods {R : Tables → Tables → Prop} {fromModId intoModId : ℕ}
    (h : ∀ t : Tables, t.Integrity → fromModId ≠ intoModId → t.HasMod fromModId →
      t.HasMod intoModId → R t { t.folded fromModId intoModId with
        mods := (t.folded fromModId intoModId).mods.modify intoModId fun m =>
          { m with source := .authored } }) : Along R (mergeMods fromModId intoModId) := by
  have hthere : Along (fun t _ => fromModId ≠ intoModId ∧ t.HasMod fromModId ∧ t.HasMod intoModId)
      (mergeMods fromModId intoModId) := by
    rw [mergeMods]
    split_ifs with hne
    · exact Along.fail
    · refine Along.of_read fun t _ => ?_
      by_cases hfrom : t.HasMod fromModId
      · by_cases hinto : t.HasMod intoModId
        · exact fun _ _ _ _ _ => ⟨hne, hfrom, hinto⟩
        · rw [if_neg (not_not_intro hfrom), if_pos hinto]
          exact Ensures.fail
      · rw [if_pos hfrom]
        exact Ensures.fail
  intro s a s' hm
  obtain ⟨hne, hfrom, hinto⟩ := hthere s a s' hm
  have hs' := (lands_mergeMods s.2 hne hfrom hinto).ensures s rfl a s' hm
  exact hs' ▸ h s.1 s.2 hne hfrom hinto

/-! ## Runs -/

/-- What is written to the registry. -/
inductive Write
  | harvest (plan : Plan) (scan : ScanData)
  | decide (d : Decision)

def Write.run : Write → Conn Unit
  | .harvest plan scan => writeScan plan scan
  | .decide d => d.write

/-- The registry, which is empty at first. -/
def registry : System (Stored Integrity) Write where
  init s := s.1 = Tables.empty
  step s w := match w.run s with
    | .ok (_, s') => some s'
    | .error _ => none

/-- A write that lands is a step. -/
theorem registry_step {s s' : Stored Integrity} {w : Write} (h : registry.step s w = some s') :
    w.run s = .ok ((), s') := by
  rw [registry] at h
  dsimp only at h
  split at h
  · next hrun => exact Option.some.inj h ▸ hrun
  · cases h

/-- The registry before anything is written to it. -/
def fresh : Stored Integrity := ⟨Tables.empty, by decide⟩

theorem reachable_fresh {ok : Stored Integrity → Write → Prop} : registry.Reach ok fresh := .init rfl

/-- A write that lands on the empty registry, and leaves it so. -/
theorem exists_reach (ok : Stored Integrity → Write → Prop) {w : Write} {p : Tables → Bool}
    (hok : ok fresh w) (h : (registry.step fresh w).any (fun s => p s.1) = true) :
    ∃ s, registry.Reach ok s ∧ p s.1 = true := by
  obtain ⟨s, hstep, hp⟩ := (Option.any_eq_true _ _).1 h
  exact ⟨s, .step reachable_fresh hok hstep, hp⟩

/-- The order of the tables. -/
def inOrder : Plan := ⟨id, fun _ => .refl _⟩

/-- A jar of which nothing is known but its hash. -/
def JarSeed.ofSha1 (sha1 : String) : JarSeed where
  sha1
  modid := none
  extraModids := []
  version := none
  projectId := none
  loaders := []
  mcVersions := []
  requires := []
  filename := none
  name := none
  slug := none
  channel := none
  ownedPackages := []
  classNames := []
  mixinNeeds := []
  hardRefs := []
  optionalRefs := []
  side := none
  sideConfidence := none
  matchPolicy := none
  kind := none
  modrinthDeps := []
  declaredDeps := []
  needsRuntime := []
  providesRuntime := []

/-- A scan that found some jars, and no packs. -/
def ScanData.ofJars (jars : List JarSeed) : ScanData where
  jars
  packs := []
  depProjectSlugs := []
  modrinthLegOk := true

end Harvest

end Smrt
