import Mathlib.Data.Finset.SDiff
import Mathlib.Data.List.Perm.Basic
import Smrt.Authoring.Bytecode
import Smrt.Domain.Manifest

/-!
# What a jar is, and for which side

The classes of a jar also tell whether it is a mod, on which side it runs, and whether both sides
must carry it (`classify`): an explicit mark decides before what the classes do, and what nothing
decides stays open. With what they say of packages and languages this is all that is read off them
(`aggregate`).

* `mem_hardRefs_iff`, `mem_optionalRefs_iff`: what the jar refers to, and does not define or bring
  along, by whether a class that is always loaded refers to it;
* `classify_coherent`: what is no mod has no side, and there is no side without a confidence;
* `aggregate_partition`: the two together, in whatever order the classes are read.
-/

namespace Smrt

namespace JarSides

open Bytecode

/-! ## Classes and signals -/

/-- The side that a class is annotated for. -/
inductive Dist
  | client
  | server
  deriving DecidableEq

/-- A class with what tells the side of its jar. -/
structure AnnotatedClass extends ClassInfo where
  superName : Option String
  interfaces : List String
  /-- Whether it is annotated as a mod, and then for the client and for the server only. -/
  modSides : Option (Bool × Bool)
  acceptableRemoteVersions : Option String
  dist : Option Dist
  sidedProxy : Bool
  loadingPlugin : Bool

/-- What is collected of a jar beside its classes. -/
structure Signals extends JarSignals where
  manifestCoremod : Bool
  manifestTweaker : Bool
  mixinConfigs : ℕ
  fabricEnv : Option SideClass
  fabricClientEntrypoint : Bool
  fabricMainEntrypoint : Bool
  metaIdentity : Bool
  displayTestTolerant : Bool

inductive JarKind
  | mod
  | coremod
  | library
  deriving DecidableEq

inductive SideConfidence
  | high
  | low
  deriving DecidableEq

/-- The counts behind a verdict. -/
structure Evidence where
  classes : ℕ
  contentClasses : ℕ
  clientClasses : ℕ
  distClientClasses : ℕ
  distServerClasses : ℕ
  modAnnotations : ℕ
  arvStar : ℕ
  sidedProxy : Bool
  loadingPluginClasses : ℕ
  mcTouching : ℕ
  deriving DecidableEq

def contentSuperPrefixes : List String :=
  ["net/minecraft/block/", "net/minecraft/item/", "net/minecraft/entity/",
    "net/minecraft/tileentity/", "net/minecraft/potion/", "net/minecraft/enchantment/",
    "net/minecraft/world/gen/", "net/minecraft/world/level/block/", "net/minecraft/world/item/",
    "net/minecraft/world/entity/", "net/minecraft/world/level/levelgen/"]

def registryRefs : List String :=
  ["net/minecraftforge/fml/common/registry/GameRegistry",
    "cpw/mods/fml/common/registry/GameRegistry", "net/minecraftforge/event/RegistryEvent",
    "net/minecraftforge/event/RegistryEvent$Register",
    "net/minecraftforge/registries/DeferredRegister",
    "net/neoforged/neoforge/registries/DeferredRegister"]

/-- A name that begins so. -/
def startsWith (name start : String) : Bool := start.toList <+: name.toList

def isContentType (name : String) : Bool := contentSuperPrefixes.any (startsWith name)

/-- A class that registers content. -/
def isContentClass (c : AnnotatedClass) : Bool :=
  c.superName.any isContentType ||
    c.interfaces.any (fun i =>
      i = "net/minecraftforge/fml/common/IWorldGenerator" || isContentType i) ||
    c.referenced.any fun r => r ∈ registryRefs

/-- A class that refers to the client, or is only there on it. -/
def isClientClass (c : AnnotatedClass) : Bool :=
  c.referenced.any (fun r => startsWith r "net/minecraft/client/") || c.dist = some .client

/-- A class that refers to Minecraft at all. -/
def touchesMc (c : AnnotatedClass) : Bool :=
  c.referenced.any (fun r => startsWith r "net/minecraft/") ||
    c.superName.any fun s => startsWith s "net/minecraft/"

section Classify

variable (classes : List AnnotatedClass) (signals : Signals)

def mcTouching : ℕ := classes.countP touchesMc

def evidence : Evidence where
  classes := classes.length
  contentClasses := classes.countP fun c => c.dist ≠ some .client && isContentClass c
  clientClasses := classes.countP isClientClass
  distClientClasses := classes.countP fun c => c.dist = some .client
  distServerClasses := classes.countP fun c => c.dist = some .server
  modAnnotations := classes.countP fun c => c.modSides.isSome
  arvStar := classes.countP fun c => c.acceptableRemoteVersions = some "*"
  sidedProxy := classes.any fun c => c.sidedProxy
  loadingPluginClasses := classes.countP fun c => c.loadingPlugin
  mcTouching := mcTouching classes

/-- Whether a mod of the jar is for the client only. -/
def annClient : Bool := classes.any fun c => c.modSides.any Prod.fst

/-- Whether a mod of the jar is for the server only. -/
def annServer : Bool := classes.any fun c => c.modSides.any Prod.snd

/-! ## The verdict -/

/-- What is found of a jar; an axis that nothing decides is `none`. -/
structure Verdict where
  side : Option SideClass
  sideConfidence : Option SideConfidence
  matchPolicy : Option MatchPolicy
  kind : JarKind
  evidence : Evidence
  deriving DecidableEq

/-- What a jar is: a mod if it says so, and a coremod if it has the marks of one. -/
def jarKind (ev : Evidence) : JarKind :=
  if 0 < ev.modAnnotations ∨ signals.metaIdentity then .mod
  else if signals.manifestCoremod ∨ signals.manifestTweaker ∨ 0 < signals.mixinConfigs ∨
      0 < ev.loadingPluginClasses then .coremod
  else .library

/-- Every mod of the jar tolerates a server without it. -/
def tolerantMarker (ev : Evidence) : Bool :=
  (0 < ev.modAnnotations && ev.arvStar = ev.modAnnotations) || signals.displayTestTolerant

/-- The verdict on a jar, from the counts and from the sides that its mods are for. -/
def verdict (ev : Evidence) (annClient annServer : Bool) : Verdict :=
  let kind := jarKind signals ev
  let decided := fun side conf policy => (⟨some side, some conf, some policy, kind, ev⟩ : Verdict)
  if kind ≠ .mod then ⟨none, none, none, kind, ev⟩
  -- The mods of the jar say it, or the metadata.
  else if annClient ∧ ¬ annServer then decided .client .high .tolerant
  else if annServer ∧ ¬ annClient then decided .server .high .tolerant
  else if signals.fabricEnv = some .client then decided .client .high .tolerant
  else if signals.fabricEnv = some .server then decided .server .high .tolerant
  -- Content is on both sides.
  else if 0 < ev.contentClasses then
    decided .both .high (if tolerantMarker signals ev then .tolerant else .mustMatch)
  else if tolerantMarker signals ev then decided .both .high .tolerant
  -- Nothing but the client is touched.
  else if signals.fabricClientEntrypoint ∧ ¬ signals.fabricMainEntrypoint then
    decided .client .high .tolerant
  else if 0 < ev.clientClasses ∧ ev.distServerClasses = 0 ∧
      ev.mcTouching ≤ ev.clientClasses * 2 then
    decided .client .low .tolerant
  else if (annClient ∧ annServer) ∨ signals.fabricEnv = some .both then
    ⟨some .both, some .high, none, kind, ev⟩
  else ⟨none, none, none, kind, ev⟩

def classify : Verdict :=
  verdict signals (evidence classes) (annClient classes) (annServer classes)

/-- All that is read off the classes of a jar. -/
structure JarFacts extends JarBytecode where
  verdict : Verdict

/-- What the classes of a jar say, given what was collected beside them. -/
def aggregate : JarFacts where
  toJarBytecode := Bytecode.aggregate (classes.map AnnotatedClass.toClassInfo) signals.toJarSignals
  verdict := classify classes signals

end Classify

/-! ## Packages -/

section Packages

variable {classes : List ClassInfo} {signals : JarSignals} {p : String}

/-- The packages that a jar defines. -/
def defined (classes : List ClassInfo) : Finset String :=
  (classes.filterMap fun c => modPrefix c.thisClass).toFinset

/-- The interfaces of other mods that a jar brings along. -/
def bundledApis (classes : List ClassInfo) : Finset String :=
  (defined classes).filter (isBundledApi (defined classes))

/-- A class that is not always loaded: it says so, or it is in a package for plugins and such
    classes are the minority of the jar. -/
def Conditional (classes : List ClassInfo) (c : ClassInfo) : Prop :=
  c.conditional = true ∨
    (classes.countP (fun d => isIntegrationClass d.thisClass) * 2 < classes.length ∧
      isIntegrationClass c.thisClass = true)

/-- A class refers to a package that is not the platform's. -/
def RefersTo (p : String) (c : ClassInfo) : Prop := ∃ r ∈ c.referenced, modPrefix r = some p

theorem owned_aggregate :
    (Bytecode.aggregate classes signals).owned = defined classes \ bundledApis classes := rfl

/-- A class counts as conditional where the jar's classes are read. -/
theorem conditional_iff {c : ClassInfo} :
    (c.conditional || (decide ((classes.filter fun d => isIntegrationClass d.thisClass).length * 2 <
        classes.length) && isIntegrationClass c.thisClass)) = true ↔ Conditional classes c := by
  rw [Conditional, ← List.countP_eq_length_filter, Bool.or_eq_true, Bool.and_eq_true,
    decide_eq_true_iff]

/-- What the jar refers to at least once from a class that is always loaded. -/
theorem mem_hardRefs_iff : p ∈ (Bytecode.aggregate classes signals).hardRefs ↔
    (∃ c ∈ classes, ¬ Conditional classes c ∧ RefersTo p c) ∧
      p ∉ (Bytecode.aggregate classes signals).owned ∧ p ∉ bundledApis classes := by
  rw [owned_aggregate, ← and_assoc]
  show p ∈ (_ \ _) \ _ ↔ _
  rw [Finset.mem_sdiff, Finset.mem_sdiff]
  refine and_congr_left' (and_congr_left' ?_)
  rw [List.mem_toFinset, List.mem_flatMap]
  refine exists_congr fun c => ?_
  rw [List.mem_filter, List.mem_filterMap, and_assoc, Bool.not_eq_true', ← Bool.not_eq_true,
    conditional_iff, RefersTo]

/-- What it refers to otherwise. -/
theorem mem_optionalRefs_iff : p ∈ (Bytecode.aggregate classes signals).optionalRefs ↔
    ((∃ c ∈ classes, RefersTo p c) ∧ ¬ ∃ c ∈ classes, ¬ Conditional classes c ∧ RefersTo p c) ∧
      p ∉ (Bytecode.aggregate classes signals).owned ∧ p ∉ bundledApis classes := by
  rw [owned_aggregate, ← and_assoc]
  show p ∈ ((_ \ _) \ _) \ _ ↔ _
  rw [Finset.mem_sdiff, Finset.mem_sdiff, Finset.mem_sdiff]
  refine and_congr_left' (and_congr_left' (and_congr ?_ (not_congr ?_)))
  · rw [List.mem_toFinset, List.mem_flatMap]
    simp only [List.mem_filterMap, RefersTo]
  · rw [List.mem_toFinset, List.mem_flatMap]
    refine exists_congr fun c => ?_
    rw [List.mem_filter, List.mem_filterMap, and_assoc, Bool.not_eq_true', ← Bool.not_eq_true,
      conditional_iff, RefersTo]

/-- The order of the classes tells nothing but which one names the mod. -/
theorem aggregate_perm {classes' : List ClassInfo} (h : classes.Perm classes') :
    { Bytecode.aggregate classes' signals with
      modId := (Bytecode.aggregate classes signals).modId } =
        Bytecode.aggregate classes signals := by
  have hdefined : defined classes' = defined classes :=
    List.toFinset_eq_of_perm _ _ (h.symm.filterMap _)
  have hbundled : bundledApis classes' = bundledApis classes := by
    rw [bundledApis, hdefined, bundledApis]
  have howned : (Bytecode.aggregate classes' signals).owned =
      (Bytecode.aggregate classes signals).owned := by
    rw [owned_aggregate, hdefined, hbundled, owned_aggregate]
  have hconditional : ∀ c, Conditional classes' c ↔ Conditional classes c := fun c => by
    rw [Conditional, h.symm.countP_eq, h.length_eq.symm, Conditional]
  have hhard : (Bytecode.aggregate classes' signals).hardRefs =
      (Bytecode.aggregate classes signals).hardRefs := by
    ext p
    simp only [mem_hardRefs_iff, howned, hbundled, hconditional, h.mem_iff]
  have hoptional : (Bytecode.aggregate classes' signals).optionalRefs =
      (Bytecode.aggregate classes signals).optionalRefs := by
    ext p
    simp only [mem_optionalRefs_iff, howned, hbundled, hconditional, h.mem_iff]
  have hneeds : (Bytecode.aggregate classes' signals).needsRuntime =
      (Bytecode.aggregate classes signals).needsRuntime := by
    ext lang
    simp only [mem_needsRuntime_iff, h.mem_iff]
  refine JarBytecode.mk.injEq .. ▸ ⟨howned, hhard, hoptional, hneeds, rfl, rfl⟩

end Packages

/-! ## Verdicts -/

section Verdicts

variable {classes : List AnnotatedClass} {signals : Signals}

/-- What a verdict keeps to: what is no mod has no side, there is a side exactly with a confidence,
    and only what is on both sides must match. -/
structure Coherent (v : Verdict) : Prop where
  nonMod : v.kind ≠ .mod → v.side = none ∧ v.sideConfidence = none ∧ v.matchPolicy = none
  confidence : v.side.isSome = v.sideConfidence.isSome
  mustMatch : v.matchPolicy = some .mustMatch → v.side = some .both

theorem verdict_coherent (ev : Evidence) (annClient annServer : Bool) :
    Coherent (verdict signals ev annClient annServer) := by
  rw [verdict]
  by_cases hkind : jarKind signals ev ≠ .mod
  · rw [if_pos hkind]
    exact ⟨fun _ => ⟨rfl, rfl, rfl⟩, rfl, nofun⟩
  -- Each of the returns of a mod names the three, or a side without a policy, or nothing.
  have hdecided : ∀ side conf policy, (policy = .mustMatch → side = .both) →
      Coherent ⟨some side, some conf, some policy, jarKind signals ev, ev⟩ :=
    fun side conf policy hpolicy =>
      ⟨fun hk => absurd hk hkind, rfl, fun hm => congrArg some (hpolicy (Option.some.inj hm))⟩
  rw [if_neg hkind]
  split_ifs
  · exact hdecided _ _ _ nofun
  · exact hdecided _ _ _ nofun
  · exact hdecided _ _ _ nofun
  · exact hdecided _ _ _ nofun
  · exact hdecided _ _ _ fun _ => rfl
  · exact hdecided _ _ _ fun _ => rfl
  · exact hdecided _ _ _ fun _ => rfl
  · exact hdecided _ _ _ nofun
  · exact hdecided _ _ _ nofun
  · exact ⟨fun hk => absurd hk hkind, rfl, nofun⟩
  · exact ⟨fun hk => absurd hk hkind, rfl, nofun⟩

theorem classify_coherent : Coherent (classify classes signals) := verdict_coherent _ _ _

/-- The counts do not depend on the order of the classes. -/
theorem classify_perm {classes' : List AnnotatedClass} (h : classes.Perm classes') :
    classify classes' signals = classify classes signals := by
  have hev : evidence classes' = evidence classes := by
    simp only [evidence, mcTouching, h.length_eq, h.countP_eq, h.any_eq]
  rw [classify, hev, annClient, annServer, ← h.any_eq, ← h.any_eq, classify, annClient, annServer]

/-- What a jar owns, needs and may use are apart; each package that its classes refer to, and that
    it neither owns nor brings along, is needed if a class that is always loaded refers to it, and
    else may be used. What it needs to run it does not provide. The verdict keeps to its rules, and
    all but the name of the mod is the same in whatever order the classes are read. -/
theorem aggregate_partition (classes : List AnnotatedClass) (signals : Signals) :
    (Disjoint (aggregate classes signals).owned (aggregate classes signals).hardRefs ∧
      Disjoint (aggregate classes signals).owned (aggregate classes signals).optionalRefs ∧
      Disjoint (aggregate classes signals).hardRefs (aggregate classes signals).optionalRefs) ∧
    (∀ p, p ∉ (aggregate classes signals).owned →
      p ∉ bundledApis (classes.map AnnotatedClass.toClassInfo) →
      (∃ c ∈ classes, RefersTo p c.toClassInfo) →
      (p ∈ (aggregate classes signals).hardRefs ∨ p ∈ (aggregate classes signals).optionalRefs) ∧
        (p ∈ (aggregate classes signals).hardRefs ↔ ∃ c ∈ classes,
          ¬ Conditional (classes.map AnnotatedClass.toClassInfo) c.toClassInfo ∧
            RefersTo p c.toClassInfo)) ∧
    Disjoint (aggregate classes signals).providesRuntime (aggregate classes signals).needsRuntime ∧
    Coherent (aggregate classes signals).verdict ∧
    ∀ classes', classes.Perm classes' →
      { aggregate classes' signals with modId := (aggregate classes signals).modId } =
        aggregate classes signals := by
  have hexists : ∀ P : ClassInfo → Prop,
      (∃ c ∈ classes.map AnnotatedClass.toClassInfo, P c) ↔ ∃ c ∈ classes, P c.toClassInfo :=
    fun P => by simp only [List.mem_map, exists_exists_and_eq_and]
  refine ⟨⟨?_, ?_, ?_⟩, ?_, ?_, classify_coherent, ?_⟩
  · exact Finset.disjoint_right.2 fun p hp => (mem_hardRefs_iff.1 hp).2.1
  · exact Finset.disjoint_right.2 fun p hp => (mem_optionalRefs_iff.1 hp).2.1
  · refine Finset.disjoint_left.2 fun p hhard hoptional => ?_
    exact (mem_optionalRefs_iff.1 hoptional).1.2 (mem_hardRefs_iff.1 hhard).1
  · intro p howned hbundled hrefers
    have hhard : p ∈ (aggregate classes signals).hardRefs ↔ ∃ c ∈ classes,
        ¬ Conditional (classes.map AnnotatedClass.toClassInfo) c.toClassInfo ∧
          RefersTo p c.toClassInfo := by
      rw [← hexists fun c =>
        ¬ Conditional (classes.map AnnotatedClass.toClassInfo) c ∧ RefersTo p c]
      exact mem_hardRefs_iff.trans (and_iff_left ⟨howned, hbundled⟩)
    refine ⟨?_, hhard⟩
    by_cases h : p ∈ (aggregate classes signals).hardRefs
    · exact .inl h
    · refine .inr (mem_optionalRefs_iff.2
        ⟨⟨(hexists _).2 hrefers, fun hc => h ?_⟩, howned, hbundled⟩)
      exact mem_hardRefs_iff.2 ⟨hc, howned, hbundled⟩
  · exact Finset.disjoint_right.2 fun lang hlang => (mem_needsRuntime_iff.1 hlang).2
  · intro classes' h
    have hbytecode := @aggregate_perm _ signals.toJarSignals _
      (h.map AnnotatedClass.toClassInfo)
    exact JarFacts.mk.injEq .. ▸ ⟨hbytecode, classify_perm h⟩

end Verdicts

end JarSides

end Smrt
