import Mathlib.Data.Finset.Basic
import Smrt.Authoring.Bootstrap
import Smrt.Lib.Gather
import Smrt.Registry.Shelf

/-!
# What a jar is made of

A jar is an archive of files (`files`). Its classes tell which packages it defines and which ones it
refers to, hard or as an option, and which languages it needs at run time (`aggregate`). The
languages that it brings along itself are collected beside its classes (`scanSignals`).

* `mem_providedRuntimes_iff`: these are the languages that the jar ships (`Ships`);
* `mem_needsRuntime_iff`: a jar needs the languages its classes refer to, less those it provides.

Whether a jar is a mod, and for which side, is left out, with what is read of it for this purpose
only: no statement here reads it.
-/

namespace Smrt

namespace Bytecode

open Bootstrap (Bytes Entry Archive readZipEntry baseName)
open Registry

/-! ## Jars -/

/-- What is read of a class; what it refers to is in order. -/
structure ClassInfo where
  thisClass : String
  referenced : List String
  mixinTargets : List String
  conditional : Bool
  modId : Option String

/-- How the bytes of a file are understood: as a class, or as a text, with a mark for what is
    none. -/
structure Decoders where
  parseClass : Bytes → Option ClassInfo
  lossy : Bytes → String

/-- The entries of a jar that open and are files; an archive that does not open has none. -/
def files : Archive → List Entry
  | .ok entries => entries.filter fun e => e.fault.isNone && e.isFile
  | .error _ => []

/-- The bytes of an entry. -/
def read (e : Entry) : Option Bytes := (readZipEntry e.size e.content e.name).toOption

def isClassName (name : String) : Bool := ".class".toList <:+ name.toList

/-- `<anything>.mixins.json` or `mixins.<anything>.json`, at any depth. -/
def isMixinConfigName (name : String) : Bool :=
  let base := baseName name
  (".mixins.json".toList <:+ base.toList ∧ ".mixins.json".length < base.length) ∨
    ("mixins.".toList <+: base.toList ∧ ".json".toList <:+ base.toList ∧
      "mixins.".length + ".json".length < base.length)

/-! ## Languages -/

/-- The language that a name belongs to. -/
def runtimeLang (binary : String) : Option String :=
  if startsWithSegment binary "scala" then some "scala"
  else if startsWithSegment binary "kotlin" then some "kotlin"
  else none

/-- The languages that a jar brings along as jars of its own, by its manifest. -/
def manifestContainedRuntimes (lossy : Bytes → String) (raw : Bytes) : Finset String :=
  let lower := (lossy raw).toList.map Char.toLower
  let names := fun word : String => word.toList <:+: lower
  if ¬ names "containeddeps" then ∅
  else
    (if names "scala-library" ∨ names "scala-reflect" then {"scala"} else ∅) ∪
      (if names "kotlin-stdlib" ∨ names "kotlin-runtime" ∨ names "kotlin-reflect" then {"kotlin"}
        else ∅)

/-- What is collected of a jar beside its classes. -/
structure JarSignals where
  /-- The languages that the jar makes available. -/
  providedRuntimes : Finset String

section Scanning

variable (D : Decoders)

/-- The languages that an entry makes available: a class of the language itself does, and a
    manifest that names its library. -/
def entryRuntimes (e : Entry) : Finset String :=
  (if isClassName e.name then (runtimeLang e.name).toFinset else ∅) ∪
    (if e.name = "META-INF/MANIFEST.MF" then
      ((read e).map (manifestContainedRuntimes D.lossy)).getD ∅
    else ∅)

/-- What is collected beside the classes, entry by entry. -/
def scanSignals (jar : Archive) : JarSignals :=
  (files jar).foldl
    (fun signals e => { signals with
      providedRuntimes := signals.providedRuntimes ∪ entryRuntimes D e }) ⟨∅⟩

/-- The class that an entry holds, if it is one and can be read. -/
def entryClass (e : Entry) : Option ClassInfo :=
  if isClassName e.name then (read e).bind D.parseClass else none

def readClasses (jar : Archive) : List ClassInfo := (files jar).filterMap (entryClass D)

end Scanning

/-! ## Packages -/

/-- What packages are called that hold the plugins of a mod for others. -/
def integrationSegments : List String :=
  ["integration", "integrations", "compat", "compatibility", "plugins", "modsupport"]

/-- A class in a package for the plugins of a mod for others. -/
def isIntegrationClass (binary : String) : Bool :=
  (binary.toList.splitOnP fun c => c = '/').dropLast.any fun seg =>
    String.ofList seg ∈ integrationSegments

/-- The package that tells who owns a class, if it is not the platform's. -/
def modPrefix (binary : String) : Option String :=
  if isPlatform binary then none else packagePrefix binary

/-- Of all that is defined below the same root, this is only its interface: the jar brings along
    what another mod owns. -/
def isBundledApi (defined : Finset String) (p : String) : Prop :=
  "/api".toList <:+ p.toList ∧
    ∀ s ∈ defined, s ≠ p →
      ¬ startsWithSegment s (String.ofList (p.toList.take (p.toList.length - 4)))

instance (defined : Finset String) : DecidablePred (isBundledApi defined) := fun _ =>
  inferInstanceAs (Decidable (_ ∧ _))

/-- What the bytecode of a jar says. -/
structure JarBytecode where
  owned : Finset String
  /-- What a class refers to that is always loaded. -/
  hardRefs : Finset String
  optionalRefs : Finset String
  needsRuntime : Finset String
  providesRuntime : Finset String
  /-- The name of the first class that is annotated as a mod. -/
  modId : Option String

/-- Nothing is known of a jar. -/
def JarBytecode.empty : JarBytecode := ⟨∅, ∅, ∅, ∅, ∅, none⟩

/-- What the classes of a jar say, given what was collected beside them. -/
def aggregate (classes : List ClassInfo) (signals : JarSignals) : JarBytecode :=
  let defined := (classes.filterMap fun c => modPrefix c.thisClass).toFinset
  let bundled := defined.filter (isBundledApi defined)
  let owned := defined \ bundled
  -- A jar that lives in such packages is only called so: what it refers to it does need.
  let minority : Bool :=
    (classes.filter fun c => isIntegrationClass c.thisClass).length * 2 < classes.length
  let conditional := fun c : ClassInfo =>
    c.conditional || (minority && isIntegrationClass c.thisClass)
  let refs := fun c : ClassInfo => c.referenced.filterMap modPrefix
  let refHard := ((classes.filter fun c => !conditional c).flatMap refs).toFinset
  let refAll := (classes.flatMap refs).toFinset
  { owned := owned
    hardRefs := (refHard \ owned) \ bundled
    optionalRefs := ((refAll \ refHard) \ owned) \ bundled
    needsRuntime := ((classes.flatMap fun c => c.referenced.filterMap runtimeLang).filter
      fun lang => lang ∉ signals.providedRuntimes).toFinset
    providesRuntime := signals.providedRuntimes
    modId := classes.findSome? fun c => c.modId }

/-- What a jar is made of, as it is read for its bytecode alone. -/
def scanJar (D : Decoders) (jar : Archive) : JarBytecode :=
  aggregate (readClasses D jar) (scanSignals D jar)

/-! ## Languages of a jar -/

/-- A jar ships a language: with a class of it, or with its library, which the manifest names. -/
def Ships (D : Decoders) (jar : Archive) (lang : String) : Prop :=
  ∃ e ∈ files jar, (isClassName e.name = true ∧ runtimeLang e.name = some lang) ∨
    (e.name = "META-INF/MANIFEST.MF" ∧
      ∃ raw, read e = some raw ∧ lang ∈ manifestContainedRuntimes D.lossy raw)

variable {D : Decoders} {jar : Archive} {lang : String}

theorem mem_entryRuntimes_iff {e : Entry} : lang ∈ entryRuntimes D e ↔
    (isClassName e.name = true ∧ runtimeLang e.name = some lang) ∨
      (e.name = "META-INF/MANIFEST.MF" ∧
        ∃ raw, read e = some raw ∧ lang ∈ manifestContainedRuntimes D.lossy raw) := by
  rw [entryRuntimes, Finset.mem_union]
  refine or_congr ?_ ?_
  · by_cases hc : isClassName e.name = true
    · simp [hc]
    · simp [hc]
  · by_cases hm : e.name = "META-INF/MANIFEST.MF"
    · rcases hr : read e with _ | raw
      · simp [hm]
      · simp [hm]
    · simp [hm]

/-- What is collected is what was there, and what the entries make available. -/
theorem mem_foldl_entryRuntimes {entries : List Entry} {s : JarSignals} :
    lang ∈ (entries.foldl (fun signals e => { signals with
      providedRuntimes := signals.providedRuntimes ∪ entryRuntimes D e }) s).providedRuntimes ↔
      lang ∈ s.providedRuntimes ∨ ∃ e ∈ entries, lang ∈ entryRuntimes D e := by
  refine foldl_iff (Q := fun s : JarSignals => lang ∈ s.providedRuntimes) (fun s e => ?_) entries s
  rw [Finset.mem_union]

theorem mem_providedRuntimes_iff :
    lang ∈ (scanSignals D jar).providedRuntimes ↔ Ships D jar lang := by
  rw [scanSignals, mem_foldl_entryRuntimes]
  refine (or_iff_right (Finset.notMem_empty lang)).trans ?_
  exact exists_congr fun e => and_congr_right fun _ => mem_entryRuntimes_iff

/-- A jar does not need what it provides. -/
theorem mem_needsRuntime_iff {classes : List ClassInfo} {signals : JarSignals} :
    lang ∈ (aggregate classes signals).needsRuntime ↔
      (∃ c ∈ classes, ∃ r ∈ c.referenced, runtimeLang r = some lang) ∧
        lang ∉ signals.providedRuntimes := by
  simp [aggregate]

end Bytecode

end Smrt
