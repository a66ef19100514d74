import Mathlib.Data.Finset.Sort
import Smrt.Authoring.Harvest
import Smrt.Authoring.MixinScan
import Smrt.Lib.Lines

/-!
# Reading a jar once

The harvest opens a jar once (`readJar`). Its entries are met in their order, and what each of them
has for any of the purposes is taken out (`Reading.entry`): the classes, the files of mixins, and
the metadata of the loaders. What is declared, and what the bytecode says, is made of that at the
end.

* `classes_foldl`, `configs_foldl`: the classes and the files of mixins are the ones that are found
  by reading the jar for them alone;
* `signals_foldl`: of what is collected beside the classes, the languages that a jar brings along
  are never set;
* `agree_iff_not_ships`: so the bytecode is the one that is read of it alone (`Bytecode.scanJar`)
  exactly if the jar ships no language.
-/

namespace Smrt

namespace ReadJar

open Bootstrap (Bytes Entry Archive)
open Bytecode
open Harvest (JarSeed)
open MixinScan (MixinFormats RequiredMixins entryConfig fromParts)
open ModMeta (fromUtf8 jsonMeta tomlMeta)
open Registry

/-! ## `mcmod.info` -/

/-- A mod of an older jar. -/
structure McModInfo where
  modid : String
  deriving DecidableEq

/-- How the files of a jar are read, those of older jars among them: a list of mods, or one under a
    name. -/
structure JarFormats extends MixinFormats where
  mods : String → Option (List McModInfo)
  modList : String → Option (List McModInfo)

section Formats

variable (F : JarFormats)

/-- The mods of an `mcmod.info`; the control characters in it are taken for blanks. -/
def parseMcmodEntries (raw : Bytes) : List McModInfo :=
  let decoded := (F.lossy raw).toList.dropWhile fun c => c = Char.ofNat 0xFEFF
  let trimmed := trim (String.ofList decoded)
  let src := String.ofList (trimmed.toList.map fun c => if c.val < 0x20 then ' ' else c)
  if trimmed = "" then []
  else if src.toList.head? = some '[' then (F.mods src).getD []
  else (F.modList src).getD []

def parseMcmodInfo (raw : Bytes) : Option McModInfo := (parseMcmodEntries F raw).head?

/-- The names of all mods of an `mcmod.info`. -/
def mcmodModids (raw : Bytes) : List String :=
  ((parseMcmodEntries F raw).map McModInfo.modid).filter fun m => m ≠ ""

/-- The version that a manifest has for the whole jar. -/
def manifestImplementationVersion (raw : Bytes) : Option String :=
  (fromUtf8 raw).bind fun text => (lines text).findSome? fun line =>
    let key := line.takeWhile fun c => c ≠ ':'
    let value := trim (String.ofList (line.drop (key.length + 1)))
    if ':' ∈ line ∧ lower (trim (String.ofList key)) = "implementation-version" ∧ value ≠ "" then
      some value
    else none

/-! ## One pass -/

/-- What was taken out of a jar so far. -/
structure Reading where
  classes : List ClassInfo
  configs : List (String × Bytes)
  mcmodRaw : Option Bytes
  modsToml : Option Bytes
  fabricJson : Option Bytes
  hasForge : Bool
  hasNeoforge : Bool
  hasFabric : Bool
  implVersion : Option String
  signals : JarSignals

def Reading.start : Reading := ⟨[], [], none, none, none, false, false, false, none, ⟨∅⟩⟩

/-- What an entry has is taken out. -/
def Reading.entry (r : Reading) (e : Entry) : Reading :=
  if isClassName e.name then { r with classes := r.classes ++ (entryClass F.toDecoders e).toList }
  else if isMixinConfigName e.name then { r with configs := r.configs ++ (entryConfig e).toList }
  else if e.name = "mcmod.info" then { r with hasForge := true, mcmodRaw := read e }
  else if e.name = "META-INF/mods.toml" then
    { r with hasForge := true, modsToml := r.modsToml.or (read e) }
  -- This one wins, whether or not it can be read.
  else if e.name = "META-INF/neoforge.mods.toml" then
    { r with hasNeoforge := true, modsToml := read e }
  else if e.name = "fabric.mod.json" then { r with hasFabric := true, fabricJson := read e }
  else if e.name = "META-INF/MANIFEST.MF" then
    match read e with
    | some raw => { r with implVersion := manifestImplementationVersion raw }
    | none => r
  else r

/-- What is taken out of a jar. -/
def reading (jar : Archive) : Reading := (files jar).foldl (Reading.entry F) .start

/-- What the harvest reads of a jar. -/
structure JarReadout where
  loader : Option String
  bytecode : JarBytecode
  modmeta : ModMeta
  mcmod : Option McModInfo
  mcmodModids : List String
  requiredMixins : List RequiredMixins
  classNames : List String

/-- What a jar declares, by the files that were met. -/
def Reading.declared (r : Reading) : ModMeta :=
  match r.modsToml with
  | some t => ((fromUtf8 t).map (tomlMeta F.toFormats)).getD {}
  | none => (r.fabricJson.map (jsonMeta F.toFormats)).getD {}

/-- A version that the build did not fill in is the one of the manifest. -/
def Reading.modmeta (r : Reading) : ModMeta :=
  if ((r.declared F).version.any fun v => ['$', Char.ofNat 0x7b] <:+: v.toList) then
    { r.declared F with version := r.implVersion }
  else r.declared F

/-- A jar with the marker of the newest loader is of that one. -/
def Reading.loader (r : Reading) (bytecode : JarBytecode) : Option String :=
  if r.hasNeoforge then some "neoforge"
  else if r.hasForge ∨ bytecode.modId.isSome then some "forge"
  else if r.hasFabric then some "fabric"
  else none

/-- What a jar says, given what was taken out of it. -/
def Reading.readout (r : Reading) : JarReadout :=
  let bytecode := aggregate r.classes r.signals
  { loader := r.loader bytecode
    bytecode
    modmeta := r.modmeta F
    mcmod := (r.mcmodRaw.bind (parseMcmodInfo F)).filter fun i => i.modid ≠ ""
    mcmodModids := (r.mcmodRaw.map (mcmodModids F)).getD []
    requiredMixins := fromParts F.toMixinFormats r.modsToml r.fabricJson r.configs r.classes
    classNames := r.classes.map ClassInfo.thisClass }

/-- Everything the harvest reads from one jar; an archive that does not open says nothing. -/
def readJar : Archive → JarReadout
  | .ok entries => (reading F (.ok entries)).readout F
  | .error _ => ⟨none, .empty, {}, none, [], [], []⟩

end Formats

/-! ## What is taken out -/

section Taken

variable {F : JarFormats} {entries : List Entry} {r : Reading}

theorem classes_entry (e : Entry) :
    (r.entry F e).classes = r.classes ++ (entryClass F.toDecoders e).toList := by
  rw [Reading.entry]
  by_cases hc : isClassName e.name = true
  · rw [if_pos hc]
  · -- No other branch takes a class.
    have hnone : entryClass F.toDecoders e = none := if_neg hc
    rw [if_neg hc, hnone, Option.toList_none, List.append_nil]
    split_ifs
    any_goals rfl
    rcases read e with _ | raw
    · rfl
    · rfl

theorem configs_entry (e : Entry) :
    (r.entry F e).configs = r.configs ++ (entryConfig e).toList := by
  rw [Reading.entry]
  by_cases hc : isClassName e.name = true
  · have hnone : entryConfig e = none := if_pos hc
    rw [if_pos hc, hnone, Option.toList_none, List.append_nil]
  · rw [if_neg hc]
    by_cases hm : isMixinConfigName e.name = true
    · rw [if_pos hm]
    · have hnone : entryConfig e = none := by rw [entryConfig, if_neg hc, if_neg hm]
      rw [if_neg hm, hnone, Option.toList_none, List.append_nil]
      split_ifs
      any_goals rfl
      rcases read e with _ | raw
      · rfl
      · rfl

theorem signals_entry (e : Entry) : (r.entry F e).signals = r.signals := by
  rw [Reading.entry]
  split_ifs
  any_goals rfl
  rcases read e with _ | raw
  · rfl
  · rfl

theorem classes_foldl : (entries.foldl (Reading.entry F) r).classes =
    r.classes ++ entries.filterMap (entryClass F.toDecoders) := by
  induction entries generalizing r with
  | nil => exact (List.append_nil _).symm
  | cons e entries ih =>
    rw [List.foldl_cons, ih, classes_entry, List.append_assoc, List.filterMap_cons]
    rcases entryClass F.toDecoders e with _ | c
    · rfl
    · rfl

theorem configs_foldl : (entries.foldl (Reading.entry F) r).configs =
    r.configs ++ entries.filterMap entryConfig := by
  induction entries generalizing r with
  | nil => exact (List.append_nil _).symm
  | cons e entries ih =>
    rw [List.foldl_cons, ih, configs_entry, List.append_assoc, List.filterMap_cons]
    rcases entryConfig e with _ | c
    · rfl
    · rfl

theorem signals_foldl : (entries.foldl (Reading.entry F) r).signals = r.signals := by
  induction entries generalizing r with
  | nil => rfl
  | cons e entries ih => rw [List.foldl_cons, ih, signals_entry]

variable {jar : Archive}

theorem reading_classes : (reading F jar).classes = readClasses F.toDecoders jar := classes_foldl

theorem reading_configs : (reading F jar).configs = (files jar).filterMap entryConfig :=
  configs_foldl

theorem reading_signals : (reading F jar).signals = ⟨∅⟩ := signals_foldl

/-- The bytecode is what the classes say, with no language that the jar brings along. -/
theorem bytecode_readJar_ok (entries : List Entry) : (readJar F (.ok entries)).bytecode =
    aggregate (readClasses F.toDecoders (.ok entries)) ⟨∅⟩ := by
  rw [readJar, Reading.readout]
  dsimp only
  rw [reading_classes, reading_signals]

end Taken

/-! ## Two readers of the bytecode -/

/-- The seed of a jar with what its bytecode says. -/
def withBytecode (jar : JarSeed) (b : JarBytecode) : JarSeed :=
  { jar with
    ownedPackages := b.owned.sort
    hardRefs := b.hardRefs.sort
    optionalRefs := b.optionalRefs.sort
    needsRuntime := b.needsRuntime.sort
    providesRuntime := b.providesRuntime.sort }

/-- What the harvest writes about the languages of a jar says that it provides this one, and does
    not say that it needs it. -/
def Records (jar : JarSeed) (lang : String) : Prop :=
  ∀ modId versionId t t', Harvest.writeRuntimes modId versionId jar t = .ok ((), t') →
    (∃ r ∈ t'.1.relations, r.fromVersionId = some versionId ∧ r.target = "runtime:" ++ lang ∧
      r.kind = .provides) ∧
    ∀ r ∈ t'.1.relations, r.fromVersionId = some versionId → r.target = "runtime:" ++ lang →
      r.kind = .requires → r ∈ t.1.relations

/-- The packages, the references and the languages are the same. -/
structure SameBytecode (a b : JarBytecode) : Prop where
  owned : a.owned = b.owned
  hardRefs : a.hardRefs = b.hardRefs
  optionalRefs : a.optionalRefs = b.optionalRefs
  needsRuntime : a.needsRuntime = b.needsRuntime
  providesRuntime : a.providesRuntime = b.providesRuntime

/-- The two readers of a jar agree on its bytecode, and the harvest says of a jar that ships a
    language that it provides it. -/
structure BytecodeAgrees (F : JarFormats) (jar : Archive) : Prop where
  same : SameBytecode (scanJar F.toDecoders jar) (readJar F jar).bytecode
  records : ∀ seed lang, Ships F.toDecoders jar lang →
    Records (withBytecode seed (readJar F jar).bytecode) lang

variable {F : JarFormats} {jar : Archive}

/-- What the classes say does not depend on what is collected beside them, apart from the
    languages. -/
theorem sameBytecode_aggregate {classes : List ClassInfo} {signals signals' : JarSignals}
    (h : signals.providedRuntimes = signals'.providedRuntimes) :
    SameBytecode (aggregate classes signals) (aggregate classes signals') := by
  refine ⟨rfl, rfl, rfl, ?_, h⟩
  ext lang
  rw [mem_needsRuntime_iff, mem_needsRuntime_iff, h]

/-- The harvest never finds a language that is brought along. -/
theorem providesRuntime_readJar : (readJar F jar).bytecode.providesRuntime = ∅ := by
  rcases jar with _ | entries
  · rfl
  · rw [bytecode_readJar_ok]
    rfl

theorem BytecodeAgrees.not_ships (h : BytecodeAgrees F jar) (lang : String) :
    ¬ Ships F.toDecoders jar lang := by
  intro hships
  have hp : lang ∈ (scanJar F.toDecoders jar).providesRuntime := mem_providedRuntimes_iff.2 hships
  rw [h.same.providesRuntime, providesRuntime_readJar] at hp
  exact Finset.notMem_empty lang hp

theorem agree_iff_not_ships (F : JarFormats) (jar : Archive) :
    BytecodeAgrees F jar ↔ ∀ lang, ¬ Ships F.toDecoders jar lang := by
  refine ⟨BytecodeAgrees.not_ships, fun hno => ?_⟩
  have hempty : (scanSignals F.toDecoders jar).providedRuntimes = ∅ :=
    Finset.eq_empty_of_forall_notMem fun lang hl => hno lang (mem_providedRuntimes_iff.1 hl)
  refine ⟨?_, fun _ lang hships => absurd hships (hno lang)⟩
  rcases jar with _ | entries
  · exact sameBytecode_aggregate hempty
  · rw [bytecode_readJar_ok]
    exact sameBytecode_aggregate hempty

/-- A jar with a class of Scala, of which nothing can be read. -/
def scalaJar : List Entry := [⟨"scala/Option.class", true, 0, none, .ok []⟩]

/-- It ships Scala, however a class is read; the harvest does not see it. -/
theorem not_agree_scalaJar : ¬ ∃ F, BytecodeAgrees F (.ok scalaJar) := by
  rintro ⟨F, h⟩
  refine h.not_ships "scala" ⟨⟨"scala/Option.class", true, 0, none, .ok []⟩, ?_, ?_⟩
  · exact List.mem_filter.2 ⟨List.mem_singleton_self _, rfl⟩
  · exact .inl ⟨by decide +kernel, by decide +kernel⟩

end ReadJar

end Smrt
