import Smrt.Authoring.ModMeta
import Smrt.Lib.Gather

/-!
# What a jar patches

A jar declares the files of its mixins in its metadata, by name (`declaredConfigNames`). One of
them that is required names classes of the jar, and all that these patch or mention has to be there
when the game starts (`RequiredMixins`). They are collected from what was taken out of a jar
(`fromParts`), by whoever opened it: `scanJar` does so for this purpose alone.
-/

namespace Smrt

namespace MixinScan

open Bootstrap (Bytes Entry Archive)
open Bytecode (ClassInfo entryClass isClassName isMixinConfigName read files)
open ModMeta (Formats fromUtf8 readNamed)

/-- A file of mixins that is required, with the classes it needs, each of them once. -/
structure RequiredMixins where
  config : String
  needs : List String
  deriving DecidableEq

structure MixinConfigJson where
  required : Bool
  package : String
  mixins : List String
  client : List String
  server : List String

/-- A file of mixins, as `fabric.mod.json` names it. -/
inductive FabricMixin
  | named (config : String)
  | object (config : String)

def FabricMixin.config : FabricMixin → String
  | named config => config
  | object config => config

/-- How the files of a jar are read that have to do with mixins. -/
structure MixinFormats extends Formats where
  tomlMixins : String → Option (List (Option String))
  jsonMixins : Bytes → Option (List FabricMixin)
  mixinConfig : Bytes → Option MixinConfigJson

/-- A name with the others, if there is one, and it is new. -/
def pushName (names : List String) (n : String) : List String :=
  if trim n = "" ∨ trim n ∈ names then names else names ++ [trim n]

/-- The class of a mixin, in the package of its file. -/
def mixinClassName (package simple : String) : String :=
  let dots := fun s : String => String.ofList (s.toList.map fun c => if c = '.' then '/' else c)
  if dots (trim package) = "" then dots (trim simple)
  else dots (trim package) ++ "/" ++ dots (trim simple)

/-- What a class needs besides itself, with what is known to be needed. -/
def needsOf (needs : List String) (info : ClassInfo) : List String :=
  (info.mixinTargets ++ info.referenced).foldl
    (fun needs t => if t = info.thisClass ∨ t ∈ needs then needs else needs ++ [t]) needs

/-- What the mixins of a file need, of those that the jar carries. -/
def configNeeds (classes : List ClassInfo) (cfg : MixinConfigJson) : List String :=
  (cfg.mixins ++ cfg.client ++ cfg.server).foldl
    (fun needs simple =>
      -- Of two classes of a name, it is the last one.
      match classes.reverse.find? fun c => c.thisClass = mixinClassName cfg.package simple with
      | some info => needsOf needs info
      | none => needs) []

section Scanning

variable (F : MixinFormats)

/-- The files of mixins that a jar names in its metadata, of either kind. -/
def declaredConfigNames (modsToml fabricJson : Option Bytes) : List String :=
  let tomlNames := (((modsToml.bind fromUtf8).bind F.tomlMixins).getD []).filterMap id
  let jsonNames := ((fabricJson.bind F.jsonMixins).getD []).map FabricMixin.config
  (tomlNames ++ jsonNames).foldl pushName []

/-- What a file of mixins needs, if it is there, is required, and needs anything. -/
def requiredMixins (configs : List (String × Bytes)) (classes : List ClassInfo) (name : String) :
    Option RequiredMixins :=
  ((configs.reverse.lookup name).bind F.mixinConfig).bind fun cfg =>
    if cfg.required ∧ configNeeds classes cfg ≠ [] then some ⟨name, configNeeds classes cfg⟩
    else none

/-- What the files of mixins that are required need, from what was taken out of a jar. -/
def fromParts (modsToml fabricJson : Option Bytes) (configs : List (String × Bytes))
    (classes : List ClassInfo) : List RequiredMixins :=
  (declaredConfigNames F modsToml fabricJson).filterMap (requiredMixins F configs classes)

/-- The file of mixins that an entry is, if it can be read. -/
def entryConfig (e : Entry) : Option (String × Bytes) :=
  if isClassName e.name then none
  else if isMixinConfigName e.name then (read e).map fun raw => (e.name, raw)
  else none

/-- What a jar's mixins need, as it is read for that alone. -/
def scanJar (jar : Archive) : List RequiredMixins :=
  fromParts F
    ((readNamed jar "META-INF/neoforge.mods.toml").or (readNamed jar "META-INF/mods.toml"))
    (readNamed jar "fabric.mod.json") ((files jar).filterMap entryConfig)
    ((files jar).filterMap (entryClass F.toDecoders))

end Scanning

/-! ## What is found -/

section Found

variable {F : MixinFormats} {modsToml fabricJson : Option Bytes} {configs : List (String × Bytes)}
  {classes : List ClassInfo}

theorem mem_foldl_pushName {n : String} {l acc : List String} :
    n ∈ l.foldl pushName acc ↔ n ∈ acc ∨ n ≠ "" ∧ ∃ s ∈ l, trim s = n := by
  have hstep (acc : List String) (s : String) :
      n ∈ pushName acc s ↔ n ∈ acc ∨ ¬ trim s = "" ∧ trim s = n := mem_pushNew
  rw [foldl_iff (Q := fun acc => n ∈ acc) hstep]
  refine or_congr_right ⟨?_, ?_⟩
  · intro h
    obtain ⟨s, hs, hne, rfl⟩ := h
    exact ⟨hne, s, hs, rfl⟩
  · intro h
    obtain ⟨hne, s, hs, rfl⟩ := h
    exact ⟨s, hs, hne, rfl⟩

/-- The names of the files of mixins are the ones in the metadata, without the white space. -/
theorem mem_declaredConfigNames {n : String} : n ∈ declaredConfigNames F modsToml fabricJson ↔
    n ≠ "" ∧
      ((∃ text l s, modsToml.bind fromUtf8 = some text ∧ F.tomlMixins text = some l ∧
        some s ∈ l ∧ trim s = n) ∨
      ∃ bytes l m, fabricJson = some bytes ∧ F.jsonMixins bytes = some l ∧ m ∈ l ∧
        trim m.config = n) := by
  rw [declaredConfigNames, mem_foldl_pushName]
  refine (or_iff_right List.not_mem_nil).trans (and_congr_right fun _ => ?_)
  constructor
  · rintro ⟨s, hs, ht⟩
    rcases List.mem_append.1 hs with hs | hs
    · obtain ⟨o, ho, rfl⟩ := List.mem_filterMap.1 hs
      rcases hx : modsToml.bind fromUtf8 with _ | text
      · rw [hx] at ho
        exact absurd ho List.not_mem_nil
      · rcases hl : F.tomlMixins text with _ | l
        · rw [hx, Option.bind_some, hl] at ho
          exact absurd ho List.not_mem_nil
        · rw [hx, Option.bind_some, hl] at ho
          exact .inl ⟨text, l, s, rfl, hl, ho, ht⟩
    · obtain ⟨m, hm, rfl⟩ := List.mem_map.1 hs
      rcases fabricJson with _ | bytes
      · exact absurd hm List.not_mem_nil
      · rcases hl : F.jsonMixins bytes with _ | l
        · rw [Option.bind_some, hl] at hm
          exact absurd hm List.not_mem_nil
        · rw [Option.bind_some, hl] at hm
          exact .inr ⟨bytes, l, m, rfl, hl, hm, ht⟩
  · rintro (⟨text, l, s, hx, hl, hs, ht⟩ | ⟨bytes, l, m, rfl, hl, hm, ht⟩)
    · refine ⟨s, List.mem_append_left _ (List.mem_filterMap.2 ⟨some s, ?_, rfl⟩), ht⟩
      rw [hx, Option.bind_some, hl]
      exact hs
    · refine ⟨m.config, List.mem_append_right _ (List.mem_map.2 ⟨m, ?_, rfl⟩), ht⟩
      rw [Option.bind_some, hl]
      exact hm

/-- A file of mixins is reported if it is there, is required, and needs something. -/
theorem requiredMixins_eq_some {name : String} {r : RequiredMixins} :
    requiredMixins F configs classes name = some r ↔
      ∃ raw cfg, configs.reverse.lookup name = some raw ∧ F.mixinConfig raw = some cfg ∧
        cfg.required = true ∧ configNeeds classes cfg ≠ [] ∧
          r = ⟨name, configNeeds classes cfg⟩ := by
  rw [requiredMixins, Option.bind_eq_some_iff]
  constructor
  · rintro ⟨cfg, hcfg, hr⟩
    obtain ⟨raw, hraw, hcfg⟩ := Option.bind_eq_some_iff.1 hcfg
    obtain ⟨⟨hreq, hneeds⟩, he⟩ := Option.ite_none_right_eq_some.1 hr
    exact ⟨raw, cfg, hraw, hcfg, hreq, hneeds, (Option.some.inj he).symm⟩
  · rintro ⟨raw, cfg, hraw, hcfg, hreq, hneeds, rfl⟩
    exact ⟨cfg, by rw [hraw, Option.bind_some, hcfg], if_pos ⟨hreq, hneeds⟩⟩

end Found

end MixinScan

end Smrt
