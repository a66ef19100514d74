import Smrt.Authoring.JarDoors

/-!
# What a jar needs for its mixins

The files of mixins that a jar names and requires are to be collected with all that their classes
need (`Exact`). The walk over the jar keeps those whose names follow a convention, which nothing in
the metadata has to, and of the classes of one name, the last.

* `mem_configNeeds`: what is collected for a file is what the last classes of the names on its lists
  need (`Last`, `Wants`);
* `lookup_config`: a file is looked up among the ones that were kept (`Kept`);
* `scanJar_exact_iff`: so all that is asked for (`Asked`) is collected, if and only if it has a name
  of the convention, and nothing is needed by a class alone that another one hides.
-/

namespace Smrt

namespace MixinExact

open Bootstrap (Bytes Entry)
open Bytecode (ClassInfo entryClass isClassName isMixinConfigName read)
open JarDoors (Jar neoToml forgeToml fabricMod)
open MixinScan (MixinFormats MixinConfigJson RequiredMixins configNeeds declaredConfigNames
  entryConfig mixinClassName needsOf pushName requiredMixins scanJar)
open ModMeta (fromUtf8)

/-! ## What is asked for -/

/-- What a class patches or mentions, besides itself. -/
def Wants (c : ClassInfo) (t : String) : Prop :=
  (t ∈ c.mixinTargets ∨ t ∈ c.referenced) ∧ t ≠ c.thisClass

/-- A file of mixins has the class on one of its lists. -/
def Lists (cfg : MixinConfigJson) (c : ClassInfo) : Prop :=
  ∃ simple ∈ cfg.mixins ++ cfg.client ++ cfg.server, c.thisClass = mixinClassName cfg.package simple

section Asking

variable (F : MixinFormats) (jar : Jar)

def classes : List ClassInfo := jar.files.filterMap (entryClass F.toDecoders)

/-- The metadata of the jar names a file of mixins. -/
def Named (n : String) : Prop :=
  n ≠ "" ∧
    ((∃ text l s, ((jar.named neoToml).or (jar.named forgeToml)).bind fromUtf8 = some text ∧
      F.tomlMixins text = some l ∧ some s ∈ l ∧ trim s = n) ∨
    ∃ bytes l m, jar.named fabricMod = some bytes ∧ F.jsonMixins bytes = some l ∧ m ∈ l ∧
      trim m.config = n)

/-- The jar has a file of this name. -/
def Carries (n : String) (raw : Bytes) : Prop := ∃ e ∈ jar.files, e.name = n ∧ read e = some raw

/-- What the classes of the jar need that a file of mixins lists. -/
def Needs (cfg : MixinConfigJson) (t : String) : Prop :=
  ∃ c ∈ classes F jar, Lists cfg c ∧ Wants c t

/-- The jar names the file of mixins, has it, and requires it, and it needs something. -/
def Asked (n : String) (cfg : MixinConfigJson) : Prop :=
  Named F jar n ∧ (∃ raw, Carries jar n raw ∧ F.mixinConfig raw = some cfg) ∧
    cfg.required = true ∧ ∃ t, Needs F jar cfg t

/-- All that is asked for is collected, once, with all it needs. -/
structure Exact : Prop where
  configs : ∀ n, (∃ r ∈ scanJar F jar.archive, r.config = n) ↔ ∃ cfg, Asked F jar n cfg
  once : ((scanJar F jar.archive).map RequiredMixins.config).Nodup
  needs : ∀ r ∈ scanJar F jar.archive, ∀ cfg, Asked F jar r.config cfg →
    r.needs.Nodup ∧ ∀ t, t ∈ r.needs ↔ Needs F jar cfg t

/-- The name of a file that the walk keeps. -/
def Kept (n : String) : Prop := isMixinConfigName n = true ∧ isClassName n = false

/-- The class is the last one of its name. -/
def Last (l : List ClassInfo) (c : ClassInfo) : Prop :=
  l.reverse.find? (fun d => d.thisClass = c.thisClass) = some c

/-- What is asked for is kept, and nothing that it needs is needed only by classes that later ones
    of the same names hide. -/
def Spelled : Prop :=
  ∀ n cfg, Asked F jar n cfg →
    Kept n ∧ ∀ t, Needs F jar cfg t → ∃ c, Last (classes F jar) c ∧ Lists cfg c ∧ Wants c t

end Asking

/-! ## What is collected -/

section Needed

variable {l : List ClassInfo} {c : ClassInfo} {cfg : MixinConfigJson} {needs : List String}
  {t : String}

theorem nodup_needsOf (h : needs.Nodup) : (needsOf needs c).Nodup :=
  foldl_keeps (Q := List.Nodup) (fun _ _ hn => nodup_pushNew hn) _ h

theorem mem_needsOf : t ∈ needsOf needs c ↔ t ∈ needs ∨ Wants c t := by
  have hstep (acc : List String) (s : String) :
      t ∈ (if s = c.thisClass ∨ s ∈ acc then acc else acc ++ [s]) ↔
        t ∈ acc ∨ ¬ s = c.thisClass ∧ s = t := mem_pushNew
  rw [needsOf, foldl_iff (Q := fun acc => t ∈ acc) hstep, Wants, ← List.mem_append]
  refine or_congr_right ⟨?_, ?_⟩
  · intro h
    obtain ⟨s, hs, hne, rfl⟩ := h
    exact ⟨hs, hne⟩
  · intro h
    exact ⟨t, h.1, h.2, rfl⟩

/-- A name is looked up among the classes: the last one that has it. -/
theorem find?_eq_some_iff_last {name : String} :
    l.reverse.find? (fun d => d.thisClass = name) = some c ↔ Last l c ∧ c.thisClass = name := by
  constructor
  · intro h
    have hname := List.find?_some h
    have hname : c.thisClass = name := of_decide_eq_true hname
    subst hname
    exact ⟨h, rfl⟩
  · intro h
    exact h.2 ▸ h.1

theorem Last.mem (h : Last l c) : c ∈ l := List.mem_reverse.1 (List.mem_of_find?_eq_some h)

/-- What the mixins of a file need, of those the jar has: what the last classes of their names
    want. -/
theorem mem_configNeeds :
    t ∈ configNeeds l cfg ↔ ∃ c, Last l c ∧ Lists cfg c ∧ Wants c t := by
  rw [configNeeds, foldl_iff (Q := fun acc => t ∈ acc)
    (P := fun s => ∃ c, (Last l c ∧ c.thisClass = mixinClassName cfg.package s) ∧ Wants c t)]
  · rw [or_iff_right List.not_mem_nil]
    constructor
    · intro h
      obtain ⟨s, hs, c, ⟨hlast, hname⟩, hwants⟩ := h
      exact ⟨c, hlast, ⟨s, hs, hname⟩, hwants⟩
    · intro h
      obtain ⟨c, hlast, ⟨s, hs, hname⟩, hwants⟩ := h
      exact ⟨s, hs, c, ⟨hlast, hname⟩, hwants⟩
  · intro acc s
    rcases hf : (l.reverse.find? fun d =>
      d.thisClass = mixinClassName cfg.package s : Option ClassInfo) with _ | c
    · refine (or_iff_left ?_).symm
      intro h
      obtain ⟨c, hc, -⟩ := h
      rw [← find?_eq_some_iff_last, hf] at hc
      exact Option.some_ne_none _ hc.symm
    · rw [mem_needsOf]
      refine or_congr_right ⟨fun h => ⟨c, find?_eq_some_iff_last.1 hf, h⟩, ?_⟩
      intro h
      obtain ⟨c', hc', hwants⟩ := h
      rw [← find?_eq_some_iff_last, hf] at hc'
      exact Option.some.inj hc' ▸ hwants

theorem nodup_configNeeds : (configNeeds l cfg).Nodup := by
  refine foldl_keeps (Q := List.Nodup) (fun acc s hn => ?_) _ List.nodup_nil
  rcases (l.reverse.find? fun d =>
    d.thisClass = mixinClassName cfg.package s : Option ClassInfo) with _ | c
  · exact hn
  · exact nodup_needsOf hn

end Needed

section Kept

variable {F : MixinFormats} {jar : Jar} {n : String} {raw : Bytes} {cfg : MixinConfigJson}
  {r : RequiredMixins}

theorem entryConfig_eq_some {e : Entry} :
    entryConfig e = some (n, raw) ↔ Kept n ∧ e.name = n ∧ read e = some raw := by
  have hread : (read e).map (fun raw => (e.name, raw)) = some (n, raw) ↔
      e.name = n ∧ read e = some raw := by
    rw [Option.map_eq_some_iff]
    constructor
    · intro h
      obtain ⟨raw', hraw, he⟩ := h
      obtain ⟨hname, rfl⟩ := Prod.mk.inj he
      exact ⟨hname, hraw⟩
    · intro h
      exact ⟨raw, h.2, by rw [h.1]⟩
  rw [entryConfig]
  by_cases hcls : isClassName e.name = true
  · rw [if_pos hcls]
    refine iff_of_false (Option.some_ne_none _).symm fun h => ?_
    rw [← h.2.1] at h
    exact Bool.false_ne_true (h.1.2.symm.trans hcls)
  rw [if_neg hcls]
  by_cases hcfg : isMixinConfigName e.name = true
  · rw [if_pos hcfg, hread]
    refine (and_iff_right_of_imp fun h => ?_).symm
    rw [← h.1]
    exact ⟨hcfg, eq_false_of_ne_true hcls⟩
  · rw [if_neg hcfg]
    refine iff_of_false (Option.some_ne_none _).symm fun h => ?_
    rw [← h.2.1] at h
    exact hcfg h.1.1

/-- An entry is kept under its own name. -/
theorem sublist_kept (l : List Entry) :
    ((l.filterMap entryConfig).map Prod.fst).Sublist (l.map Entry.name) := by
  induction l with
  | nil => exact .slnil
  | cons e l ih =>
    rcases he : entryConfig e with _ | ⟨n, raw⟩
    · rw [List.filterMap_cons_none he]
      exact ih.cons _
    · rw [List.filterMap_cons_some he, List.map_cons, List.map_cons,
        (entryConfig_eq_some.1 he).2.1]
      exact ih.cons_cons _

/-- A file is found among the ones that the walk keeps, if its name is one to keep. -/
theorem lookup_config : (jar.files.filterMap entryConfig).reverse.lookup n = some raw ↔
    Kept n ∧ Carries jar n raw := by
  have hn : ((jar.files.filterMap entryConfig).reverse.map Prod.fst).Nodup := by
    rw [List.map_reverse, List.nodup_reverse]
    exact jar.nodup_files.sublist (sublist_kept _)
  constructor
  · intro h
    obtain ⟨e, he, hcfg⟩ := List.mem_filterMap.1 (List.mem_reverse.1 (mem_of_lookup h))
    obtain ⟨hkept, hname, hread⟩ := entryConfig_eq_some.1 hcfg
    exact ⟨hkept, e, he, hname, hread⟩
  · intro h
    obtain ⟨hkept, e, he, hname, hread⟩ := h
    refine lookup_eq_some hn (List.mem_reverse.2 (List.mem_filterMap.2 ⟨e, he, ?_⟩))
    exact entryConfig_eq_some.2 ⟨hkept, hname, hread⟩

theorem nodup_declaredConfigNames {modsToml fabricJson : Option Bytes} :
    (declaredConfigNames F modsToml fabricJson).Nodup :=
  foldl_keeps (Q := List.Nodup) (fun _ _ hn => nodup_pushNew hn) _ List.nodup_nil

/-- A jar has one file of a name. -/
theorem carries_inj {raw' : Bytes} (h : Carries jar n raw) (h' : Carries jar n raw') :
    raw = raw' := by
  obtain ⟨e, he, hname, hread⟩ := h
  obtain ⟨e', he', hname', hread'⟩ := h'
  have hsame : e = e' := List.inj_on_of_nodup_map jar.nodup_files he he' (hname.trans hname'.symm)
  rw [hsame, hread'] at hread
  exact (Option.some.inj hread).symm

/-- What is collected: of the names in the metadata, the files of mixins that the jar has under a
    name to keep, that are required, and need something of the last classes of their names. -/
theorem mem_scanJar : r ∈ scanJar F jar.archive ↔
    Named F jar r.config ∧ Kept r.config ∧ ∃ raw cfg, Carries jar r.config raw ∧
      F.mixinConfig raw = some cfg ∧ cfg.required = true ∧ r.needs ≠ [] ∧
        r.needs = configNeeds (classes F jar) cfg := by
  rw [scanJar, MixinScan.fromParts, List.mem_filterMap]
  constructor
  · intro h
    obtain ⟨n, hn, hr⟩ := h
    obtain ⟨raw, cfg, hraw, hcfg, hreq, hneeds, rfl⟩ := MixinScan.requiredMixins_eq_some.1 hr
    obtain ⟨hkept, hcarries⟩ := lookup_config.1 hraw
    exact ⟨MixinScan.mem_declaredConfigNames.1 hn, hkept, raw, cfg, hcarries, hcfg, hreq, hneeds,
      rfl⟩
  · intro h
    obtain ⟨hnamed, hkept, raw, cfg, hcarries, hcfg, hreq, hne, hneeds⟩ := h
    refine ⟨r.config, MixinScan.mem_declaredConfigNames.2 hnamed,
      MixinScan.requiredMixins_eq_some.2 ⟨raw, cfg, lookup_config.2 ⟨hkept, hcarries⟩, hcfg, hreq,
        hneeds ▸ hne, ?_⟩⟩
    exact congrArg (RequiredMixins.mk r.config) hneeds

/-- A file of mixins is reported once. -/
theorem nodup_scanJar : ((scanJar F jar.archive).map RequiredMixins.config).Nodup := by
  have hsub (configs : List (String × Bytes)) (l : List ClassInfo) (names : List String) :
      ((names.filterMap (requiredMixins F configs l)).map RequiredMixins.config).Sublist names := by
    induction names with
    | nil => exact .slnil
    | cons n names ih =>
      rcases hr : requiredMixins F configs l n with _ | r
      · rw [List.filterMap_cons_none hr]
        exact ih.cons _
      · obtain ⟨_, _, -, -, -, -, rfl⟩ := MixinScan.requiredMixins_eq_some.1 hr
        rw [List.filterMap_cons_some hr]
        exact ih.cons_cons _
  exact nodup_declaredConfigNames.sublist (hsub _ _ _)

/-- What is collected for a file that is asked for. -/
theorem needs_eq (hr : r ∈ scanJar F jar.archive) (ha : Asked F jar r.config cfg) :
    r.needs = configNeeds (classes F jar) cfg := by
  obtain ⟨-, -, raw, cfg', hcarries, hcfg, -, -, hneeds⟩ := mem_scanJar.1 hr
  obtain ⟨-, ⟨raw', hcarries', hcfg'⟩, -⟩ := ha
  rw [carries_inj hcarries hcarries', hcfg'] at hcfg
  rw [hneeds, Option.some.inj hcfg]

/-- What the last classes of their names need, the classes of the jar do. -/
theorem needs_of_last {t : String}
    (h : ∃ c, Last (classes F jar) c ∧ Lists cfg c ∧ Wants c t) : Needs F jar cfg t := by
  obtain ⟨c, hlast, hlists, hwants⟩ := h
  exact ⟨c, hlast.mem, hlists, hwants⟩

/-- What is collected was asked for. -/
theorem asked_of_mem (hr : r ∈ scanJar F jar.archive) : ∃ cfg, Asked F jar r.config cfg := by
  obtain ⟨hnamed, -, raw, cfg, hcarries, hcfg, hreq, hne, hneeds⟩ := mem_scanJar.1 hr
  obtain ⟨t, ht⟩ := List.exists_mem_of_ne_nil _ hne
  rw [hneeds] at ht
  exact ⟨cfg, hnamed, ⟨raw, hcarries, hcfg⟩, hreq, t, needs_of_last (mem_configNeeds.1 ht)⟩

end Kept

/-- All that a jar asks for is collected with all it needs, if and only if the files have names that
    the walk keeps, and no class that a file lists hides what another one of its name needs. -/
theorem scanJar_exact_iff (F : MixinFormats) (jar : Jar) : Exact F jar ↔ Spelled F jar := by
  constructor
  · intro h n cfg hasked
    obtain ⟨r, hr, rfl⟩ := (h.configs n).2 ⟨cfg, hasked⟩
    refine ⟨(mem_scanJar.1 hr).2.1, fun t ht => ?_⟩
    rw [← ((h.needs r hr cfg hasked).2 t), needs_eq hr hasked] at ht
    exact mem_configNeeds.1 ht
  · intro h
    refine ⟨fun n => ⟨?_, ?_⟩, nodup_scanJar, fun r hr cfg hasked => ?_⟩
    · intro hr
      obtain ⟨r, hr, rfl⟩ := hr
      exact asked_of_mem hr
    · intro hasked
      obtain ⟨cfg, hasked⟩ := hasked
      obtain ⟨hkept, hneeds⟩ := h n cfg hasked
      obtain ⟨hnamed, ⟨raw, hcarries, hcfg⟩, hreq, t, ht⟩ := hasked
      -- Something is needed of a class that is not hidden.
      have hmem : t ∈ configNeeds (classes F jar) cfg := mem_configNeeds.2 (hneeds t ht)
      exact ⟨⟨n, configNeeds (classes F jar) cfg⟩, mem_scanJar.2
        ⟨hnamed, hkept, raw, cfg, hcarries, hcfg, hreq, List.ne_nil_of_mem hmem, rfl⟩, rfl⟩
    · rw [needs_eq hr hasked]
      refine ⟨nodup_configNeeds, fun t => ⟨fun ht => ?_, fun ht => ?_⟩⟩
      · exact needs_of_last (mem_configNeeds.1 ht)
      · exact mem_configNeeds.2 ((h _ cfg hasked).2 t ht)

/-- A jar whose `fabric.mod.json` names a file of mixins in its own way, and the one class of it. -/
def ownWay : Jar where
  archive := .ok [⟨"fabric.mod.json", true, 2, none, .ok [123, 125]⟩,
    ⟨"sable-mixins.json", true, 2, none, .ok [123, 125]⟩, ⟨"Mixin.class", true, 0, none, .ok []⟩]
  unique entries h := by
    obtain rfl := Except.ok.inj h
    decide +kernel

/-- The class is read as a mixin that patches another one, and the file as one that requires it. -/
def ownFormats : MixinFormats :=
  (JarDoors.mixing (fun _ => false) (fun _ => true) "sable-mixins.json").toMixinFormats

theorem asked_ownWay : Asked ownFormats ownWay "sable-mixins.json" JarDoors.mixinConfig := by
  have hfile : (⟨"sable-mixins.json", true, 2, none, .ok [123, 125]⟩ : Entry) ∈ ownWay.files :=
    List.mem_cons_of_mem _ List.mem_cons_self
  have hcls : JarDoors.mixinClass ∈ classes ownFormats ownWay := by
    have hname : isClassName "Mixin.class" = true := by decide +kernel
    refine List.mem_filterMap.2 ⟨⟨"Mixin.class", true, 0, none, .ok []⟩, ?_, if_pos hname⟩
    exact List.mem_cons_of_mem _ (List.mem_cons_of_mem _ List.mem_cons_self)
  refine ⟨⟨by decide, .inr ⟨[123, 125], [.named "sable-mixins.json"], _, ?_, rfl,
    List.mem_singleton_self _, ?_⟩⟩, ⟨_, ⟨_, hfile, rfl, rfl⟩, rfl⟩, rfl, "Patched",
    JarDoors.mixinClass, hcls, ⟨"Mixin", List.mem_singleton_self _, ?_⟩,
    .inl (List.mem_singleton_self _), by decide⟩
  · decide +kernel
  · decide +kernel
  · decide +kernel

/-- What it patches is not collected. -/
theorem scanJar_not_exact : ¬ Exact ownFormats ownWay := by
  intro h
  have hnone : scanJar ownFormats ownWay.archive = [] := by decide +kernel
  obtain ⟨r, hr, -⟩ := (h.configs _).2 ⟨_, asked_ownWay⟩
  rw [hnone] at hr
  exact List.not_mem_nil hr

end MixinExact

end Smrt
