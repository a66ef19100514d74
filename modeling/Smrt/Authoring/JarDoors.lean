import Mathlib.Data.List.Nodup
import Smrt.Authoring.ReadJar

/-!
# The doors of a jar

What a jar declares is read through two doors: by the names of its files (`ModMeta.readModMeta`,
`MixinScan.scanJar`), and in the one pass of the harvest, which meets them in their order
(`readJar`).

* `modsToml_reading`, `fabricJson_reading`: the files that the pass ends up with;
* `modmeta_readJar`: what it declares is what the file says that it picks (`metPick`);
* `agrees_of_samePick`: if both doors pick the same, then what they declare is the same, up to the
  order of the dependencies, unless the tables of the file name several versions of Minecraft;
* `Plain.samePick`: in a jar of plain files they do;
* `doors_agree_iff`: and nothing else will do.
-/

namespace Smrt

namespace JarDoors

open Bootstrap (Bytes Entry Archive)
open Bytecode (ClassInfo entryClass isClassName isMixinConfigName read)
open MixinScan (MixinFormats RequiredMixins MixinConfigJson entryConfig fromParts configNeeds)
open ModMeta
open ReadJar (JarFormats Reading reading readJar)

/-- A jar as a zip has it: no name is there twice. -/
structure Jar where
  archive : Archive
  unique : ∀ entries, archive = .ok entries → (entries.map Entry.name).Nodup

def neoToml : String := "META-INF/neoforge.mods.toml"

def forgeToml : String := "META-INF/mods.toml"

def fabricMod : String := "fabric.mod.json"

/-- What is read of the first entry of a name. -/
def pick (entries : List Entry) (name : String) : Option Bytes :=
  (entries.find? fun e => e.name = name).bind read

namespace Jar

variable (jar : Jar)

def files : List Entry := Bytecode.files jar.archive

theorem nodup_files : (jar.files.map Entry.name).Nodup := by
  rcases h : jar.archive with _ | entries
  · rw [files, h]
    exact .nil
  · rw [files, h]
    exact (jar.unique entries h).sublist (List.filter_sublist.map _)

/-- What is read under a name. -/
def named (name : String) : Option Bytes := readNamed jar.archive name

/-- What is read of a file of this name, if it is met. -/
def met (name : String) : Option Bytes := pick jar.files name

/-- What is left of the two kinds of `mods.toml` after a pass: the newer one wins, and an older one
    before it is gone, even if the newer one cannot be read. -/
def metToml : Option Bytes :=
  match jar.files.find? fun e => e.name = neoToml with
  | none => jar.met forgeToml
  | some e => (read e).or (pick (jar.files.dropWhile fun e => e.name ≠ neoToml) forgeToml)

end Jar

/-! ## What a pass ends up with -/

/-- A fold over distinct keys that changes something at one key only. -/
theorem foldl_unique {α σ τ : Type} (key : α → String) (f : σ → τ) (g : τ → α → τ)
    {step : σ → α → σ} {k : String} (hne : ∀ s a, key a ≠ k → f (step s a) = f s)
    (heq : ∀ s a, key a = k → f (step s a) = g (f s) a) {l : List α}
    (hn : (l.map key).Nodup) (s : σ) :
    f (l.foldl step s) = ((l.find? fun a => key a = k).map (g (f s))).getD (f s) := by
  induction l generalizing s with
  | nil => rfl
  | cons a l ih =>
    obtain ⟨ha, hn⟩ := List.nodup_cons.1 hn
    rw [List.foldl_cons, ih hn]
    by_cases hk : key a = k
    · -- The key does not come again.
      have hnone : l.find? (fun a => key a = k) = none := List.find?_eq_none.2 fun b hb hbk =>
        ha (List.mem_map.2 ⟨b, hb, (of_decide_eq_true hbk).trans hk.symm⟩)
      have hfirst : (a :: l).find? (fun a => key a = k) = some a :=
        List.find?_cons_of_pos (decide_eq_true hk)
      rw [hnone, hfirst, heq s a hk]
      rfl
    · have hrest : (a :: l).find? (fun a => key a = k) = l.find? fun a => key a = k :=
        List.find?_cons_of_neg (by simpa using hk)
      rw [hrest, hne s a hk]

section Find

variable {e : Entry} {l : List Entry} {name : String}

theorem find?_cons_self (h : e.name = name) : ((e :: l).find? fun e => e.name = name) = some e :=
  List.find?_cons_of_pos (decide_eq_true h)

theorem find?_cons_of_ne (h : e.name ≠ name) :
    ((e :: l).find? fun e => e.name = name) = l.find? fun e => e.name = name :=
  List.find?_cons_of_neg (by simpa using h)

theorem find?_eq_none_of_fresh (h : name ∉ l.map Entry.name) :
    (l.find? fun e => e.name = name) = none :=
  List.find?_eq_none.2 fun e he hname => h (List.mem_map.2 ⟨e, he, of_decide_eq_true hname⟩)

theorem pick_cons_of_ne (h : e.name ≠ name) : pick (e :: l) name = pick l name := by
  rw [pick, find?_cons_of_ne h, pick]

end Find

section Pass

variable {F : JarFormats} {r : Reading} {e : Entry}

theorem fabricJson_entry_of_ne (h : e.name ≠ fabricMod) :
    (r.entry F e).fabricJson = r.fabricJson := by
  rw [Reading.entry]
  split_ifs
  any_goals rfl
  · exact absurd ‹_› h
  · rcases read e with _ | raw
    · rfl
    · rfl

theorem fabricJson_entry (h : e.name = fabricMod) : (r.entry F e).fabricJson = read e := by
  rw [Reading.entry, h]
  rfl

/-- What an entry makes of the `mods.toml` that was found. -/
def tomlStep (found : Option Bytes) (e : Entry) : Option Bytes :=
  if e.name = forgeToml then found.or (read e)
  else if e.name = neoToml then read e
  else found

theorem modsToml_entry : (r.entry F e).modsToml = tomlStep r.modsToml e := by
  rw [tomlStep]
  by_cases hf : e.name = forgeToml
  · rw [if_pos hf, Reading.entry, hf]
    rfl
  · rw [if_neg hf]
    by_cases hn : e.name = neoToml
    · rw [if_pos hn, Reading.entry, hn]
      rfl
    · rw [if_neg hn, Reading.entry]
      split_ifs
      any_goals rfl
      · exact absurd ‹_› hf
      · exact absurd ‹_› hn
      · rcases read e with _ | raw
        · rfl
        · rfl

variable (F) (jar : Jar)

theorem fabricJson_reading : (reading F jar.archive).fabricJson = jar.met fabricMod := by
  have h := foldl_unique Entry.name Reading.fabricJson (fun _ => read)
    (fun r e => fabricJson_entry_of_ne (F := F)) (fun r e => fabricJson_entry) jar.nodup_files
    .start
  refine h.trans ?_
  rw [Jar.met, pick]
  rcases jar.files.find? _ with _ | e
  · rfl
  · rfl

/-- What a run over distinct names leaves of the two kinds of `mods.toml`. -/
theorem foldl_tomlStep {l : List Entry} (hn : (l.map Entry.name).Nodup) (found : Option Bytes) :
    l.foldl tomlStep found =
      match l.find? fun e => e.name = neoToml with
      | none => found.or (pick l forgeToml)
      | some e => (read e).or (pick (l.dropWhile fun e => e.name ≠ neoToml) forgeToml) := by
  induction l generalizing found with
  | nil => exact Option.or_none.symm
  | cons e l ih =>
    obtain ⟨he, hn⟩ := List.nodup_cons.1 hn
    rw [List.foldl_cons, ih hn]
    by_cases hneo : e.name = neoToml
    · -- What was found before is gone, and there is no other one of this name.
      have hrest : l.find? (fun e' => e'.name = neoToml) = none :=
        find?_eq_none_of_fresh (hneo ▸ he)
      have hforge : e.name ≠ forgeToml := by rw [hneo]; decide
      have hstep : tomlStep found e = read e := by rw [tomlStep, if_neg hforge, if_pos hneo]
      rw [hrest, find?_cons_self hneo, hstep]
      dsimp only
      rw [List.dropWhile_cons_of_neg (by simpa using hneo), pick_cons_of_ne hforge]
    · rw [find?_cons_of_ne hneo, List.dropWhile_cons_of_pos (by simpa using hneo)]
      by_cases hforge : e.name = forgeToml
      · have hstep : tomlStep found e = found.or (read e) := by rw [tomlStep, if_pos hforge]
        rw [hstep]
        rcases hl : (l.find? fun e' => e'.name = neoToml : Option Entry) with _ | e'
        · dsimp only
          have hnone : pick l forgeToml = none := by
            rw [pick, find?_eq_none_of_fresh (hforge ▸ he), Option.bind_none]
          rw [hnone, Option.or_none, pick, find?_cons_self hforge, Option.bind_some]
        · rfl
      · have hstep : tomlStep found e = found := by rw [tomlStep, if_neg hforge, if_neg hneo]
        rw [hstep, pick_cons_of_ne hforge]

theorem modsToml_reading : (reading F jar.archive).modsToml = jar.metToml := by
  have h : (reading F jar.archive).modsToml = jar.files.foldl tomlStep none :=
    (List.foldl_hom Reading.modsToml fun _ _ => modsToml_entry.symm).symm
  rw [h, foldl_tomlStep jar.nodup_files, Jar.metToml]
  rcases jar.files.find? _ with _ | e
  · exact Option.none_or
  · rfl

end Pass

/-! ## What is picked -/

/-- A file that says what a jar declares. -/
inductive Pick
  | toml (text : String)
  | json (bytes : Bytes)
  deriving DecidableEq

/-- What a file declares; no file declares nothing. -/
def declares (F : Formats) : Option Pick → ModMeta
  | some (.toml text) => tomlMeta F text
  | some (.json bytes) => jsonMeta F bytes
  | none => {}

namespace Jar

variable (jar : Jar)

/-- The file that is picked by name: the first one that can be read, and is a text if it is TOML. -/
def namedPick : Option Pick :=
  ((((jar.named neoToml).bind fromUtf8).or ((jar.named forgeToml).bind fromUtf8)).map Pick.toml).or
    ((jar.named fabricMod).map Pick.json)

/-- The file that is picked after a pass: what is left of the two kinds of `mods.toml`, and if
    nothing is left, the other one. -/
def metPick : Option Pick :=
  match jar.metToml with
  | some t => (fromUtf8 t).map Pick.toml
  | none => (jar.met fabricMod).map Pick.json

/-- The `mods.toml` that names the files of mixins, by name. -/
def namedText : Option String := ((jar.named neoToml).or (jar.named forgeToml)).bind fromUtf8

/-- The `mods.toml` that names the files of mixins, after a pass. -/
def metText : Option String := jar.metToml.bind fromUtf8

theorem readModMeta_eq (F : Formats) : readModMeta F jar.archive = declares F jar.namedPick := by
  have hneo : readNamed jar.archive "META-INF/neoforge.mods.toml" = jar.named neoToml := rfl
  have hforge : readNamed jar.archive "META-INF/mods.toml" = jar.named forgeToml := rfl
  have hfabric : readNamed jar.archive "fabric.mod.json" = jar.named fabricMod := rfl
  rw [readModMeta, namedPick, hneo, hforge, hfabric]
  rcases (jar.named neoToml).bind fromUtf8 with _ | text
  · rcases (jar.named forgeToml).bind fromUtf8 with _ | text
    · rcases jar.named fabricMod with _ | bytes
      · rfl
      · rfl
    · rfl
  · rfl

theorem declared_reading (F : JarFormats) :
    (reading F jar.archive).declared F = declares F.toFormats jar.metPick := by
  rw [Reading.declared, modsToml_reading, fabricJson_reading, metPick]
  rcases jar.metToml with _ | t
  · rcases jar.met fabricMod with _ | f
    · rfl
    · rfl
  · dsimp only
    rcases fromUtf8 t with _ | text
    · rfl
    · rfl

/-- The harvest has what the file declares that it picks, but for the version. -/
theorem modmeta_readJar (F : JarFormats) : ∃ version, (readJar F jar.archive).modmeta =
    { declares F.toFormats jar.metPick with version := version } := by
  rcases ha : jar.archive with _ | entries
  · -- There are no files.
    have hreading : reading F jar.archive = .start := by rw [ha]; rfl
    rw [← declared_reading, hreading]
    exact ⟨none, rfl⟩
  · have hmeta : (readJar F (.ok entries)).modmeta = (reading F jar.archive).modmeta F := by
      rw [ha]
      rfl
    rw [hmeta, Reading.modmeta, declared_reading]
    split_ifs
    · exact ⟨_, rfl⟩
    · exact ⟨_, rfl⟩

end Jar

/-! ## Reading a file twice -/

/-- The same file, with its tables in any order. -/
structure SameToml (m m' : ModsToml) : Prop where
  mods : m.mods = m'.mods
  logoFile : m.logoFile = m'.logoFile
  dependencies : m.dependencies.Same m'.dependencies

/-- The same file, with its members in any order. -/
structure SameJson (m m' : FabricModJson) : Prop where
  id : m.id = m'.id
  name : m.name = m'.name
  depends : m.depends.Same m'.depends
  recommends : m.recommends.Same m'.recommends
  suggests : m.suggests.Same m'.suggests
  breaks : m.breaks.Same m'.breaks
  conflicts : m.conflicts.Same m'.conflicts

/-- The same files, as they are read at two times. -/
structure SameFiles (F F' : JarFormats) : Prop where
  decoders : F.toDecoders = F'.toDecoders
  toml : ∀ text, Option.Rel SameToml (F.toml text) (F'.toml text)
  json : ∀ bytes, Option.Rel SameJson (F.json bytes) (F'.json bytes)
  tomlMixins : F.tomlMixins = F'.tomlMixins
  jsonMixins : F.jsonMixins = F'.jsonMixins
  mixinConfig : F.mixinConfig = F'.mixinConfig

/-- The same declarations; the dependencies and the loaders are listed in any order. -/
structure SameDeclared (m m' : ModMeta) : Prop where
  modid : m.modid = m'.modid
  displayName : m.displayName = m'.displayName
  mc : m.mc = m'.mc
  deps : m.deps.Perm m'.deps
  loaderReqs : m.loaderReqs.Perm m'.loaderReqs

theorem SameDeclared.refl (m : ModMeta) : SameDeclared m m := ⟨rfl, rfl, rfl, .refl _, .refl _⟩

/-- The version of Minecraft that a table of dependencies names first. -/
def tableMc (rows : List ModsTomlDep) : Option String := (rows.map tomlRow).findSome? TomlRow.mc

/-- No two tables of a file name different versions of Minecraft. -/
def OneMc (m : ModsToml) : Prop :=
  ∀ t ∈ m.dependencies.values, ∀ t' ∈ m.dependencies.values, ∀ v v', tableMc t = some v →
    tableMc t' = some v' → v = v'

theorem findSome?_flatten_tomlRow (l : List (List ModsTomlDep)) :
    (l.flatten.map tomlRow).findSome? TomlRow.mc = l.findSome? tableMc := by
  induction l with
  | nil => rfl
  | cons rows l ih =>
    rw [List.flatten_cons, List.map_append, List.findSome?_append, ih, List.findSome?_cons]
    change (tableMc rows).or _ = _
    rcases tableMc rows with _ | v
    · rfl
    · rfl

/-- What is found first of what is all the same does not depend on the order. -/
theorem findSome?_eq_of_perm {α β : Type} {f : α → Option β} {l l' : List α} (hp : l.Perm l')
    (h : ∀ a ∈ l, ∀ a' ∈ l, ∀ b b', f a = some b → f a' = some b' → b = b') :
    l.findSome? f = l'.findSome? f := by
  rcases hb : l.findSome? f with _ | b
  · refine (List.findSome?_eq_none_iff.2 fun a ha => ?_).symm
    exact List.findSome?_eq_none_iff.1 hb a (hp.mem_iff.2 ha)
  · obtain ⟨a, ha, hfa⟩ := List.exists_of_findSome?_eq_some hb
    rcases hb' : l'.findSome? f with _ | b'
    · rw [List.findSome?_eq_none_iff.1 hb' a (hp.mem_iff.1 ha)] at hfa
      exact hfa.symm
    · obtain ⟨a', ha', hfa'⟩ := List.exists_of_findSome?_eq_some hb'
      rw [h a ha a' (hp.mem_iff.2 ha') b b' hfa hfa']

theorem sameDeclared_toml {m m' : ModsToml} (h : SameToml m m') (hmc : OneMc m) :
    SameDeclared (parseModsToml m) (parseModsToml m') := by
  have hrows : m.rows.Perm m'.rows := h.dependencies.values.flatten.map _
  refine ⟨?_, ?_, ?_, hrows.filterMap _, hrows.filterMap _⟩
  · change (readMods m.mods).modid = (readMods m'.mods).modid
    rw [h.mods]
  · change (readMods m.mods).displayName = (readMods m'.mods).displayName
    rw [h.mods]
  · change m.rows.findSome? TomlRow.mc = m'.rows.findSome? TomlRow.mc
    rw [ModsToml.rows, ModsToml.rows, findSome?_flatten_tomlRow, findSome?_flatten_tomlRow]
    exact findSome?_eq_of_perm h.dependencies.values hmc

theorem perm_fabricDeps {m m' : HashMap VersionPredicate} (h : m.Same m') (kind : Registry.RelKind)
    (severity : Option Registry.Severity) :
    (fabricDeps m kind severity).Perm (fabricDeps m' kind severity) := h.filterMap _

theorem sameDeclared_json {m m' : FabricModJson} (h : SameJson m m') :
    SameDeclared (parseFabricJson m) (parseFabricJson m') := by
  have hdeps : m.deps.Perm m'.deps :=
    ((((perm_fabricDeps h.depends _ _).append (perm_fabricDeps h.recommends _ _)).append
      (perm_fabricDeps h.suggests _ _)).append (perm_fabricDeps h.breaks _ _)).append
      (perm_fabricDeps h.conflicts _ _)
  have hreqs : (fabricLoaderReqs m.depends).Perm (fabricLoaderReqs m'.depends) :=
    h.depends.filterMap _
  refine ⟨?_, ?_, ?_, ?_, ?_⟩
  · rw [parseFabricJson, parseFabricJson, h.id]
  · rw [parseFabricJson, parseFabricJson, h.name]
  · rw [parseFabricJson, parseFabricJson, h.depends.get]
  · exact (List.perm_insertionSort _ _).trans (hdeps.trans (List.perm_insertionSort _ _).symm)
  · exact (List.perm_insertionSort _ _).trans (hreqs.trans (List.perm_insertionSort _ _).symm)

/-- The file that is picked does not name several versions of Minecraft in its tables. -/
def Steady (F : Formats) (pick : Option Pick) : Prop :=
  ∀ text, pick = some (.toml text) → ∀ m, F.toml text = some m → OneMc m

/-- Two readings of a file that is parsed, or is not. -/
theorem getD_of_rel {α : Type} {S : α → α → Prop} {parse : α → ModMeta} {a b : Option α}
    {P : ModMeta → ModMeta → Prop} (hrel : Option.Rel S a b) (h₀ : P {} {})
    (h : ∀ m m', a = some m → S m m' → P (parse m) (parse m')) :
    P ((a.map parse).getD {}) ((b.map parse).getD {}) := by
  rcases hrel with hsame | _
  · exact h _ _ rfl hsame
  · exact h₀

theorem sameDeclared_declares {F F' : JarFormats} (h : SameFiles F F') {pick : Option Pick}
    (hmc : Steady F.toFormats pick) :
    SameDeclared (declares F.toFormats pick) (declares F'.toFormats pick) := by
  rcases pick with _ | ⟨text | bytes⟩
  · exact .refl _
  · exact getD_of_rel (h.toml text) (.refl _) fun m _ hm hsame =>
      sameDeclared_toml hsame (hmc text rfl m hm)
  · exact getD_of_rel (h.json bytes) (.refl _) fun _ _ _ hsame => sameDeclared_json hsame

/-- The loaders are the same ones, whatever the tables say of Minecraft. -/
theorem perm_loaderReqs {F F' : JarFormats} (h : SameFiles F F') (pick : Option Pick) :
    (declares F.toFormats pick).loaderReqs.Perm (declares F'.toFormats pick).loaderReqs := by
  rcases pick with _ | ⟨text | bytes⟩
  · exact .refl _
  · exact getD_of_rel (P := fun m m' => m.loaderReqs.Perm m'.loaderReqs) (h.toml text) (.refl _)
      fun m m' _ hsame => (hsame.dependencies.values.flatten.map tomlRow).filterMap _
  · exact getD_of_rel (P := fun m m' => m.loaderReqs.Perm m'.loaderReqs) (h.json bytes) (.refl _)
      fun _ _ _ hsame => (sameDeclared_json hsame).loaderReqs

/-! ## Mixins of both doors -/

namespace Jar

variable (jar : Jar)

/-- What the harvest reports of the mixins is made of what it ends up with. -/
theorem requiredMixins_readJar (F : JarFormats) : (readJar F jar.archive).requiredMixins =
    fromParts F.toMixinFormats jar.metToml (jar.met fabricMod) (jar.files.filterMap entryConfig)
      (jar.files.filterMap (entryClass F.toDecoders)) := by
  rcases ha : jar.archive with _ | entries
  · have hreading : reading F jar.archive = .start := by rw [ha]; rfl
    rw [← modsToml_reading F, ← fabricJson_reading F, hreading]
    rfl
  · have hmixins : (readJar F (.ok entries)).requiredMixins =
        fromParts F.toMixinFormats (reading F jar.archive).modsToml
          (reading F jar.archive).fabricJson (reading F jar.archive).configs
          (reading F jar.archive).classes := by
      rw [ha]
      rfl
    rw [hmixins, modsToml_reading, fabricJson_reading, ReadJar.reading_configs,
      ReadJar.reading_classes]
    rfl

theorem scanJar_eq (F : MixinFormats) : MixinScan.scanJar F jar.archive =
    fromParts F ((jar.named neoToml).or (jar.named forgeToml)) (jar.named fabricMod)
      (jar.files.filterMap entryConfig) (jar.files.filterMap (entryClass F.toDecoders)) := rfl

/-- A jar can have mixins to report: there is a class that can be read, and a file of mixins that
    metadata can name. -/
structure Mixes : Prop where
  config : ∃ p ∈ jar.files.filterMap entryConfig, trim p.1 = p.1 ∧ p.1 ≠ ""
  cls : ∃ e ∈ jar.files, isClassName e.name = true ∧ (read e).isSome

end Jar

section Mixins

variable {F F' : MixinFormats} {configs : List (String × Bytes)} {classes : List ClassInfo}

/-- Only the text of a `mods.toml` is read. -/
theorem fromParts_congr {t t' j : Option Bytes} (h : t.bind fromUtf8 = t'.bind fromUtf8) :
    fromParts F t j configs classes = fromParts F t' j configs classes := by
  rw [fromParts, fromParts, MixinScan.declaredConfigNames, MixinScan.declaredConfigNames, h]

theorem fromParts_sameFormats {t j : Option Bytes} (ht : F.tomlMixins = F'.tomlMixins)
    (hj : F.jsonMixins = F'.jsonMixins) (hc : F.mixinConfig = F'.mixinConfig) :
    fromParts F t j configs classes = fromParts F' t j configs classes := by
  have hstep : MixinScan.requiredMixins F configs classes =
      MixinScan.requiredMixins F' configs classes := by
    funext name
    rw [MixinScan.requiredMixins, MixinScan.requiredMixins, hc]
  rw [fromParts, fromParts, MixinScan.declaredConfigNames, MixinScan.declaredConfigNames, ht, hj,
    hstep]

/-- Without classes nothing is needed. -/
theorem configNeeds_nil (cfg : MixinConfigJson) : configNeeds [] cfg = [] := by
  rw [configNeeds]
  induction cfg.mixins ++ cfg.client ++ cfg.server with
  | nil => rfl
  | cons simple l ih => exact ih

/-- A jar that cannot have mixins to report has none. -/
theorem fromParts_eq_nil {jar : Jar} (h : ¬ jar.Mixes) (t j : Option Bytes) :
    fromParts F t j (jar.files.filterMap entryConfig)
      (jar.files.filterMap (entryClass F.toDecoders)) = [] := by
  rw [fromParts, List.filterMap_eq_nil_iff]
  intro name hname
  by_contra hne
  obtain ⟨r, hr⟩ := Option.ne_none_iff_exists'.1 hne
  obtain ⟨raw, cfg, hraw, -, -, hneeds, -⟩ := MixinScan.requiredMixins_eq_some.1 hr
  refine h ⟨⟨(name, raw), ?_, ?_⟩, ?_⟩
  · exact List.mem_reverse.1 (mem_of_lookup hraw)
  · obtain ⟨hne, hs⟩ := MixinScan.mem_declaredConfigNames.1 hname
    refine ⟨?_, hne⟩
    rcases hs with ⟨-, -, s, -, -, -, rfl⟩ | ⟨-, -, m, -, -, -, rfl⟩
    · exact trim_trim s
    · exact trim_trim m.config
  · by_contra hno
    refine hneeds ?_
    have hnil : jar.files.filterMap (entryClass F.toDecoders) = [] := by
      rw [List.filterMap_eq_nil_iff]
      intro e he
      by_cases hc : isClassName e.name = true
      · rcases hread : read e with _ | raw
        · rw [entryClass, if_pos hc, hread, Option.bind_none]
        · exact absurd ⟨e, he, hc, by rw [hread]; rfl⟩ hno
      · rw [entryClass, if_neg hc]
    rw [hnil, configNeeds_nil]

end Mixins

/-! ## Agreement -/

/-- The doors of a jar agree on what it declares, whenever its files are read again. -/
structure Agrees (F : JarFormats) (jar : Jar) : Prop where
  mixins : ∀ F', SameFiles F F' →
    MixinScan.scanJar F.toMixinFormats jar.archive = (readJar F' jar.archive).requiredMixins
  declared : ∀ F', SameFiles F F' →
    SameDeclared (readModMeta F.toFormats jar.archive) (readJar F' jar.archive).modmeta

/-- Both doors pick the same file, and if the jar can have mixins to report, the same files that
    name them. -/
structure SamePick (jar : Jar) : Prop where
  declared : jar.namedPick = jar.metPick
  mixins : jar.Mixes →
    jar.namedText = jar.metText ∧ jar.named fabricMod = jar.met fabricMod

variable {F : JarFormats} {jar : Jar}

theorem agrees_of_samePick (h : SamePick jar) (hF : Steady F.toFormats jar.namedPick) :
    Agrees F jar := by
  constructor
  · intro F' hsame
    rw [Jar.scanJar_eq, Jar.requiredMixins_readJar]
    by_cases hmix : jar.Mixes
    · obtain ⟨htext, hfabric⟩ := h.mixins hmix
      rw [fromParts_congr htext, hfabric, ← hsame.decoders]
      exact fromParts_sameFormats hsame.tomlMixins hsame.jsonMixins hsame.mixinConfig
    · rw [fromParts_eq_nil hmix, fromParts_eq_nil hmix]
  · intro F' hsame
    obtain ⟨version, hversion⟩ := jar.modmeta_readJar F'
    rw [hversion, jar.readModMeta_eq, ← h.declared]
    -- The version is not compared.
    have hd := sameDeclared_declares hsame hF
    exact ⟨hd.modid, hd.displayName, hd.mc, hd.deps, hd.loaderReqs⟩

/-- The files that declare something are files, those that are met can be read, and those of the
    newer loader and of the older one are texts. -/
structure Plain (jar : Jar) : Prop where
  files : ∀ name ∈ [neoToml, forgeToml, fabricMod], jar.named name = jar.met name
  readable : ∀ e ∈ jar.files, e.name = neoToml → (read e).isSome
  text : ∀ name ∈ [neoToml, forgeToml], ∀ b, jar.named name = some b → (fromUtf8 b).isSome

/-- In a jar of plain files it does not matter in which order they are. -/
theorem Plain.samePick (h : Plain jar) : SamePick jar := by
  have hneo := h.files neoToml (by decide)
  have hforge := h.files forgeToml (by decide)
  have hfabric := h.files fabricMod (by decide)
  have htoml : jar.metToml = (jar.named neoToml).or (jar.named forgeToml) := by
    rw [Jar.metToml, hneo, hforge]
    rcases hf : (jar.files.find? fun e => e.name = neoToml : Option Entry) with _ | e
    · have hnone : jar.met neoToml = none := by rw [Jar.met, pick, hf, Option.bind_none]
      rw [hnone, Option.none_or]
    · have hname : e.name = neoToml := by simpa using List.find?_some hf
      obtain ⟨b, hb⟩ := Option.isSome_iff_exists.1
        (h.readable e (List.mem_of_find?_eq_some hf) hname)
      have hmet : jar.met neoToml = some b := by rw [Jar.met, pick, hf, Option.bind_some, hb]
      dsimp only
      rw [hmet, hb, Option.some_or, Option.some_or]
  refine ⟨?_, fun _ => ⟨?_, hfabric⟩⟩
  · rw [Jar.namedPick, Jar.metPick, htoml, ← hfabric]
    rcases hn : jar.named neoToml with _ | n
    · rcases hm : jar.named forgeToml with _ | m
      · rfl
      · obtain ⟨text, htext⟩ := Option.isSome_iff_exists.1 (h.text forgeToml (by decide) m hm)
        simp [htext]
    · obtain ⟨text, htext⟩ := Option.isSome_iff_exists.1 (h.text neoToml (by decide) n hn)
      simp [htext]
  · rw [Jar.namedText, Jar.metText, htoml]

/-! ## Where the doors differ -/

theorem SameFiles.refl (F : JarFormats) : SameFiles F F := by
  refine ⟨rfl, fun text => ?_, fun bytes => ?_, rfl, rfl, rfl⟩
  · rcases F.toml text with _ | m
    · exact .none
    · exact .some ⟨rfl, rfl, .refl _⟩
  · rcases F.json bytes with _ | m
    · exact .none
    · exact .some ⟨rfl, rfl, .refl _, .refl _, .refl _, .refl _, .refl _⟩

/-- Files that say nothing. -/
def mute : JarFormats where
  parseClass _ := none
  lossy _ := ""
  toml _ := none
  json _ := none
  tomlMixins _ := none
  jsonMixins _ := none
  mixinConfig _ := none
  mods _ := none
  modList _ := none

/-- A `mods.toml` of one mod. -/
def tomlOf (modid : String) : ModsToml := ⟨[⟨some modid, none, none, none, none⟩], none, .empty⟩

def jsonOf (modid : String) : FabricModJson :=
  ⟨some modid, none, none, none, none, .empty, .empty, .empty, .empty, .empty, .empty⟩

/-- One file declares a mod, and no other one says anything. -/
def speaking (pick : Pick) : JarFormats :=
  { mute with
    toml := fun text => if pick = .toml text then some (tomlOf "mod") else none
    json := fun bytes => if pick = .json bytes then some (jsonOf "mod") else none }

theorem steady_speaking (pick : Pick) (other : Option Pick) :
    Steady (speaking pick).toFormats other := by
  intro text _ m hm t ht
  obtain ⟨-, hm⟩ := Option.ite_none_right_eq_some.1 hm
  obtain rfl := Option.some.inj hm
  exact absurd ht List.not_mem_nil

/-- A mod is declared where the file that speaks is the one that is picked. -/
theorem modid_speaking (pick : Pick) (other : Option Pick) :
    (declares (speaking pick).toFormats other).modid = some "mod" ↔ other = some pick := by
  rcases other with _ | ⟨text | bytes⟩
  · exact iff_of_false (Option.some_ne_none _).symm (Option.some_ne_none _).symm
  · by_cases h : pick = .toml text
    · subst h
      refine iff_of_true ?_ rfl
      rw [declares, tomlMeta, speaking]
      dsimp only
      rw [if_pos rfl]
      decide +kernel
    · refine iff_of_false ?_ fun he => h (Option.some.inj he).symm
      rw [declares, tomlMeta, speaking]
      dsimp only
      rw [if_neg h]
      exact (Option.some_ne_none _).symm
  · by_cases h : pick = .json bytes
    · subst h
      refine iff_of_true ?_ rfl
      rw [declares, jsonMeta, speaking]
      dsimp only
      rw [if_pos rfl]
      decide +kernel
    · refine iff_of_false ?_ fun he => h (Option.some.inj he).symm
      rw [declares, jsonMeta, speaking]
      dsimp only
      rw [if_neg h]
      exact (Option.some_ne_none _).symm

/-- If the doors agree whatever one file declares, they pick the same. -/
theorem namedPick_eq_metPick (h : ∀ pick, Agrees (speaking pick) jar) :
    jar.namedPick = jar.metPick := by
  refine Option.ext fun pick => ?_
  have hd := (h pick).declared _ (.refl _)
  obtain ⟨version, hversion⟩ := jar.modmeta_readJar (speaking pick)
  rw [hversion, jar.readModMeta_eq] at hd
  have hmodid : (declares (speaking pick).toFormats jar.namedPick).modid =
      (declares (speaking pick).toFormats jar.metPick).modid := hd.modid
  rw [← modid_speaking, hmodid, modid_speaking]

/-- A mixin that patches another class. -/
def mixinClass : ClassInfo := ⟨"Mixin", [], ["Patched"], false, none⟩

/-- A file of mixins that requires it. -/
def mixinConfig : MixinConfigJson := ⟨true, "", ["Mixin"], [], []⟩

/-- A jar of such classes needs what they patch. -/
theorem configNeeds_mixinConfig {classes : List ClassInfo} (hall : ∀ c ∈ classes, c = mixinClass)
    (hne : classes ≠ []) : configNeeds classes mixinConfig ≠ [] := by
  have hfind : (classes.reverse.find? fun c => c.thisClass = MixinScan.mixinClassName "" "Mixin") =
      some mixinClass := by
    rcases hf : (classes.reverse.find? fun c =>
      c.thisClass = MixinScan.mixinClassName "" "Mixin" : Option ClassInfo) with _ | c
    · obtain ⟨c, hc⟩ := List.exists_mem_of_ne_nil _ hne
      refine absurd ?_ (List.find?_eq_none.1 hf c (List.mem_reverse.2 hc))
      rw [hall c hc]
      decide +kernel
    · rw [hall c (List.mem_reverse.1 (List.mem_of_find?_eq_some hf))]
  have hneeds : configNeeds classes mixinConfig = MixinScan.needsOf [] mixinClass := by
    rw [configNeeds, mixinConfig, List.append_nil, List.append_nil, List.foldl_cons, hfind]
    rfl
  rw [hneeds]
  decide

/-- Every class is such a mixin; the files that are marked name one file of mixins, which requires
    it. -/
def mixing (text : String → Bool) (bytes : Bytes → Bool) (name : String) : JarFormats :=
  { mute with
    parseClass := fun _ => some mixinClass
    tomlMixins := fun t => if text t then some [some name] else none
    jsonMixins := fun b => if bytes b then some [.named name] else none
    mixinConfig := fun _ => some mixinConfig }

theorem steady_mixing (text : String → Bool) (bytes : Bytes → Bool) (name : String)
    (pick : Option Pick) : Steady (mixing text bytes name).toFormats pick :=
  fun _ _ _ hm => nomatch hm

/-- Something is reported exactly if a file that is marked is looked at. -/
theorem fromParts_mixing_ne_nil_iff (text : String → Bool) (bytes : Bytes → Bool) {name : String}
    {raw : Bytes} (hraw : (name, raw) ∈ jar.files.filterMap entryConfig) (hname : trim name = name)
    (hne : name ≠ "") (hcls : ∃ e ∈ jar.files, isClassName e.name = true ∧ (read e).isSome)
    (t j : Option Bytes) :
    fromParts (mixing text bytes name).toMixinFormats t j (jar.files.filterMap entryConfig)
        (jar.files.filterMap (entryClass (mixing text bytes name).toDecoders)) ≠ [] ↔
      (∃ x, t.bind fromUtf8 = some x ∧ text x = true) ∨ ∃ b, j = some b ∧ bytes b = true := by
  constructor
  · intro h
    obtain ⟨r, hr⟩ := List.exists_mem_of_ne_nil _ h
    obtain ⟨n, hn, -⟩ := List.mem_filterMap.1 hr
    rcases (MixinScan.mem_declaredConfigNames.1 hn).2 with
      ⟨x, l, s, hx, hl, -⟩ | ⟨b, l, m, hb, hl, -⟩
    · exact .inl ⟨x, hx, (Option.ite_none_right_eq_some.1 hl).1⟩
    · exact .inr ⟨b, hb, (Option.ite_none_right_eq_some.1 hl).1⟩
  · intro h
    have hdeclared :
        name ∈ MixinScan.declaredConfigNames (mixing text bytes name).toMixinFormats t j := by
      refine MixinScan.mem_declaredConfigNames.2 ⟨hne, ?_⟩
      rcases h with ⟨x, hx, htext⟩ | ⟨b, hb, hbytes⟩
      · exact .inl ⟨x, [some name], name, hx, if_pos htext, List.mem_singleton_self _, hname⟩
      · exact .inr
          ⟨b, [.named name], .named name, hb, if_pos hbytes, List.mem_singleton_self _, hname⟩
    obtain ⟨raw', hlookup⟩ : ∃ raw', (jar.files.filterMap entryConfig).reverse.lookup name =
        some raw' := by
      rcases hl : (jar.files.filterMap entryConfig).reverse.lookup name with _ | raw'
      · exact absurd rfl (bne_iff_ne.1
          (List.lookup_eq_none_iff.1 hl _ (List.mem_reverse.2 hraw)))
      · exact ⟨raw', rfl⟩
    have hneeds : configNeeds (jar.files.filterMap
        (entryClass (mixing text bytes name).toDecoders)) mixinConfig ≠ [] := by
      refine configNeeds_mixinConfig (fun c hc => ?_) ?_
      · obtain ⟨e, -, hc⟩ := List.mem_filterMap.1 hc
        obtain ⟨-, hc⟩ := Option.ite_none_right_eq_some.1 hc
        obtain ⟨_, -, hc⟩ := Option.bind_eq_some_iff.1 hc
        exact (Option.some.inj hc).symm
      · obtain ⟨e, he, hc, hread⟩ := hcls
        obtain ⟨b, hb⟩ := Option.isSome_iff_exists.1 hread
        refine List.ne_nil_of_mem (List.mem_filterMap.2 ⟨e, he, ?_⟩ : mixinClass ∈ _)
        rw [entryClass, if_pos hc, hb]
        rfl
    have hconfig : (mixing text bytes name).mixinConfig raw' = some mixinConfig := rfl
    have hrequired := MixinScan.requiredMixins_eq_some.2
      ⟨raw', mixinConfig, hlookup, hconfig, rfl, hneeds, rfl⟩
    exact List.ne_nil_of_mem (List.mem_filterMap.2 ⟨name, hdeclared, hrequired⟩)

/-- If the doors agree whatever the files say, they look at the same ones for mixins. -/
theorem mixins_of_agrees (hmix : jar.Mixes)
    (h : ∀ text bytes name, Agrees (mixing text bytes name) jar) :
    jar.namedText = jar.metText ∧ jar.named fabricMod = jar.met fabricMod := by
  obtain ⟨⟨⟨name, raw⟩, hraw, hname, hne⟩, hcls⟩ := hmix
  -- Both doors report a file of mixins, or neither does.
  have hiff (text : String → Bool) (bytes : Bytes → Bool) :
      ((∃ x, jar.namedText = some x ∧ text x = true) ∨
        ∃ b, jar.named fabricMod = some b ∧ bytes b = true) ↔
      ((∃ x, jar.metText = some x ∧ text x = true) ∨
        ∃ b, jar.met fabricMod = some b ∧ bytes b = true) := by
    have he := (h text bytes name).mixins _ (.refl _)
    rw [Jar.scanJar_eq, Jar.requiredMixins_readJar] at he
    have hs := fromParts_mixing_ne_nil_iff text bytes hraw hname hne hcls
    rw [Jar.namedText, Jar.metText, ← hs, ← hs, he]
  constructor
  · refine Option.ext fun x => ?_
    have hx := hiff (fun y => y = x) fun _ => false
    simpa using hx
  · refine Option.ext fun b => ?_
    have hb := hiff (fun _ => false) fun y => y = b
    simpa using hb

theorem samePick_of_agrees (h : ∀ F : JarFormats, Steady F.toFormats jar.namedPick → Agrees F jar) :
    SamePick jar where
  declared := namedPick_eq_metPick fun pick => h _ (steady_speaking pick _)
  mixins hmix := mixins_of_agrees hmix fun text bytes name => h _ (steady_mixing text bytes name _)

/-- A map with a row in front of the others. -/
theorem exists_same_cons {α : Type} {m : HashMap α} {a : α} (ha : a ∈ m.values) :
    ∃ m' : HashMap α, m.Same m' ∧ ∃ l, m'.values = a :: l := by
  obtain ⟨⟨k, a⟩, hrow, rfl⟩ := List.mem_map.1 ha
  obtain ⟨u, v, huv⟩ := List.append_of_mem hrow
  have hp : m.rows.Perm ((k, a) :: (u ++ v)) := huv ▸ List.perm_middle
  exact ⟨⟨(k, a) :: (u ++ v), (hp.map _).nodup_iff.1 m.nodup⟩, hp, _, rfl⟩

/-- The files, read again: one `mods.toml` with its tables in another order. -/
def rereading (F : JarFormats) (text : String) (m : ModsToml) : JarFormats :=
  { F with toml := fun text' => if text' = text then some m else F.toml text' }

theorem sameFiles_rereading {text : String} {m m' : ModsToml} (hm : F.toml text = some m)
    (h : SameToml m m') : SameFiles F (rereading F text m') := by
  refine { SameFiles.refl F with toml := fun text' => ?_ }
  by_cases he : text' = text
  · have htoml : (rereading F text m').toml text' = some m' := if_pos he
    rw [htoml, he, hm]
    exact .some h
  · have htoml : (rereading F text m').toml text' = F.toml text' := if_neg he
    rw [htoml]
    exact (SameFiles.refl F).toml text'

/-- A file of several versions of Minecraft may be read with any table first. -/
theorem mc_of_agrees (hpick : jar.namedPick = jar.metPick) (h : Agrees F jar) {text : String}
    (htext : jar.namedPick = some (.toml text)) {m : ModsToml} (hm : F.toml text = some m)
    {t : List ModsTomlDep} (ht : t ∈ m.dependencies.values) {v : String} (hv : tableMc t = some v) :
    (readModMeta F.toFormats jar.archive).mc = some v := by
  obtain ⟨deps, hsame, l, hl⟩ := exists_same_cons ht
  -- The file is read again with this table first.
  have hreread : SameToml m { m with dependencies := deps } := ⟨rfl, rfl, hsame⟩
  have htoml : (rereading F text { m with dependencies := deps }).toml text =
      some { m with dependencies := deps } := if_pos rfl
  obtain ⟨version, hversion⟩ :=
    jar.modmeta_readJar (rereading F text { m with dependencies := deps })
  have hmc := (h.declared _ (sameFiles_rereading hm hreread)).mc
  rw [hversion] at hmc
  refine hmc.trans ?_
  rw [← hpick, htext, declares, tomlMeta, htoml]
  change (deps.values.flatten.map tomlRow).findSome? TomlRow.mc = some v
  rw [findSome?_flatten_tomlRow, hl, List.findSome?_cons, hv]

theorem steady_of_agrees (hpick : jar.namedPick = jar.metPick) (h : Agrees F jar) :
    Steady F.toFormats jar.namedPick := by
  intro text htext m hm t ht t' ht' v v' hv hv'
  have hmc := mc_of_agrees hpick h htext hm ht hv
  rw [mc_of_agrees hpick h htext hm ht' hv'] at hmc
  exact (Option.some.inj hmc).symm

/-- The doors of a jar agree, whatever its files say of at most one version of Minecraft, exactly if
    they pick the same files; and if they do, then they agree exactly on the files that do not name
    several versions. -/
theorem doors_agree_iff (jar : Jar) :
    ((∀ F : JarFormats, Steady F.toFormats jar.namedPick → Agrees F jar) ↔ SamePick jar) ∧
      (SamePick jar → ∀ F : JarFormats, Agrees F jar ↔ Steady F.toFormats jar.namedPick) :=
  ⟨⟨samePick_of_agrees, fun h _ => agrees_of_samePick h⟩,
    fun h _ => ⟨steady_of_agrees h.declared, agrees_of_samePick h⟩⟩

/-! ## A file that cannot be read -/

/-- A `mods.toml`. -/
def plainToml : String := "[[mods]]\nmodId=\"mod\"\n"

/-- A jar with a `mods.toml`, and behind it a newer one that says it is larger than what is read. -/
def spoiledJar : Jar where
  archive := .ok [⟨forgeToml, true, 23, none, .ok plainToml.toUTF8.toList⟩,
    ⟨neoToml, true, Bootstrap.maxEntryBytes + 1, none, .ok []⟩]
  unique := by
    rintro entries ⟨⟩
    decide

theorem namedPick_spoiledJar : spoiledJar.namedPick = some (.toml plainToml) := by decide +kernel

theorem metPick_spoiledJar : spoiledJar.metPick = none := by decide +kernel

/-- By its name the older file declares a mod; the harvest has nothing. -/
theorem not_agrees_spoiledJar : ¬ Agrees (speaking (.toml plainToml)) spoiledJar := by
  intro h
  have hd := h.declared _ (.refl _)
  obtain ⟨version, hversion⟩ := spoiledJar.modmeta_readJar (speaking (.toml plainToml))
  rw [hversion, Jar.readModMeta_eq, namedPick_spoiledJar, metPick_spoiledJar] at hd
  have hmodid := (modid_speaking (.toml plainToml) _).2 rfl
  rw [hd.modid] at hmodid
  exact absurd hmodid (Option.some_ne_none _).symm

end JarDoors

end Smrt
