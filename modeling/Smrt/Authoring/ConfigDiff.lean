import Mathlib.Data.List.Sort
import Smrt.Domain.Pack
import Smrt.Http.Words
import Smrt.Lib.Decimal
import Smrt.Lib.Keyed

/-!
# What changed between two configs

Rows that a person can read (`diffConfigs`): the fields of the pack, then the mods, which are the
same by their identity (`identity`), then the assets, by their destination. Only what a person
authors is compared: neither the mods that the dependency fill appended, nor what it records of the
dependencies of a mod (`authoredDisplay`).

How many rows there are says whether a config has moved off a commit (`uncommitted`). Without any,
the authored mods of the configs are the same one by one, in what the diff compares (`SameMod`), and
so are the assets (`SameAsset`), if their names are distinct: `of_uncommitted_eq_zero`.
-/

namespace Smrt

inductive ChangeGroup
  | pack
  | mods
  | assets
  deriving DecidableEq

inductive ChangeOp
  | add
  | remove
  | change
  deriving DecidableEq

/-- What moved on a row that is in both configs. -/
inductive ChangeField
  | pin
  | defaultEnabled
  | required
  | filename
  | slug
  | display
  | value
  deriving DecidableEq

/-- One difference between two configs. -/
structure ConfigChange where
  group : ChangeGroup
  op : ChangeOp
  key : String
  label : String
  field : Option ChangeField
  «from» : Option String
  «to» : Option String
  project : Option String
  deriving DecidableEq

/-! ## Rows -/

/-- What a source points at. -/
def pin : SourceDecl → String
  | .modrinth _ versionId => versionId
  | .smrtCache sha1 => sha1
  | .smrtStatic relPath => relPath

def projectOf : SourceDecl → Option String
  | .modrinth projectId _ => some projectId
  | _ => none

def onOff (on : Bool) : String := if on then "on" else "off"

/-- What a person wrote in a display block, if there is anything. The source compares it as the
    text it is stored as. -/
def authoredDisplay (display : Option Display) : Option Display :=
  (display.map fun d => { d with requires := [], presence := none }).filter fun d => d ≠ .default

/-- The identity of a mod across two configs: its project, else its slug, else its filename. -/
def identity (m : DeclaredMod) : String :=
  match m.source with
  | .modrinth projectId _ => "m:" ++ projectId
  | _ =>
    match (m.slug.map trim).filter fun s => s ≠ "" with
    | some s => "s:" ++ s
    | none => "f:" ++ m.filename

/-- The key of a mod: its identity, or its filename if another one has it. -/
def modKey (mods : List (String × DeclaredMod)) (m : DeclaredMod) : String :=
  if (mods.lookup (identity m)).isSome then "f:" ++ m.filename else identity m

/-- The mods that a person declared, under their keys. -/
def authoredMods (cfg : PackConfig) : List (String × DeclaredMod) :=
  (cfg.mods.filter fun m => !m.pulled).foldl (fun mods m => put (modKey mods m) m mods) []

def assetsByDest (cfg : PackConfig) : List (String × DeclaredAsset) :=
  cfg.assets.foldl (fun assets a => put a.dest a assets) []

/-! ## Changes -/

section Changes

variable (group : ChangeGroup)

/-- A value of a row that changed. -/
def moved (key label : String) (project : Option String) (field : ChangeField)
    (was now : Option String) : ConfigChange :=
  { group, op := .change, key, label, field := some field, «from» := was, «to» := now, project }

def modChanges (key : String) (was now : DeclaredMod) : List ConfigChange :=
  let row := moved .mods key now.filename (projectOf now.source)
  (if pin was.source ≠ pin now.source then
      [row .pin (some (pin was.source)) (some (pin now.source))]
    else if projectOf was.source ≠ projectOf now.source then
      [row .pin (projectOf was.source) (projectOf now.source)]
    else []) ++
  (if was.filename ≠ now.filename then [row .filename (some was.filename) (some now.filename)]
    else []) ++
  (if was.defaultEnabled ≠ now.defaultEnabled then
    [row .defaultEnabled (some (onOff was.defaultEnabled)) (some (onOff now.defaultEnabled))]
    else []) ++
  (if was.slug ≠ now.slug then [row .slug was.slug now.slug] else []) ++
  (if authoredDisplay was.display ≠ authoredDisplay now.display then [row .display none none]
    else [])

def assetChanges (dest : String) (was now : DeclaredAsset) : List ConfigChange :=
  let row := moved .assets dest dest (projectOf now.source)
  (if pin was.source ≠ pin now.source then
    [row .pin (some (pin was.source)) (some (pin now.source))] else []) ++
  (if was.dest ≠ now.dest then [row .filename (some was.dest) (some now.dest)] else []) ++
  (if was.required ≠ now.required then
    [row .required (some (onOff was.required)) (some (onOff now.required))] else []) ++
  (if authoredDisplay was.display ≠ authoredDisplay now.display then [row .display none none]
    else [])

/-- A row that is not there any more. -/
def removed (key label : String) (source : SourceDecl) : ConfigChange :=
  { group, op := .remove, key, label, field := none, «from» := some (pin source), «to» := none,
    project := projectOf source }

/-- A row that was not there. -/
def added (key label : String) (source : SourceDecl) : ConfigChange :=
  { group, op := .add, key, label, field := none, «from» := none, «to» := some (pin source),
    project := projectOf source }

end Changes

def modRows (before after : PackConfig) : List ConfigChange :=
  keyedRows (fun m => pin m.source) modChanges
    (fun key m => removed .mods key m.filename m.source)
    (fun key m => added .mods key m.filename m.source) (authoredMods before) (authoredMods after)

def assetRows (before after : PackConfig) : List ConfigChange :=
  keyedRows (fun a => pin a.source) assetChanges
    (fun dest a => removed .assets dest dest a.source)
    (fun dest a => added .assets dest dest a.source) (assetsByDest before) (assetsByDest after)

/-! ## The fields of a pack -/

/-- A field of the pack that reads as a value on one line. -/
def valueRow (field was now : String) : List ConfigChange :=
  if was ≠ now then [moved .pack field field none .value (some was) (some now)] else []

/-- A field of the pack that is a block. -/
def opaqueRow {α : Type} [DecidableEq α] (field : String) (was now : α) : List ConfigChange :=
  if was ≠ now then [moved .pack field field none .value none none] else []

def packRows (before after : PackConfig) : List ConfigChange :=
  let loader (c : PackConfig) := c.loader.name ++ " " ++ c.loader.version
  valueRow "minecraft" before.minecraftVersion after.minecraftVersion ++
  valueRow "loader" (loader before) (loader after) ++
  valueRow "java" (toString before.javaMajor) (toString after.javaMajor) ++
  valueRow "version" (before.version.getD "") (after.version.getD "") ++
  valueRow "display_name" before.displayName after.displayName ++
  valueRow "tagline" before.tagline after.tagline ++
  valueRow "featured" (toString before.featured) (toString after.featured) ++
  valueRow "tags" (String.intercalate ", " before.tags) (String.intercalate ", " after.tags) ++
  opaqueRow "pack_meta" before.packMeta after.packMeta ++
  opaqueRow "auth" before.auth after.auth

/-! ## The diff -/

def ChangeOp.rank : ChangeOp → ℕ
  | .add => 0
  | .remove => 1
  | .change => 2

/-- Arrivals first, then departures, then moves; alphabetical inside each. -/
def sortRows (rows : List ConfigChange) : List ConfigChange :=
  rows.insertionSort fun a b =>
    a.op.rank < b.op.rank ∨ (a.op.rank = b.op.rank ∧ a.label ≤ b.label)

def diffConfigs (before after : PackConfig) : List ConfigChange :=
  packRows before after ++ sortRows (modRows before after) ++ sortRows (assetRows before after)

/-- How far a config has moved off the snapshot of a commit. -/
def uncommitted (head : Option PackConfig) (live : PackConfig) : ℕ :=
  match head with
  | none => 1
  | some head => (diffConfigs head live).length

/-! ## What the diff reads -/

section Reads

variable (before after c : PackConfig)

/-- The diff reads nothing but what the revision is a digest of. -/
theorem diffConfigs_projected :
    diffConfigs before.projected after.projected = diffConfigs before after := by
  have hmods : ∀ cfg : PackConfig, authoredMods cfg.projected = authoredMods cfg := by
    intro cfg
    rw [authoredMods, PackConfig.projected, List.filter_filter]
    simp only [Bool.and_self]
    rfl
  rw [diffConfigs, diffConfigs, modRows, hmods, hmods]
  rfl

theorem increasing_authoredMods : Increasing (authoredMods c) :=
  Increasing.foldl_put List.Pairwise.nil modKey _

theorem increasing_assetsByDest : Increasing (assetsByDest c) :=
  Increasing.foldl_put List.Pairwise.nil (fun _ (a : DeclaredAsset) => a.dest) _

/-- A config does not differ from itself, whatever names its rows have. -/
theorem diffConfigs_self : diffConfigs c c = [] := by
  have hvalue : ∀ field was : String, valueRow field was was = [] :=
    fun _ _ => if_neg (not_not_intro rfl)
  have hmods : modRows c c = [] :=
    keyedRows_self (increasing_authoredMods c) fun _ _ => by simp [modChanges]
  have hassets : assetRows c c = [] :=
    keyedRows_self (increasing_assetsByDest c) fun _ _ => by simp [assetChanges]
  rw [diffConfigs, hmods, hassets]
  simp [packRows, hvalue, opaqueRow, sortRows]

end Reads

/-! ## Without a difference -/

/-- The same mod, as the diff compares it. -/
structure SameMod (was now : DeclaredMod) : Prop where
  pin : pin was.source = pin now.source
  project : projectOf was.source = projectOf now.source
  filename : was.filename = now.filename
  defaultEnabled : was.defaultEnabled = now.defaultEnabled
  slug : was.slug = now.slug
  display : authoredDisplay was.display = authoredDisplay now.display

/-- The same asset, as the diff compares it. -/
structure SameAsset (was now : DeclaredAsset) : Prop where
  pin : pin was.source = pin now.source
  dest : was.dest = now.dest
  required : was.required = now.required
  display : authoredDisplay was.display = authoredDisplay now.display

/-- A row for what is different, and none for what is not. -/
theorem ite_cons_eq_nil {α : Type} {p : Prop} [Decidable p] {a : α} :
    (if p then [a] else []) = [] ↔ ¬ p := by
  by_cases h : p
  · rw [if_pos h]
    exact ⟨fun he => absurd he (List.cons_ne_nil _ _), fun hn => absurd h hn⟩
  · rw [if_neg h]
    exact ⟨fun _ => h, fun _ => rfl⟩

theorem sameMod_of_modChanges {key : String} {was now : DeclaredMod}
    (h : modChanges key was now = []) : SameMod was now := by
  simp only [modChanges, List.append_eq_nil_iff, ite_cons_eq_nil, not_not] at h
  obtain ⟨⟨⟨⟨hpin, hname⟩, hon⟩, hslug⟩, hdisplay⟩ := h
  split_ifs at hpin with hne hproject
  · exact ⟨not_not.1 hne, not_not.1 hproject, hname, hon, hslug, hdisplay⟩

theorem sameAsset_of_assetChanges {dest : String} {was now : DeclaredAsset}
    (h : assetChanges dest was now = []) : SameAsset was now := by
  simp only [assetChanges, List.append_eq_nil_iff, ite_cons_eq_nil, not_not] at h
  exact ⟨h.1.1.1, h.1.1.2, h.1.2, h.2⟩

/-- Only a mod without project and slug is identified by a filename, and it is its own. -/
theorem filename_of_identity {m : DeclaredMod} {filename : String}
    (h : identity m = "f:" ++ filename) : m.filename = filename := by
  rw [identity.eq_def] at h
  split at h
  · exact absurd h (append_ne_append (by decide) _ _)
  · split at h
    · exact absurd h (append_ne_append (by decide) _ _)
    · have hl := congrArg String.toList h
      rw [String.toList_append, String.toList_append] at hl
      exact String.toList_injective (List.append_cancel_left hl)

section Authored

variable {l : List (String × DeclaredMod)} {m : DeclaredMod}

/-- Every mod is under its identity or its filename. -/
def Keyed (l : List (String × DeclaredMod)) : Prop :=
  ∀ p ∈ l, p.1 = identity p.2 ∨ p.1 = "f:" ++ p.2.filename

theorem Keyed.put (h : Keyed l) : Keyed (put (modKey l m) m l) := by
  intro p hp
  rcases mem_of_mem_put hp with rfl | hp
  · rw [modKey]
    split_ifs
    · exact .inr rfl
    · exact .inl rfl
  · exact h p hp

/-- The key of a mod with a filename of its own is fresh. -/
theorem ne_modKey (h : Keyed l) (hname : ∀ p ∈ l, p.2.filename ≠ m.filename) :
    ∀ p ∈ l, p.1 ≠ modKey l m := by
  intro p hp hkey
  rw [modKey] at hkey
  split_ifs at hkey with htaken
  · rcases h p hp with hk | hk
    · exact hname p hp (filename_of_identity (hk.symm.trans hkey))
    · have hl := congrArg String.toList (hk.symm.trans hkey)
      rw [String.toList_append, String.toList_append] at hl
      exact hname p hp (String.toList_injective (List.append_cancel_left hl))
  · refine htaken ?_
    rcases hl : l.lookup (identity m) with _ | n
    · exact absurd (List.lookup_eq_none_iff.1 hl p hp) (by simp [hkey])
    · rfl

end Authored

/-- The rows of a config are named once: its mods by filenames, its assets by destinations. -/
def PackConfig.NamedOnce (cfg : PackConfig) : Prop :=
  (cfg.mods.map DeclaredMod.filename).Nodup ∧ (cfg.assets.map DeclaredAsset.dest).Nodup

section Zero

variable {head live : PackConfig}

theorem authoredMods_spec (h : head.NamedOnce) : Increasing (authoredMods head) ∧
    (∀ m ∈ head.mods.filter fun m => !m.pulled, ∃ k, (k, m) ∈ authoredMods head) ∧
    ∀ p ∈ authoredMods head, p.2 ∈ head.mods.filter fun m => !m.pulled := by
  have hnames : (head.mods.filter fun m => !m.pulled).Pairwise
      fun m n => m.filename ≠ n.filename :=
    List.pairwise_map.1 (h.1.sublist (List.filter_sublist.map _))
  obtain ⟨hinc, -, hall, honly⟩ := foldl_put Keyed.put ne_modKey List.Pairwise.nil
    (fun p hp => absurd hp List.not_mem_nil) (fun p hp => absurd hp List.not_mem_nil) hnames
  exact ⟨hinc, hall, fun p hp => (honly p hp).resolve_left List.not_mem_nil⟩

theorem assetsByDest_spec (h : head.NamedOnce) : Increasing (assetsByDest head) ∧
    (∀ a ∈ head.assets, ∃ k, (k, a) ∈ assetsByDest head) ∧
    ∀ p ∈ assetsByDest head, p.2 ∈ head.assets := by
  have hkeyed : ∀ {l : List (String × DeclaredAsset)} {a : DeclaredAsset},
      (∀ p ∈ l, p.1 = p.2.dest) → ∀ p ∈ put a.dest a l, p.1 = p.2.dest := by
    intro l a hl p hp
    rcases mem_of_mem_put hp with rfl | hp
    · rfl
    · exact hl p hp
  have hfresh : ∀ {l : List (String × DeclaredAsset)} {a : DeclaredAsset},
      (∀ p ∈ l, p.1 = p.2.dest) → (∀ p ∈ l, p.2.dest ≠ a.dest) → ∀ p ∈ l, p.1 ≠ a.dest :=
    fun hl hne p hp he => hne p hp ((hl p hp).symm.trans he)
  have hdests : head.assets.Pairwise fun a b => a.dest ≠ b.dest := List.pairwise_map.1 h.2
  obtain ⟨hinc, -, hall, honly⟩ := foldl_put hkeyed hfresh List.Pairwise.nil
    (fun p hp => absurd hp List.not_mem_nil) (fun p hp => absurd hp List.not_mem_nil) hdests
  exact ⟨hinc, hall, fun p hp => (honly p hp).resolve_left List.not_mem_nil⟩

/-- Every row of the one list is in the other one, the same, and the other way round. -/
def Matched {α : Type} (same : α → α → Prop) (was now : List α) : Prop :=
  (∀ a ∈ was, ∃ b ∈ now, same a b) ∧ ∀ b ∈ now, ∃ a ∈ was, same a b

/-- What is the same about two configs without a difference. -/
structure Unmoved (head live : PackConfig) : Prop where
  minecraftVersion : head.minecraftVersion = live.minecraftVersion
  loader : head.loader.name ++ " " ++ head.loader.version =
    live.loader.name ++ " " ++ live.loader.version
  version : head.version.getD "" = live.version.getD ""
  javaMajor : head.javaMajor = live.javaMajor
  auth : head.auth = live.auth
  mods : Matched SameMod (head.mods.filter fun m => !m.pulled) (live.mods.filter fun m => !m.pulled)
  assets : Matched SameAsset head.assets live.assets

/-- Rows without a difference are matched. -/
theorem matched_of_keyedRows {α γ : Type} {pin : α → String}
    (changes : String → α → α → List γ) {removed added : String → α → γ} {same : α → α → Prop}
    (hsame : ∀ {k a b}, changes k a b = [] → same a b) {was now : List α}
    {keyedWas keyedNow : List (String × α)}
    (hwas : Increasing keyedWas ∧ (∀ a ∈ was, ∃ k, (k, a) ∈ keyedWas) ∧
      ∀ p ∈ keyedWas, p.2 ∈ was)
    (hnow : Increasing keyedNow ∧ (∀ a ∈ now, ∃ k, (k, a) ∈ keyedNow) ∧
      ∀ p ∈ keyedNow, p.2 ∈ now)
    (h : keyedRows pin changes removed added keyedWas keyedNow = []) : Matched same was now := by
  constructor
  · intro a ha
    obtain ⟨k, hk⟩ := hwas.2.1 a ha
    obtain ⟨q, hq, k', hc⟩ := exists_of_keyedRows_eq_nil hwas.1 h hk
    exact ⟨q.2, hnow.2.2 q hq, hsame hc⟩
  · intro b hb
    obtain ⟨k, hk⟩ := hnow.2.1 b hb
    obtain ⟨p, hp, k', hc⟩ := exists_of_keyedRows_eq_nil' hnow.1 h hk
    exact ⟨p.2, hwas.2.2 p hp, hsame hc⟩

theorem sortRows_eq_nil {rows : List ConfigChange} (h : sortRows rows = []) : rows = [] :=
  List.length_eq_zero_iff.1 ((List.length_insertionSort _ rows).symm.trans
    (List.length_eq_zero_iff.2 h))

theorem eq_of_valueRow {field was now : String} (h : valueRow field was now = []) : was = now :=
  not_not.1 (ite_cons_eq_nil.1 h)

theorem eq_of_opaqueRow {α : Type} [DecidableEq α] {field : String} {was now : α}
    (h : opaqueRow field was now = []) : was = now := not_not.1 (ite_cons_eq_nil.1 h)

/-- Without a difference, everything that the diff compares is the same. -/
theorem unmoved_of_uncommitted (hhead : head.NamedOnce) (hlive : live.NamedOnce)
    (h : uncommitted (some head) live = 0) : Unmoved head live := by
  have hdiff : packRows head live ++ sortRows (modRows head live) ++
      sortRows (assetRows head live) = [] := List.length_eq_zero_iff.1 h
  obtain ⟨⟨hpack, hmods⟩, hassets⟩ := by simpa only [List.append_eq_nil_iff] using hdiff
  delta packRows at hpack
  simp only [List.append_eq_nil_iff] at hpack
  obtain ⟨⟨⟨⟨⟨⟨⟨⟨⟨hminecraft, hloader⟩, hjava⟩, hversion⟩, -⟩, -⟩, -⟩, -⟩, -⟩, hauth⟩ := hpack
  have hmod : modRows head live = [] := sortRows_eq_nil hmods
  have hasset : assetRows head live = [] := sortRows_eq_nil hassets
  refine ⟨eq_of_valueRow hminecraft, eq_of_valueRow hloader, eq_of_valueRow hversion, ?_,
    eq_of_opaqueRow hauth, ?_, ?_⟩
  · have hn : head.javaMajor.toNat.repr = live.javaMajor.toNat.repr := eq_of_valueRow hjava
    exact UInt32.toNat_inj.1 (eq_of_repr hn)
  · exact matched_of_keyedRows modChanges sameMod_of_modChanges (authoredMods_spec hhead)
      (authoredMods_spec hlive) hmod
  · exact matched_of_keyedRows assetChanges sameAsset_of_assetChanges (assetsByDest_spec hhead)
      (assetsByDest_spec hlive) hasset

end Zero

end Smrt
