import Smrt.Domain.Manifest
import Smrt.Lib.Decimal
import Smrt.Lib.Rows

/-!
# Diffs of builds

What a launcher shows of an update: two published manifests are compared entry by entry, a mod by
its identity (`ModEntry.identity`), an asset by where it goes (`diffManifests`).

* `empty_diffManifests`: nothing is shown exactly if the target is the same and the entries are
  `Paired`.
-/

namespace Smrt

/-- A manifest as it is stored: with the fingerprint that its build has left, if it left one. -/
structure StoredManifest extends PackManifest where
  fingerprint : Option String

structure FieldChange where
  was : String
  now : String
  deriving DecidableEq

/-- An entry of one side only. -/
structure DiffEntry where
  filename : String
  version : Option String
  deriving DecidableEq

/-- An entry of both sides, of which the file has changed. -/
structure DiffUpdate where
  filename : String
  versionFrom : Option String
  versionTo : Option String
  sha1From : String
  sha1To : String
  deriving DecidableEq

/-- An entry of both sides, of which only the default has changed. -/
structure DiffToggle where
  filename : String
  defaultEnabledFrom : Bool
  defaultEnabledTo : Bool
  deriving DecidableEq

structure PackDiff where
  packId : String
  versionFrom : String
  versionTo : String
  contentChanged : Bool
  loader : Option FieldChange
  minecraft : Option FieldChange
  java : Option FieldChange
  modsAdded : List DiffEntry
  modsRemoved : List DiffEntry
  modsUpdated : List DiffUpdate
  modsToggled : List DiffToggle
  assetsAdded : List DiffEntry
  assetsRemoved : List DiffEntry
  assetsUpdated : List DiffUpdate

/-- What a mod is known by from build to build: its project, else its slug, else its filename. -/
def ModEntry.identity (m : ModEntry) : String :=
  match m.source with
  | .modrinth projectId _ => "m:" ++ projectId
  | _ => match m.slug with
    | some slug => "s:" ++ slug
    | none => "f:" ++ m.filename

/-- What has become of an entry. -/
inductive EntryChange
  | added (entry : DiffEntry)
  | updated (update : DiffUpdate)
  | toggled (toggle : DiffToggle)

def EntryChange.added? : EntryChange → Option DiffEntry
  | .added e => some e
  | _ => none

def EntryChange.updated? : EntryChange → Option DiffUpdate
  | .updated u => some u
  | _ => none

def EntryChange.toggled? : EntryChange → Option DiffToggle
  | .toggled t => some t
  | _ => none

def modChange (was : List ModEntry) (m : ModEntry) : Option EntryChange :=
  match lastKeyed ModEntry.identity was m.identity with
  | none => some (.added ⟨m.filename, none⟩)
  | some old =>
    if old.sha1 ≠ m.sha1 then some (.updated ⟨m.filename, none, none, old.sha1, m.sha1⟩)
    else if old.defaultEnabled ≠ m.defaultEnabled then
      some (.toggled ⟨m.filename, old.defaultEnabled, m.defaultEnabled⟩)
    else none

def assetChange (was : List AssetEntry) (a : AssetEntry) : Option EntryChange :=
  match lastKeyed AssetEntry.dest was a.dest with
  | none => some (.added ⟨a.dest, none⟩)
  | some old =>
    if old.sha1 ≠ a.sha1 then some (.updated ⟨a.dest, none, none, old.sha1, a.sha1⟩) else none

def fieldChange (was now : String) : Option FieldChange :=
  if was ≠ now then some ⟨was, now⟩ else none

def diffManifests (was now : StoredManifest) : PackDiff where
  packId := now.packId
  versionFrom := was.packVersion
  versionTo := now.packVersion
  contentChanged :=
    match was.fingerprint, now.fingerprint with
    | some a, some b => a ≠ b
    | _, _ => true
  loader := (fieldChange was.loader.version now.loader.version).map fun c =>
    ⟨was.loader.name ++ " " ++ c.was, now.loader.name ++ " " ++ c.now⟩
  minecraft := fieldChange was.minecraftVersion now.minecraftVersion
  java := fieldChange (toString was.javaMajor) (toString now.javaMajor)
  modsAdded := (now.mods.filterMap (modChange was.mods)).filterMap EntryChange.added?
  modsRemoved := (was.mods.filter fun m =>
    m.identity ∉ now.mods.map ModEntry.identity).map fun m => ⟨m.filename, none⟩
  modsUpdated := (now.mods.filterMap (modChange was.mods)).filterMap EntryChange.updated?
  modsToggled := (now.mods.filterMap (modChange was.mods)).filterMap EntryChange.toggled?
  assetsAdded := (now.assets.filterMap (assetChange was.assets)).filterMap EntryChange.added?
  assetsRemoved := (was.assets.filter fun a =>
    a.dest ∉ now.assets.map AssetEntry.dest).map fun a => ⟨a.dest, none⟩
  assetsUpdated := (now.assets.filterMap (assetChange was.assets)).filterMap EntryChange.updated?

/-- Nothing is shown. -/
structure PackDiff.Empty (d : PackDiff) : Prop where
  loader : d.loader = none
  minecraft : d.minecraft = none
  java : d.java = none
  modsAdded : d.modsAdded = []
  modsRemoved : d.modsRemoved = []
  modsUpdated : d.modsUpdated = []
  modsToggled : d.modsToggled = []
  assetsAdded : d.assetsAdded = []
  assetsRemoved : d.assetsRemoved = []
  assetsUpdated : d.assetsUpdated = []

/-! ## What is shown -/

/-- What a diff looks at in a mod, but for its identity. -/
def ModEntry.installed (m : ModEntry) : String × Bool := (m.sha1, m.defaultEnabled)

theorem fieldChange_eq_none {was now : String} : fieldChange was now = none ↔ was = now := by
  rw [fieldChange]
  by_cases h : was = now
  · exact iff_of_true (if_neg (not_not.2 h)) h
  · refine iff_of_false (fun hn => ?_) h
    rw [if_pos h] at hn
    exact Option.some_ne_none _ hn

theorem modChange_eq_none {was : List ModEntry} {m : ModEntry} : modChange was m = none ↔
    ∃ old, lastKeyed ModEntry.identity was m.identity = some old ∧
      old.installed = m.installed := by
  rw [modChange]
  rcases lastKeyed ModEntry.identity was m.identity with _ | old
  · exact iff_of_false (Option.some_ne_none _) fun ⟨_, h, _⟩ => Option.some_ne_none _ h.symm
  · have hold : (∃ o, some old = some o ∧ o.installed = m.installed) ↔
        old.sha1 = m.sha1 ∧ old.defaultEnabled = m.defaultEnabled := by
      simp only [Option.some.injEq, exists_eq_left', ModEntry.installed, Prod.mk.injEq]
    rw [hold]
    dsimp only
    by_cases hsha1 : old.sha1 = m.sha1
    · by_cases hdefault : old.defaultEnabled = m.defaultEnabled
      · rw [if_neg (not_not.2 hsha1), if_neg (not_not.2 hdefault)]
        exact iff_of_true rfl ⟨hsha1, hdefault⟩
      · rw [if_neg (not_not.2 hsha1), if_pos hdefault]
        exact iff_of_false (Option.some_ne_none _) fun h => hdefault h.2
    · rw [if_pos hsha1]
      exact iff_of_false (Option.some_ne_none _) fun h => hsha1 h.1

theorem assetChange_eq_none {was : List AssetEntry} {a : AssetEntry} : assetChange was a = none ↔
    ∃ old, lastKeyed AssetEntry.dest was a.dest = some old ∧ old.sha1 = a.sha1 := by
  rw [assetChange]
  rcases lastKeyed AssetEntry.dest was a.dest with _ | old
  · exact iff_of_false (Option.some_ne_none _) fun ⟨_, h, _⟩ => Option.some_ne_none _ h.symm
  · have hold : (∃ o, some old = some o ∧ o.sha1 = a.sha1) ↔ old.sha1 = a.sha1 := by
      simp only [Option.some.injEq, exists_eq_left']
    rw [hold]
    dsimp only
    by_cases hsha1 : old.sha1 = a.sha1
    · rw [if_neg (not_not.2 hsha1)]
      exact iff_of_true rfl hsha1
    · rw [if_pos hsha1]
      exact iff_of_false (Option.some_ne_none _) hsha1

/-- A list of changes is empty exactly if there is none of each kind. -/
theorem changes_eq_nil {l : List EntryChange} : l = [] ↔ l.filterMap EntryChange.added? = [] ∧
    l.filterMap EntryChange.updated? = [] ∧ l.filterMap EntryChange.toggled? = [] := by
  rcases l with _ | ⟨c, l⟩
  · exact iff_of_true rfl ⟨rfl, rfl, rfl⟩
  · refine iff_of_false (List.cons_ne_nil _ _) ?_
    rintro ⟨hadded, hupdated, htoggled⟩
    rcases c with e | u | t
    · exact absurd hadded (List.cons_ne_nil _ _)
    · exact absurd hupdated (List.cons_ne_nil _ _)
    · exact absurd htoggled (List.cons_ne_nil _ _)

theorem assetChange_ne_toggled {was : List AssetEntry} {a : AssetEntry} {t : DiffToggle} :
    assetChange was a ≠ some (.toggled t) := by
  rw [assetChange]
  split
  · exact nofun
  · split_ifs <;> exact nofun

/-- Nothing is missing of what was there. -/
theorem removed_eq_nil {α β : Type} {key : α → String} {f : α → β} {was now : List α} :
    ((was.filter fun a => key a ∉ now.map key).map f) = [] ↔
      ∀ a ∈ was, ∃ b ∈ now, key b = key a := by
  simp only [List.map_eq_nil_iff, List.filter_eq_nil_iff, decide_eq_true_eq, not_not,
    List.mem_map]

variable {was now : StoredManifest}

/-- What two builds have in common when nothing is shown. -/
structure SameTarget (was now : PackManifest) : Prop where
  loader : was.loader.version = now.loader.version
  minecraft : was.minecraftVersion = now.minecraftVersion
  java : was.javaMajor = now.javaMajor

/-- Nothing is shown exactly if the target is the same and the entries are paired. -/
theorem empty_diffManifests : (diffManifests was now).Empty ↔
    SameTarget was.toPackManifest now.toPackManifest ∧
      Paired ModEntry.identity ModEntry.installed was.mods now.mods ∧
      Paired AssetEntry.dest AssetEntry.sha1 was.assets now.assets := by
  have hmods : (now.mods.filterMap (modChange was.mods)) = [] ↔ ∀ m ∈ now.mods, ∃ old,
      lastKeyed ModEntry.identity was.mods m.identity = some old ∧
        old.installed = m.installed := by
    rw [List.filterMap_eq_nil_iff]
    exact forall₂_congr fun m _ => modChange_eq_none
  have hassets : (now.assets.filterMap (assetChange was.assets)) = [] ↔ ∀ a ∈ now.assets, ∃ old,
      lastKeyed AssetEntry.dest was.assets a.dest = some old ∧ old.sha1 = a.sha1 := by
    rw [List.filterMap_eq_nil_iff]
    exact forall₂_congr fun a _ => assetChange_eq_none
  have htoggled : (now.assets.filterMap (assetChange was.assets)).filterMap EntryChange.toggled? =
      [] := by
    rw [List.filterMap_eq_nil_iff]
    intro c hc
    obtain ⟨a, -, ha⟩ := List.mem_filterMap.1 hc
    rcases c with e | u | t
    · rfl
    · rfl
    · exact absurd ha assetChange_ne_toggled
  have hjava : toString was.javaMajor = toString now.javaMajor ↔ was.javaMajor = now.javaMajor :=
    ⟨fun h => UInt32.toNat_inj.1 (eq_of_repr h), congrArg _⟩
  constructor
  · rintro ⟨hl, hm, hj, hma, hmr, hmu, hmt, haa, har, hau⟩
    refine ⟨⟨fieldChange_eq_none.1 (Option.map_eq_none_iff.1 hl), fieldChange_eq_none.1 hm,
      hjava.1 (fieldChange_eq_none.1 hj)⟩, ⟨hmods.1 (changes_eq_nil.2 ⟨hma, hmu, hmt⟩),
        removed_eq_nil.1 hmr⟩, hassets.1 (changes_eq_nil.2 ⟨haa, hau, htoggled⟩),
        removed_eq_nil.1 har⟩
  · rintro ⟨⟨hl, hm, hj⟩, ⟨hmod, hmr⟩, hasset, har⟩
    obtain ⟨hma, hmu, hmt⟩ := changes_eq_nil.1 (hmods.2 hmod)
    obtain ⟨haa, hau, -⟩ := changes_eq_nil.1 (hassets.2 hasset)
    exact ⟨Option.map_eq_none_iff.2 (fieldChange_eq_none.2 hl), fieldChange_eq_none.2 hm,
      fieldChange_eq_none.2 (hjava.2 hj), hma, removed_eq_nil.2 hmr, hmu, hmt, haa,
      removed_eq_nil.2 har, hau⟩

end Smrt
