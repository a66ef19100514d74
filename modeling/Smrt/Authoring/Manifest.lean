import Mathlib.Data.List.Sort
import Mathlib.Data.String.Basic
import Smrt.Authoring.Build
import Smrt.Authoring.Sources
import Smrt.Domain.Version
import Smrt.Lib.Rows

/-!
# Manifests

A build resolves every file a config declares, and reports all of them that cannot be
(`resolveAll`). The entries are sorted, the mods by filename and the assets by destination, what is
required is derived, and what lands in an instance is digested (`contentFingerprint`):
`buildManifest`.

The version of a build is asked for, or the next one of the version line of the config
(`resolveVersion`).

A manifest is a fixed point: an entry is derived from itself (`deriveRequired_derived`), and
sorting what is sorted changes nothing.
-/

namespace Smrt

/-! ## Versions -/

section Version

variable (debug : String → String)

/-- The segments of the body of a version. -/
def versionSegments (body : String) : List (List Char) :=
  body.toList.splitOnP fun c => c = '-' ∨ c = '.'

def validatePackVersion (v : String) : Except String Unit := do
  refuseIf (v = "") "pack_version must not be empty"
  let body := (stripPrefix v "SNAPSHOT-").getD v
  refuseIf (body = "") ("pack_version " ++ debug v ++ " has an empty version body")
  match (versionSegments body).find? fun seg => !isDigits seg with
  | some seg => .error ("pack_version segment " ++ debug (String.ofList seg) ++
      " is not a positive integer")
  | none => .ok ()

/-- The counter after the highest one that is published under a base. -/
def nextAutoVersion (base : String) (existing : List String) : String :=
  let counters := existing.filterMap fun v =>
    (stripPrefix v base).bind fun r => (stripPrefix r ".").bind parseU64
  base ++ "." ++ toString (counters.max?.elim 0 fun n => n + 1)

/-- The version of a build: the one asked for, or the next one of the version line. -/
def resolveVersion (existing : List String) (requested : Option String) (cfg : PackConfig) :
    Except String String :=
  let v := requested.getD (nextAutoVersion (cfg.version.getD "0.0") existing)
  (validatePackVersion debug v).map fun _ => v

variable {debug}

/-- A number is digits. -/
theorem isDigits_toString (n : ℕ) : isDigits (toString n).toList = true := by
  have hdigits : (toString n).toList = Nat.toDigits 10 n := by
    rw [Nat.toString_eq_repr, Nat.repr, String.toList_ofList]
  rw [hdigits]
  simp only [isDigits, decide_eq_true_eq, List.all_eq_true]
  exact ⟨Nat.toDigits_ne_nil, fun c hc => Nat.isDigit_of_mem_toDigits (by decide) (by decide) hc⟩

/-- A version of the line `0.0` is valid. -/
theorem validatePackVersion_line (n : ℕ) :
    validatePackVersion debug ("0.0" ++ "." ++ toString n) = .ok () := by
  obtain ⟨d, hd⟩ : ∃ d, d = (toString n).toList := ⟨_, rfl⟩
  have hdigits : isDigits d = true := hd ▸ isDigits_toString n
  have hv : ("0.0" ++ "." ++ toString n).toList = '0' :: '.' :: '0' :: '.' :: d := by
    rw [String.toList_append, String.toList_append, hd]
    rfl
  generalize "0.0" ++ "." ++ toString n = v at hv
  have hne : v ≠ "" := fun he => List.cons_ne_nil _ _ (hv.symm.trans (congrArg String.toList he))
  have hstrip : stripPrefix v "SNAPSHOT-" = none := by
    rw [stripPrefix, hv]
    rfl
  have hsegments : versionSegments v = [['0'], ['0'], d] := by
    have hlast : (d.splitOnP fun c => decide (c = '-' ∨ c = '.')) = [d] := by
      refine List.splitOnP_eq_singleton fun c hc => ?_
      have hall : c.isDigit = true := by
        simp only [isDigits, decide_eq_true_eq, List.all_eq_true] at hdigits
        exact hdigits.2 c hc
      refine decide_eq_false ?_
      rintro (rfl | rfl) <;> exact absurd hall (by decide)
    rw [versionSegments, hv]
    simp only [List.splitOnP_cons_eq_if_modifyHead, hlast]
    rfl
  have hfind : [['0'], ['0'], d].find? (fun seg => !isDigits seg) = none := by
    have hzero : isDigits ['0'] = true := by decide
    simp only [List.find?_cons, hzero, hdigits, Bool.not_true, List.find?_nil]
  simp only [validatePackVersion, hstrip, Option.getD_none, hsegments, hfind, bind_eq_ok,
    refuseIf_eq_ok]
  exact ⟨(), hne, (), hne, trivial⟩

/-- The version of a config that has no line of its own is the one asked for, if it is valid. -/
theorem resolveVersion_of_none {existing : List String} {requested : Option String}
    {cfg : PackConfig} (hline : cfg.version = none)
    (hv : ∀ v, requested = some v → validatePackVersion debug v = .ok ()) :
    ∃ v, resolveVersion debug existing requested cfg = .ok v := by
  rw [resolveVersion, hline, Option.getD_none]
  rcases requested with _ | v
  · exact ⟨_, map_eq_ok.2 ⟨(), validatePackVersion_line _, rfl⟩⟩
  · exact ⟨_, map_eq_ok.2 ⟨(), hv v rfl, rfl⟩⟩

end Version

/-! ## Fingerprints -/

def ModEntry.line (m : ModEntry) : String :=
  "mod\t" ++ m.filename ++ "\t" ++ m.sha1 ++ "\t" ++ toString m.required ++ "\t" ++
    toString m.defaultEnabled

def AssetEntry.line (a : AssetEntry) : String :=
  "asset\t" ++ a.dest ++ "\t" ++ a.sha1 ++ "\t" ++ toString a.required

/-- What lands in an instance, line by line. -/
def contentLines (m : PackManifest) : List String :=
  ("mc\t" ++ m.minecraftVersion) :: ("loader\t" ++ m.loader.name ++ "\t" ++ m.loader.version) ::
    ("java\t" ++ toString m.javaMajor) ::
      (m.mods.map ModEntry.line ++ m.assets.map AssetEntry.line)

/-- The digest of what lands in an instance, in whatever order it is listed. -/
def contentFingerprint (sha1Hex : List UInt8 → String) (m : PackManifest) : String :=
  sha1Hex (String.intercalate "\n" ((contentLines m).insertionSort (· ≤ ·))).toUTF8.toList

/-- What lands in an instance of an entry. -/
def ModEntry.content (m : ModEntry) : String × String × Bool × Bool :=
  (m.filename, m.sha1, m.required, m.defaultEnabled)

def AssetEntry.content (a : AssetEntry) : String × String × Bool := (a.dest, a.sha1, a.required)

/-- What lands in an instance. -/
def PackManifest.content (m : PackManifest) :
    String × LoaderSpec × UInt32 × List (String × String × Bool × Bool) ×
      List (String × String × Bool) :=
  (m.minecraftVersion, m.loader, m.javaMajor, m.mods.map ModEntry.content,
    m.assets.map AssetEntry.content)

theorem ModEntry.line_congr {m n : ModEntry} (h : m.content = n.content) : m.line = n.line := by
  obtain ⟨hf, hs, hr, he⟩ := by simpa only [content, Prod.mk.injEq] using h
  delta line
  rw [hf, hs, hr, he]

theorem AssetEntry.line_congr {a b : AssetEntry} (h : a.content = b.content) :
    a.line = b.line := by
  obtain ⟨hd, hs, hr⟩ := by simpa only [content, Prod.mk.injEq] using h
  delta line
  rw [hd, hs, hr]

/-- The fingerprint is of the content. -/
theorem contentFingerprint_congr {sha1Hex : List UInt8 → String} {m n : PackManifest}
    (h : m.content = n.content) :
    contentFingerprint sha1Hex m = contentFingerprint sha1Hex n := by
  obtain ⟨hmc, hloader, hjava, hmods, hassets⟩ := by
    simpa only [PackManifest.content, Prod.mk.injEq] using h
  have hmod : m.mods.map ModEntry.line = n.mods.map ModEntry.line :=
    map_eq_of_map_eq (fun _ _ => ModEntry.line_congr) hmods
  have hasset : m.assets.map AssetEntry.line = n.assets.map AssetEntry.line :=
    map_eq_of_map_eq (fun _ _ => AssetEntry.line_congr) hassets
  rw [contentFingerprint, contentFingerprint, contentLines, contentLines, hmc, hloader, hjava,
    hmod, hasset]

/-! ## Building -/

/-- A finished build: the manifest, its fingerprint, and the mods that the registry answered for. -/
structure Built where
  manifest : PackManifest
  fingerprint : String
  resolvedFromRegistry : List String
  deriving DecidableEq

def sortMods : List ModEntry → List ModEntry :=
  List.insertionSort fun a b => a.filename ≤ b.filename

def sortAssets : List AssetEntry → List AssetEntry :=
  List.insertionSort fun a b => a.dest ≤ b.dest

/-- The error of a build: every file that could not be resolved. -/
def unresolved (failed : List String) (total : ℕ) : String :=
  toString failed.length ++ " of " ++ toString total ++ " sources could not be resolved:\n  " ++
    String.intercalate "\n  " failed

section Build

variable (X : Upstream) (debug : String → String) (mirrorBase : String) (existing : List String)
  (classifications : Classifications)

/-- The manifest of a config, from the resolved files. -/
def assemble (cfg : PackConfig) (packVersion : String) (mods : List (ModEntry × Bool))
    (assets : List AssetEntry) : Except String Built := do
  let derived ← deriveRequired classifications (sortMods (mods.map Prod.fst))
  let manifest : PackManifest :=
    { packId := cfg.packId, packVersion, minecraftVersion := cfg.minecraftVersion,
      loader := cfg.loader, javaMajor := cfg.javaMajor, auth := cfg.auth, mods := derived,
      assets := sortAssets assets }
  .ok { manifest, fingerprint := contentFingerprint X.sha1Hex manifest,
        resolvedFromRegistry := (mods.filter Prod.snd).map fun p => p.1.filename }

def buildManifest (requested : Option String) (cfg : PackConfig) : Except String Built := do
  let packVersion ← resolveVersion debug existing requested cfg
  let failed := failures DeclaredMod.filename (resolveMod X debug mirrorBase) cfg.mods ++
    failures DeclaredAsset.dest (resolveAsset X debug mirrorBase cfg.packId) cfg.assets
  refuseIf (failed ≠ []) (unresolved failed (cfg.mods.length + cfg.assets.length))
  assemble X classifications cfg packVersion
    (resolveAll (resolveMod X debug mirrorBase) cfg.mods)
    (resolveAll (resolveAsset X debug mirrorBase cfg.packId) cfg.assets)

end Build

/-! ## What a build goes through -/

section Spec

variable {X : Upstream} {debug : String → String} {mirrorBase : String} {existing : List String}
  {classifications : Classifications} {requested : Option String} {cfg : PackConfig}
  {built : Built}

/-- A build resolves every row, and assembles what it has resolved. -/
theorem buildManifest_eq_ok :
    buildManifest X debug mirrorBase existing classifications requested cfg = .ok built ↔
      ∃ packVersion mods assets, resolveVersion debug existing requested cfg = .ok packVersion ∧
        List.Forall₂ (fun m p => resolveMod X debug mirrorBase m = .ok p) cfg.mods mods ∧
        List.Forall₂ (fun a e => resolveAsset X debug mirrorBase cfg.packId a = .ok e)
          cfg.assets assets ∧
        assemble X classifications cfg packVersion mods assets = .ok built := by
  simp only [buildManifest, bind_eq_ok, refuseIf_eq_ok]
  constructor
  · rintro ⟨packVersion, hv, _, hfailed, h⟩
    have hnone := List.append_eq_nil_iff.1 (not_not.1 hfailed)
    exact ⟨packVersion, _, _, hv, forall₂_resolveAll hnone.1, forall₂_resolveAll hnone.2, h⟩
  · rintro ⟨packVersion, mods, assets, hv, hmods, hassets, h⟩
    obtain ⟨hm, rfl⟩ := resolveAll_eq DeclaredMod.filename hmods
    obtain ⟨ha, rfl⟩ := resolveAll_eq DeclaredAsset.dest hassets
    refine ⟨packVersion, hv, (), ?_, h⟩
    rw [hm, ha]
    exact not_not.2 rfl

theorem assemble_eq_ok {packVersion : String} {mods : List (ModEntry × Bool)}
    {assets : List AssetEntry} :
    assemble X classifications cfg packVersion mods assets = .ok built ↔
      ∃ derived, deriveRequired classifications (sortMods (mods.map Prod.fst)) = .ok derived ∧
        { manifest :=
            { packId := cfg.packId, packVersion, minecraftVersion := cfg.minecraftVersion,
              loader := cfg.loader, javaMajor := cfg.javaMajor, auth := cfg.auth,
              mods := derived, assets := sortAssets assets }
          fingerprint := contentFingerprint X.sha1Hex
            { packId := cfg.packId, packVersion, minecraftVersion := cfg.minecraftVersion,
              loader := cfg.loader, javaMajor := cfg.javaMajor, auth := cfg.auth,
              mods := derived, assets := sortAssets assets }
          resolvedFromRegistry := (mods.filter Prod.snd).map fun p => p.1.filename } = built := by
  rw [assemble, bind_eq_ok]
  exact exists_congr fun derived => and_congr_right fun _ =>
    ⟨fun h => Except.ok.inj h, fun h => congrArg Except.ok h⟩

end Spec

/-! ## What is read of a row -/

section Read

variable {X : Upstream} {debug : String → String} {mirrorBase : String}

/-- What the content of a build depends on of a declared mod. -/
def DeclaredMod.read (m : DeclaredMod) : String × SourceDecl × Bool × List Requirement :=
  (m.filename, m.source, m.defaultEnabled, m.display.elim [] fun d => d.requires)

/-- What the content of a build depends on of a declared asset. -/
def DeclaredAsset.read (a : DeclaredAsset) : String × SourceDecl × Bool :=
  (a.dest, a.source, a.required)

/-- Of a declared mod, only the filename and the source are resolved. -/
theorem resolveModSource_congr {m n : DeclaredMod} (hs : m.source = n.source)
    {r : String × UInt64 × Source × Bool} (h : resolveModSource X mirrorBase m = .ok r) :
    resolveModSource X mirrorBase n = .ok r := by
  rw [resolveModSource.eq_def] at h ⊢
  rw [hs] at h
  rcases hn : n.source with ⟨projectId, versionId⟩ | sha1 | relPath <;> simp only [hn] at h ⊢
  · rcases hm : X.modrinth projectId versionId with e | files <;> simp only [hm] at h ⊢
    · rcases hr : X.registry versionId with _ | ⟨sha1, size⟩ <;> simp only [hr] at h ⊢
      · exact absurd h nofun
      · exact h
    · exact h
  · simp only [bind_eq_ok, refuseIf_eq_ok] at h ⊢
    obtain ⟨_, hhex, size, hjar, h⟩ := h
    exact ⟨(), hhex, size, mapError_eq_ok.2 (mapError_eq_ok.1 hjar), h⟩
  · exact absurd h nofun

/-- A resolved mod, field by field. -/
theorem resolveMod_eq_ok {m : DeclaredMod} {p : ModEntry × Bool} :
    resolveMod X debug mirrorBase m = .ok p ↔ isSafeFilename m.filename = true ∧
      ∃ sha1 sizeBytes source fellBack,
        resolveModSource X mirrorBase m = .ok (sha1, sizeBytes, source, fellBack) ∧
        ({ filename := m.filename, sha1, sizeBytes, required := false,
           defaultEnabled := m.defaultEnabled, source, display := m.display, slug := m.slug },
          fellBack) = p := by
  simp only [resolveMod, bind_eq_ok, refuseIf_eq_ok, not_not]
  constructor
  · rintro ⟨_, hname, ⟨sha1, size, source, fellBack⟩, hsource, h⟩
    exact ⟨hname, sha1, size, source, fellBack, hsource, Except.ok.inj h⟩
  · rintro ⟨hname, sha1, size, source, fellBack, hsource, rfl⟩
    exact ⟨(), hname, _, hsource, rfl⟩

theorem filename_of_resolveMod {m : DeclaredMod} {p : ModEntry × Bool}
    (h : resolveMod X debug mirrorBase m = .ok p) : p.1.filename = m.filename := by
  obtain ⟨-, _, _, _, _, -, rfl⟩ := resolveMod_eq_ok.1 h
  rfl

/-- Resolved mods, in the order of their filenames. -/
theorem forall₂_sortMods {l : List DeclaredMod} {mods : List (ModEntry × Bool)}
    (h : List.Forall₂ (fun m p => resolveMod X debug mirrorBase m = .ok p) l mods) :
    List.Forall₂ (fun m e => ∃ p, resolveMod X debug mirrorBase m = .ok p ∧ p.1 = e)
      (l.insertionSort fun a b => a.filename ≤ b.filename) (sortMods (mods.map Prod.fst)) := by
  have hresolved : List.Forall₂ (fun m e => ∃ p, resolveMod X debug mirrorBase m = .ok p ∧
      p.1 = e) l (mods.map Prod.fst) :=
    List.forall₂_map_right_iff.2 (h.imp fun m p hp => ⟨p, hp, rfl⟩)
  have hname : ∀ {m e}, (∃ p, resolveMod X debug mirrorBase m = .ok p ∧ p.1 = e) →
      e.filename = m.filename := by
    rintro m e ⟨p, hp, rfl⟩
    exact filename_of_resolveMod hp
  exact forall₂_insertionSort (fun m n e f hm hn => by rw [hname hm, hname hn]) hresolved

/-- A resolved asset, field by field. -/
theorem resolveAsset_eq_ok {packId : String} {a : DeclaredAsset} {e : AssetEntry} :
    resolveAsset X debug mirrorBase packId a = .ok e ↔ isSafeRelPath a.dest = true ∧
      ∃ sha1 sizeBytes source,
        resolveAssetSource X mirrorBase packId a = .ok (sha1, sizeBytes, source) ∧
        { dest := a.dest, sha1, sizeBytes, required := a.required, source,
          display := a.display } = e := by
  simp only [resolveAsset, bind_eq_ok, refuseIf_eq_ok, not_not]
  constructor
  · rintro ⟨_, hdest, ⟨sha1, size, source⟩, hsource, h⟩
    exact ⟨hdest, sha1, size, source, hsource, Except.ok.inj h⟩
  · rintro ⟨hdest, sha1, size, source, hsource, rfl⟩
    exact ⟨(), hdest, _, hsource, rfl⟩

theorem forall₂_sortAssets {packId : String} {l : List DeclaredAsset} {assets : List AssetEntry}
    (h : List.Forall₂ (fun a e => resolveAsset X debug mirrorBase packId a = .ok e) l assets) :
    List.Forall₂ (fun a e => resolveAsset X debug mirrorBase packId a = .ok e)
      (l.insertionSort fun a b => a.dest ≤ b.dest) (sortAssets assets) := by
  have hdest : ∀ {a e}, resolveAsset X debug mirrorBase packId a = .ok e → e.dest = a.dest := by
    intro a e ha
    obtain ⟨-, _, _, _, -, rfl⟩ := resolveAsset_eq_ok.1 ha
    rfl
  exact forall₂_insertionSort (fun a b e f ha hb => by rw [hdest ha, hdest hb]) h

end Read

/-! ## A manifest is derived from itself -/

section Derived

variable {classifications : Classifications} {mods out : List ModEntry}

@[simp] theorem sha1_present (m : ModEntry) (required : Bool) :
    (present classifications m required).sha1 = m.sha1 := by
  rw [present]
  split <;> rfl

@[simp] theorem sizeBytes_present (m : ModEntry) (required : Bool) :
    (present classifications m required).sizeBytes = m.sizeBytes := by
  rw [present]
  split <;> rfl

@[simp] theorem source_present (m : ModEntry) (required : Bool) :
    (present classifications m required).source = m.source := by
  rw [present]
  split <;> rfl

@[simp] theorem slug_present (m : ModEntry) (required : Bool) :
    (present classifications m required).slug = m.slug := by
  rw [present]
  split <;> rfl

/-- Opting out changes one flag of an entry. -/
theorem optOut_eq (m : ModEntry) : optOut classifications m =
    { m with defaultEnabled := m.defaultEnabled && side classifications m ≠ some .server } := by
  rw [optOut]
  split_ifs with h
  · simp [h]
  · simp [h]

/-- What the walk sees of an entry. -/
def ModEntry.key (m : ModEntry) : String × Bool × List Requirement :=
  (m.filename, m.defaultEnabled, m.display.elim [] fun d => d.requires)

theorem idx_map {f : ModEntry → ModEntry} (hf : ∀ m, (f m).filename = m.filename) :
    idx (mods.map f) = idx mods := by
  funext filename
  rw [idx, idx, List.zipIdx_map, List.map_map]
  simp only [Function.comp_def, Prod.map, hf, id]

theorem lockable_congr {m n : ModEntry} (h : m.filename = n.filename) :
    lockable classifications m = lockable classifications n := by
  rw [lockable, lockable, h]

/-- The dependencies, from what the walk sees. -/
theorem hardDeps_eq (m : ModEntry) : hardDeps classifications mods m =
    ((m.key.2.2.filter fun r => !r.optional).filterMap fun r => idx mods r.filename).filter
      fun i => mods[i]?.any (lockable classifications) := by
  rw [hardDeps, ModEntry.key]
  rcases m.display with _ | d <;> rfl

variable {f : ModEntry → ModEntry} (hf : ∀ m, (f m).key = m.key)

include hf

theorem filename_of_key (m : ModEntry) : (f m).filename = m.filename := congrArg Prod.fst (hf m)

theorem hardDeps_map (m : ModEntry) :
    hardDeps classifications (mods.map f) (f m) = hardDeps classifications mods m := by
  have hany : ∀ i : ℕ, (mods.map f)[i]?.any (lockable classifications) =
      mods[i]?.any (lockable classifications) := by
    intro i
    rw [List.getElem?_map, Option.any_map]
    congr 1
    funext n
    exact lockable_congr (filename_of_key hf n)
  rw [hardDeps_eq, hardDeps_eq, hf, idx_map (filename_of_key hf)]
  simp only [hany]

theorem seed_map (m : ModEntry) : seed classifications (f m) = seed classifications m := by
  have he : (f m).defaultEnabled = m.defaultEnabled := congrArg (fun k => k.2.1) (hf m)
  rw [seed, seed, he, nonMod, nonMod, mustMatch, mustMatch, filename_of_key hf]

theorem seeds_map : seeds classifications (mods.map f) = seeds classifications mods := by
  rw [seeds, seeds, List.length_map]
  refine Finset.filter_congr fun i _ => ?_
  have hseed : (fun m => seed classifications (f m)) = seed classifications := funext (seed_map hf)
  rw [List.getElem?_map, Option.any_map, hseed]

theorem queue_map : queue classifications (mods.map f) = queue classifications mods := by
  rw [queue, queue, List.zipIdx_map, List.filter_map, List.flatMap_map, seeds_map hf]
  simp only [Function.comp_def, Prod.map, id, hardDeps_map hf]
  congr 2
  funext p
  exact congrArg (· || _) (congrArg (fun k => k.2.1) (hf p.1))

/-- The walk looks at the keys only. -/
theorem walk_map : walk classifications (mods.map f) = walk classifications mods := by
  have hdeps : depsAt classifications (mods.map f) = depsAt classifications mods := by
    funext i
    rw [depsAt, depsAt, List.getElem?_map]
    rcases mods[i]? with _ | m
    · rfl
    · exact hardDeps_map hf m
  rw [walk, walk, hdeps, seeds_map hf, queue_map hf, List.length_map]

omit hf

/-- The entry as the walk sees it. -/
def ModEntry.bare (m : ModEntry) : ModEntry :=
  { m with
    sha1 := "", sizeBytes := 0, required := false, source := .smrtCache "", slug := none
    display := some { Display.default with requires := m.display.elim [] fun d => d.requires } }

theorem walk_congr {mods' : List ModEntry}
    (h : mods.map ModEntry.bare = mods'.map ModEntry.bare) :
    walk classifications mods = walk classifications mods' := by
  rw [← walk_map (f := ModEntry.bare) fun _ => rfl, h, walk_map (f := ModEntry.bare) fun _ => rfl]

/-- The entry before what is required is derived. -/
def ModEntry.unrequired (m : ModEntry) : ModEntry := { m with required := false }

theorem bare_present (m : ModEntry) (required : Bool) :
    (present classifications m required).unrequired.bare = m.bare := by
  rw [present]
  split
  · rcases hd : m.display with _ | d <;>
      simp [ModEntry.unrequired, ModEntry.bare, hd, Display.default]
  · rcases hd : m.display with _ | d <;> simp [ModEntry.unrequired, ModEntry.bare, hd]

/-- Presenting an entry again. -/
theorem present_present (m : ModEntry) (required : Bool) :
    present classifications (present classifications m required).unrequired required =
      present classifications m required := by
  have hp : presence classifications (present classifications m required).unrequired required =
      presence classifications m required := by
    rw [presence, presence, ModEntry.unrequired, filename_present]
  rw [present, hp]
  rcases h : presence classifications m required with _ | p
  · simp only [present, h, ModEntry.unrequired]
    rcases m.display with _ | d <;> rfl
  · simp only [present, h, ModEntry.unrequired, Option.getD_some]

/-- A server-side entry is opted out once. -/
theorem optOut_present_optOut (m : ModEntry) (required : Bool) :
    optOut classifications
        (present classifications (optOut classifications m) required).unrequired =
      (present classifications (optOut classifications m) required).unrequired := by
  have hs : side classifications
      (present classifications (optOut classifications m) required).unrequired =
        side classifications m := by
    rw [side, ModEntry.unrequired, filename_present, filename_optOut, ← side]
  rw [optOut, hs]
  split_ifs with h
  · have he : (present classifications (optOut classifications m) required).defaultEnabled =
        false := (defaultEnabled_present _ _).trans (defaultEnabled_optOut m h)
    simp only [ModEntry.unrequired, he]
  · rfl

theorem settle_congr {m n : ModEntry} (h : m.filename = n.filename) (required : Finset ℕ)
    (i : ℕ) : settle classifications required (m, i) = settle classifications required (n, i) := by
  have hside : side classifications m = side classifications n := by rw [side, side, h]
  have hsoft : soft classifications m = soft classifications n := by rw [soft, soft, h]
  have hex : excluded classifications m = excluded classifications n := by
    rw [excluded, excluded, hside, nonMod, nonMod, h]
  have herror : clientRequired m = clientRequired n := by
    delta clientRequired
    rw [h]
  rw [settle, settle, hex, hside, hsoft, herror]

/-- The entries, presented with what is required. -/
def presentAll (classifications : Classifications) (mods : List ModEntry)
    (required : Finset ℕ) : List ModEntry :=
  mods.zipIdx.map fun p => present classifications p.1 (p.2 ∈ required)

theorem deriveRequired_eq : deriveRequired classifications mods =
    ((mods.map (optOut classifications)).zipIdx.foldlM (settle classifications)
      (walk classifications (mods.map (optOut classifications)))).map
        (presentAll classifications (mods.map (optOut classifications))) := by
  rw [deriveRequired]
  rcases List.foldlM (settle classifications) _ _ <;> rfl

/-- Opting out and presenting entries again leaves the same keys, and settles the same. -/
theorem deriveRequired_presentAll {required : Finset ℕ}
    (hopt : ∀ m ∈ mods, ∃ n, m = optOut classifications n)
    (h : mods.zipIdx.foldlM (settle classifications) (walk classifications mods) =
      .ok required) :
    deriveRequired classifications
        ((presentAll classifications mods required).map ModEntry.unrequired) =
      .ok (presentAll classifications mods required) := by
  have hagain : ((presentAll classifications mods required).map ModEntry.unrequired).map
      (optOut classifications) = mods.zipIdx.map fun p =>
        (present classifications p.1 (p.2 ∈ required)).unrequired := by
    rw [presentAll, List.map_map, List.map_map]
    refine List.map_congr_left fun p hp => ?_
    obtain ⟨n, hn⟩ := hopt p.1 (List.fst_mem_of_mem_zipIdx hp)
    rw [Function.comp_apply, Function.comp_apply, hn, optOut_present_optOut]
  have hbare : (mods.zipIdx.map fun p =>
      (present classifications p.1 (p.2 ∈ required)).unrequired).map ModEntry.bare =
        mods.map ModEntry.bare := by
    rw [List.map_map, ← List.zipIdx_map_fst 0 (mods.map ModEntry.bare), List.zipIdx_map,
      List.map_map]
    exact List.map_congr_left fun p _ => bare_present p.1 _
  rw [deriveRequired_eq, hagain, walk_congr hbare, zipIdx_map_zipIdx, List.foldlM_map]
  have hsettle : (fun required' (p : ModEntry × ℕ) => settle classifications required'
      ((present classifications p.1 (p.2 ∈ required)).unrequired, p.2)) =
        settle classifications := by
    funext required' p
    exact settle_congr (filename_present _ _) _ _
  rw [hsettle, h]
  refine congrArg Except.ok ?_
  rw [presentAll, presentAll, zipIdx_map_zipIdx, List.map_map]
  exact List.map_congr_left fun p _ => present_present p.1 _

/-- What is derived from the entries of a manifest are these entries. -/
theorem deriveRequired_derived (h : deriveRequired classifications mods = .ok out) :
    deriveRequired classifications (out.map ModEntry.unrequired) = .ok out := by
  rw [deriveRequired_eq] at h
  obtain ⟨required, hfold, rfl⟩ := map_eq_ok.1 h
  refine deriveRequired_presentAll (fun m hm => ?_) hfold
  obtain ⟨n, -, rfl⟩ := List.mem_map.1 hm
  exact ⟨n, rfl⟩

/-- What the content of a build depends on of an entry. -/
def ModEntry.core (m : ModEntry) : ModEntry × String := (m.bare, m.sha1)

theorem core_optOut (m : ModEntry) : (optOut classifications m).core =
    (optOut classifications m.core.1, m.core.2) := by
  rw [optOut_eq, optOut_eq]
  rfl

/-- The content of an entry that is presented. -/
theorem content_present (m : ModEntry) (required : Bool) :
    (present classifications m required).content =
      (m.core.1.filename, m.core.2, required, m.core.1.defaultEnabled) := by
  rw [ModEntry.content, filename_present, sha1_present, required_present, defaultEnabled_present]
  rfl

theorem map_content_presentAll (required : Finset ℕ) :
    (presentAll classifications mods required).map ModEntry.content =
      (mods.map ModEntry.core).zipIdx.map fun p =>
        (p.1.1.filename, p.1.2, decide (p.2 ∈ required), p.1.1.defaultEnabled) := by
  rw [presentAll, List.map_map, List.zipIdx_map, List.map_map]
  exact List.map_congr_left fun p _ => content_present p.1 _

/-- What is derived from entries is in what lands in an instance of them. -/
theorem deriveRequired_congr {mods' : List ModEntry}
    (h : mods.map ModEntry.core = mods'.map ModEntry.core)
    (hout : deriveRequired classifications mods = .ok out) :
    ∃ out', deriveRequired classifications mods' = .ok out' ∧
      out.map ModEntry.content = out'.map ModEntry.content := by
  have hopt : (mods.map (optOut classifications)).map ModEntry.core =
      (mods'.map (optOut classifications)).map ModEntry.core := by
    have hmap := congrArg (List.map fun c => (optOut classifications c.1, c.2)) h
    simpa only [List.map_map, Function.comp_def, core_optOut] using hmap
  have hbare : (mods.map (optOut classifications)).map ModEntry.bare =
      (mods'.map (optOut classifications)).map ModEntry.bare := by
    have hmap := congrArg (List.map Prod.fst) hopt
    simpa only [List.map_map, Function.comp_def, ModEntry.core] using hmap
  have hsettle : ∀ (l : List ModEntry) (required : Finset ℕ),
      l.zipIdx.foldlM (settle classifications) required =
        (l.map ModEntry.bare).zipIdx.foldlM (settle classifications) required := by
    intro l required
    rw [List.zipIdx_map, List.foldlM_map]
    rfl
  rw [deriveRequired_eq] at hout ⊢
  obtain ⟨required, hfold, rfl⟩ := map_eq_ok.1 hout
  rw [hsettle, hbare, ← hsettle, walk_congr hbare] at hfold
  refine ⟨_, map_eq_ok.2 ⟨required, hfold, rfl⟩, ?_⟩
  rw [map_content_presentAll, map_content_presentAll, hopt]

end Derived

end Smrt
