import Smrt.Authoring.ConfigDiff
import Smrt.Authoring.Manifest

/-!
# Running a build

A build reads the jars in the cache before it resolves anything (`prepare`): a mod without a
description gets the one its jar has (`enrichMod`), and a mod without recorded dependencies those
that its jar declares, if the pack has them (`inferMod`). Then the mods are classified
(`classifyPack`), and the manifest is built (`runBuild`).

What lands in an instance depends on some things of a config only (`SameRows`): configs that agree on
these build the same, or neither does (`runBuild_congr`).
-/

namespace Smrt

/-! ## The jars of the cache -/

/-- What the description file of a jar says. -/
structure McModInfo where
  modid : String
  name : String
  description : String
  url : String
  dependencies : List String

/-- What a build reads besides the files: the description of a cached jar, if the jar can be read
    and has one, or an error if it is broken; the classification of a mod that the registry knows;
    and that of a jar alone. -/
structure Shelf extends Upstream where
  mcmodInfo (sha1 : String) : Option (Except String (Option McModInfo))
  placed : SourceDecl → Option Classification
  bare (sha1 : String) : Classification

section Passes

variable (X : Shelf)

/-- What a cached jar says of itself. -/
def readMcmodInfo (sha1 : String) : Except String (Option McModInfo) := do
  refuseIf (¬ isSha1 sha1) ("invalid sha1: " ++ sha1)
  (X.mcmodInfo sha1).getD (.ok none)

/-- A text that says something. -/
def nonBlank (text : String) : Option String := some (trim text) |>.filter fun t => t ≠ ""

/-- A display block, filled from what the jar says. -/
def fillDisplay (d : Display) (info : McModInfo) : Display :=
  { d with
    name := d.name.or (nonBlank info.name)
    description := d.description.or (nonBlank info.description)
    url := d.url.or (nonBlank info.url) }

def enrichMod (m : DeclaredMod) : Except String DeclaredMod :=
  match m.source with
  | .smrtCache sha1 =>
    let d := m.display.getD .default
    if d.name.isSome ∧ d.description.isSome ∧ d.url.isSome then
      .ok { m with display := some d }
    else do
      let info ← readMcmodInfo X sha1
      .ok { m with display := some (info.elim d (fillDisplay d)) }
  | _ => .ok m

/-- The modid that the jar of a mod declares, and the filename of the mod. -/
def declaredModid (m : DeclaredMod) : Except String (Option (String × String)) :=
  match m.source with
  | .smrtCache sha1 =>
    (readMcmodInfo X sha1).map fun info =>
      (info.filter fun i => i.modid ≠ "").map fun i => (i.modid, m.filename)
  | _ => .ok none

/-- The filenames of the modids of a pack. The first one of a modid is what is looked up. -/
def modids (mods : List DeclaredMod) : Except String (List (String × String)) :=
  (mods.mapM (declaredModid X)).map List.reduceOption

/-- The dependencies that a jar declares and the pack has. -/
def declaredEdges (modids : List (String × String)) (info : Option McModInfo) :
    List Requirement :=
  (info.elim [] fun i => i.dependencies).filterMap fun modid =>
    (modids.lookup modid).map fun filename => { filename, versionRange := none, optional := false }

def inferMod (modids : List (String × String)) (m : DeclaredMod) : Except String DeclaredMod :=
  match m.source with
  | .smrtCache sha1 =>
    if m.display.any fun d => d.requires ≠ [] then .ok m
    else do
      let edges := declaredEdges modids (← readMcmodInfo X sha1)
      .ok (if edges = [] then m
        else { m with display := some { m.display.getD .default with requires := edges } })
  | _ => .ok m

/-- The config that is built: with what the jars say. -/
def prepare (cfg : PackConfig) : Except String PackConfig := do
  let mods ← context "enrich-mcmod failed" (cfg.mods.mapM (enrichMod X))
  let modids ← context "infer-requires failed" (modids X mods)
  let mods ← context "infer-requires failed" (mods.mapM (inferMod X modids))
  .ok { cfg with mods }

/-- What is known of a jar alone, if it was scanned. -/
def bareClass (source : SourceDecl) : Option Classification :=
  match source with
  | .smrtCache sha1 => some (X.bare sha1) |>.filter fun c => c.kind.isSome
  | _ => none

/-- The mods of which there is a classification. -/
def classified (classOf : SourceDecl → Option Classification) (mods : List DeclaredMod) :
    List (String × Classification) :=
  mods.filterMap fun m => (classOf m.source).map fun c => (m.filename, c)

/-- The classifications of the mods of a pack: of those that the registry knows, where the last
    one of a filename counts, and else of the jars alone. -/
def classifyPack (mods : List DeclaredMod) : Classifications := fun filename =>
  ((classified X.placed mods).reverse.lookup filename).or
    ((classified (bareClass X) mods).lookup filename)

def runBuild (debug : String → String) (mirrorBase : String) (existing : List String)
    (requested : Option String) (cfg : PackConfig) : Except String Built := do
  let cfg ← prepare X cfg
  context "resolve failed" (buildManifest X.toUpstream debug mirrorBase existing
    (classifyPack X cfg.mods) requested cfg)

end Passes

/-! ## What a build depends on -/

/-- Configs that a build does not tell apart, if the same modids are looked up. -/
structure SameRows (c d : PackConfig) : Prop where
  packId : c.packId = d.packId
  minecraftVersion : c.minecraftVersion = d.minecraftVersion
  loader : c.loader = d.loader
  javaMajor : c.javaMajor = d.javaMajor
  version : c.version = d.version
  mods : (c.mods.map DeclaredMod.read).Perm (d.mods.map DeclaredMod.read)
  assets : (c.assets.map DeclaredAsset.read).Perm (d.assets.map DeclaredAsset.read)

section Congr

variable {X : Upstream} {debug : String → String} {mirrorBase : String} {existing : List String}
  {classifications : Classifications} {requested : Option String} {c d : PackConfig}
  {built : Built}

/-- Mods of which the same is read are resolved to entries with the same content. -/
theorem resolveMod_congr {m n : DeclaredMod} (h : m.read = n.read) {p : ModEntry × Bool}
    (hp : resolveMod X debug mirrorBase m = .ok p) :
    ∃ q, resolveMod X debug mirrorBase n = .ok q ∧ p.1.core = q.1.core := by
  obtain ⟨hname, sha1, size, source, fellBack, hsource, rfl⟩ := resolveMod_eq_ok.1 hp
  simp only [DeclaredMod.read, Prod.mk.injEq] at h
  obtain ⟨hf, hs, he, hr⟩ := h
  refine ⟨_, resolveMod_eq_ok.2 ⟨hf ▸ hname, sha1, size, source, fellBack,
    resolveModSource_congr hs hsource, rfl⟩, ?_⟩
  simp only [ModEntry.core, ModEntry.bare, hf, he, hr]

/-- Assets of which the same is read are resolved to entries with the same content. -/
theorem resolveAsset_congr {packId : String} {a b : DeclaredAsset} (h : a.read = b.read)
    {e : AssetEntry} (he : resolveAsset X debug mirrorBase packId a = .ok e) :
    ∃ f, resolveAsset X debug mirrorBase packId b = .ok f ∧ e.content = f.content := by
  obtain ⟨hdest, sha1, size, source, hsource, rfl⟩ := resolveAsset_eq_ok.1 he
  simp only [DeclaredAsset.read, Prod.mk.injEq] at h
  obtain ⟨hd, hs, hr⟩ := h
  have hsame : resolveAssetSource X mirrorBase packId b =
      resolveAssetSource X mirrorBase packId a := by
    rw [resolveAssetSource.eq_def, resolveAssetSource.eq_def, hd, hs]
  refine ⟨_, resolveAsset_eq_ok.2 ⟨hd ▸ hdest, sha1, size, source, hsame.trans hsource, rfl⟩, ?_⟩
  simp only [AssetEntry.content, hd, hr]

/-- The entries of mods, sorted by their filenames, have the same content. -/
theorem map_core_sortMods {l m : List DeclaredMod} {mods mods' : List (ModEntry × Bool)}
    (hperm : (l.map DeclaredMod.read).Perm (m.map DeclaredMod.read))
    (hn : (l.map DeclaredMod.filename).Nodup)
    (h : List.Forall₂ (fun m p => resolveMod X debug mirrorBase m = .ok p) l mods)
    (h' : List.Forall₂ (fun m p => resolveMod X debug mirrorBase m = .ok p) m mods') :
    (sortMods (mods.map Prod.fst)).map ModEntry.core =
      (sortMods (mods'.map Prod.fst)).map ModEntry.core := by
  refine map_eq_of_forall₂_of_map_eq DeclaredMod.read ?_ (forall₂_sortMods h)
    (forall₂_sortMods h') (map_insertionSort_eq_of_perm Prod.fst hperm hn)
  rintro m n e f hread ⟨p, hp, rfl⟩ ⟨q, hq, rfl⟩
  obtain ⟨q', hq', hcore⟩ := resolveMod_congr hread hp
  obtain rfl := Except.ok.inj (hq.symm.trans hq')
  exact hcore

theorem map_content_sortAssets {packId : String} {l m : List DeclaredAsset}
    {assets assets' : List AssetEntry}
    (hperm : (l.map DeclaredAsset.read).Perm (m.map DeclaredAsset.read))
    (hn : (l.map DeclaredAsset.dest).Nodup)
    (h : List.Forall₂ (fun a e => resolveAsset X debug mirrorBase packId a = .ok e) l assets)
    (h' : List.Forall₂ (fun a e => resolveAsset X debug mirrorBase packId a = .ok e) m assets') :
    (sortAssets assets).map AssetEntry.content = (sortAssets assets').map AssetEntry.content := by
  refine map_eq_of_forall₂_of_map_eq DeclaredAsset.read ?_ (forall₂_sortAssets h)
    (forall₂_sortAssets h') (map_insertionSort_eq_of_perm Prod.fst hperm hn)
  intro a b e f hread he hf
  obtain ⟨f', hf', hcontent⟩ := resolveAsset_congr hread he
  obtain rfl := Except.ok.inj (hf.symm.trans hf')
  exact hcontent

/-- Configs with the same rows are built alike. -/
theorem buildManifest_congr (h : SameRows c d) (hc : c.NamedOnce)
    (hbuilt : buildManifest X debug mirrorBase existing classifications requested c = .ok built) :
    ∃ built', buildManifest X debug mirrorBase existing classifications requested d =
        .ok built' ∧
      built.manifest.content = built'.manifest.content ∧
      built.fingerprint = built'.fingerprint := by
  obtain ⟨packVersion, mods, assets, hversion, hmods, hassets, hassemble⟩ :=
    buildManifest_eq_ok.1 hbuilt
  obtain ⟨derived, hderived, rfl⟩ := assemble_eq_ok.1 hassemble
  -- The rows of the other config are resolved too, and the entries agree.
  obtain ⟨mods', hmods'⟩ := exists_forall₂_of_perm
    (fun m n p hr hp => (resolveMod_congr hr hp).imp fun _ hq => hq.1) hmods h.mods
  obtain ⟨assets', hassets'⟩ := exists_forall₂_of_perm
    (fun a b e hr he => (resolveAsset_congr hr he).imp fun _ hf => hf.1) hassets h.assets
  obtain ⟨derived', hderived', hmod⟩ :=
    deriveRequired_congr (map_core_sortMods h.mods hc.1 hmods hmods') hderived
  have hasset := map_content_sortAssets h.assets hc.2 hassets hassets'
  have hversion' : resolveVersion debug existing requested d = .ok packVersion := by
    rw [resolveVersion, ← h.version]
    exact hversion
  rw [h.packId] at hassets'
  refine ⟨_, buildManifest_eq_ok.2 ⟨packVersion, mods', assets', hversion', hmods', hassets',
    assemble_eq_ok.2 ⟨derived', hderived', rfl⟩⟩, ?_, contentFingerprint_congr ?_⟩ <;>
  simp only [PackManifest.content, h.minecraftVersion, h.loader, h.javaMajor, hmod, hasset]

end Congr

/-! ## What the jars add -/

section Prepare

variable {X : Shelf} {c c' d : PackConfig}

/-- The jar behind a source can be read, if it is one of the cache. -/
def Ready (X : Shelf) (source : SourceDecl) : Prop :=
  ∀ sha1, source = .smrtCache sha1 → ∃ info, readMcmodInfo X sha1 = .ok info

/-- What is read of a mod with another display block. -/
theorem read_display {m : DeclaredMod} {d : Display} : ({ m with display := some d }).read =
    (m.filename, m.source, m.defaultEnabled, d.requires) := rfl

/-- Describing a mod changes nothing that is read of it. -/
theorem read_enrichMod {m m' : DeclaredMod} (h : enrichMod X m = .ok m') : m'.read = m.read := by
  have hrequires : m.read = (m.filename, m.source, m.defaultEnabled,
      (m.display.getD .default).requires) := by
    rw [DeclaredMod.read]
    rcases m.display with _ | d <;> rfl
  rw [enrichMod.eq_def] at h
  split at h
  · dsimp only at h
    split_ifs at h
    · rw [← Except.ok.inj h, hrequires, read_display]
    · obtain ⟨info, -, h⟩ := bind_eq_ok.1 h
      rw [← Except.ok.inj h, hrequires, read_display]
      rcases info with _ | info <;> rfl
  · rw [Except.ok.inj h]

theorem exists_enrichMod {m : DeclaredMod} (h : Ready X m.source) :
    ∃ m', enrichMod X m = .ok m' := by
  rw [enrichMod.eq_def]
  rcases hs : m.source with ⟨projectId, versionId⟩ | sha1 | relPath <;> simp only
  · exact ⟨_, rfl⟩
  · split_ifs
    · exact ⟨_, rfl⟩
    · obtain ⟨info, hinfo⟩ := h sha1 hs
      exact ⟨_, bind_eq_ok.2 ⟨info, hinfo, rfl⟩⟩
  · exact ⟨_, rfl⟩

/-- The dependencies of a mod: those recorded, or else those that its jar declares. -/
def inferredRequires (X : Shelf) (modids : List (String × String)) (source : SourceDecl)
    (recorded : List Requirement) : List Requirement :=
  match source with
  | .smrtCache sha1 =>
    if recorded = [] then declaredEdges modids (readMcmodInfo X sha1).toOption.join else recorded
  | _ => recorded

theorem inferredRequires_of_ne {modids : List (String × String)} {source : SourceDecl}
    {recorded : List Requirement} (h : recorded ≠ []) :
    inferredRequires X modids source recorded = recorded := by
  rw [inferredRequires.eq_def]
  split
  · rw [if_neg h]
  · rfl

/-- What is read of a mod with the dependencies that its jar declares. -/
def inferRead (X : Shelf) (modids : List (String × String))
    (r : String × SourceDecl × Bool × List Requirement) :
    String × SourceDecl × Bool × List Requirement :=
  (r.1, r.2.1, r.2.2.1, inferredRequires X modids r.2.1 r.2.2.2)

theorem read_inferMod {modids : List (String × String)} {m m' : DeclaredMod}
    (h : inferMod X modids m = .ok m') : m'.read = inferRead X modids m.read := by
  have hread : inferRead X modids m.read = (m.filename, m.source, m.defaultEnabled,
      inferredRequires X modids m.source (m.display.elim [] fun d => d.requires)) := rfl
  rw [hread]
  rw [inferMod.eq_def] at h
  split at h
  next sha1 hs =>
    split_ifs at h with hrecorded
    · have hne : (m.display.elim [] fun d => d.requires) ≠ [] := by
        rcases hd : m.display with _ | d
        · exact absurd hrecorded (by simp [hd])
        · simpa [hd] using hrecorded
      rw [inferredRequires_of_ne hne, ← Except.ok.inj h, DeclaredMod.read]
    · have hempty : (m.display.elim [] fun d => d.requires) = [] := by
        rcases hd : m.display with _ | d
        · rfl
        · simpa [hd] using hrecorded
      obtain ⟨info, hinfo, h⟩ := bind_eq_ok.1 h
      have hedges : inferredRequires X modids m.source [] = declaredEdges modids info := by
        rw [hs, inferredRequires, if_pos rfl, hinfo]
        rfl
      rw [hempty, hedges, ← Except.ok.inj h]
      split_ifs with hnone
      · rw [DeclaredMod.read, hempty, hnone]
      · rw [read_display]
  next hs =>
    have hsame : inferredRequires X modids m.source (m.display.elim [] fun d => d.requires) =
        m.display.elim [] fun d => d.requires := by
      rw [inferredRequires.eq_def]
      split
      next sha1 hs' => exact absurd hs' (hs sha1)
      next => rfl
    rw [hsame, ← Except.ok.inj h, DeclaredMod.read]

theorem exists_inferMod (modids : List (String × String)) {m : DeclaredMod}
    (h : Ready X m.source) : ∃ m', inferMod X modids m = .ok m' := by
  rw [inferMod.eq_def]
  rcases hs : m.source with ⟨projectId, versionId⟩ | sha1 | relPath <;> simp only
  · exact ⟨_, rfl⟩
  · split_ifs
    · exact ⟨_, rfl⟩
    · obtain ⟨info, hinfo⟩ := h sha1 hs
      exact ⟨_, bind_eq_ok.2 ⟨info, hinfo, rfl⟩⟩
  · exact ⟨_, rfl⟩

/-- The jar of a mod is read for its modid. -/
theorem exists_declaredModid {m : DeclaredMod} :
    (∃ o, declaredModid X m = .ok o) ↔ Ready X m.source := by
  rw [declaredModid.eq_def]
  split
  next sha1 hs =>
    constructor
    · rintro ⟨o, ho⟩ sha1' hs'
      obtain ⟨info, hinfo, -⟩ := map_eq_ok.1 ho
      obtain rfl := SourceDecl.smrtCache.inj (hs.symm.trans hs')
      exact ⟨info, hinfo⟩
    · intro h
      obtain ⟨info, hinfo⟩ := h sha1 hs
      exact ⟨_, map_eq_ok.2 ⟨info, hinfo, rfl⟩⟩
  next hs => exact ⟨fun _ sha1 hs' => absurd hs' (hs sha1), fun _ => ⟨_, rfl⟩⟩

/-- The modids of a pack are known if all of its jars can be read. -/
theorem exists_modids {mods : List DeclaredMod} :
    (∃ l, modids X mods = .ok l) ↔ ∀ m ∈ mods, Ready X m.source := by
  simp only [modids, map_eq_ok, mapM_eq_ok]
  constructor
  · rintro ⟨-, os, hos, -⟩ m hm
    exact exists_declaredModid.1 (exists_of_mem_left hos hm)
  · intro h
    obtain ⟨os, hos⟩ := exists_forall₂ fun m hm => exists_declaredModid.2 (h m hm)
    exact ⟨_, os, hos, rfl⟩

/-- The modids are of what is read of the mods. -/
theorem modids_congr {mods mods' : List DeclaredMod}
    (h : mods.map DeclaredMod.read = mods'.map DeclaredMod.read) :
    modids X mods = modids X mods' := by
  have hread : ∀ l : List DeclaredMod, l.mapM (declaredModid X) =
      (l.map DeclaredMod.read).mapM fun r => declaredModid X
        { filename := r.1, source := r.2.1, defaultEnabled := r.2.2.1, display := none,
          slug := none, pulled := false } := by
    intro l
    rw [List.mapM_map]
    rfl
  rw [modids, modids, hread, hread, h]

/-- A pack is prepared if its jars can be read; then its mods have what these declare. -/
theorem prepare_spec (h : prepare X c = .ok c') : ∃ l, modids X c.mods = .ok l ∧
    c' = { c with mods := c'.mods } ∧
    c'.mods.map DeclaredMod.read = (c.mods.map DeclaredMod.read).map (inferRead X l) := by
  simp only [prepare, bind_eq_ok, context, mapError_eq_ok, mapM_eq_ok] at h
  obtain ⟨mods, hmods, l, hl, mods', hmods', h⟩ := h
  obtain rfl := Except.ok.inj h
  have hread : mods.map DeclaredMod.read = c.mods.map DeclaredMod.read :=
    (map_eq_of_forall₂ (hmods.imp fun m m' hm => (read_enrichMod hm).symm)).symm
  refine ⟨l, modids_congr hread ▸ hl, rfl, ?_⟩
  rw [← hread, List.map_map]
  exact (map_eq_of_forall₂ (hmods'.imp fun m m' hm => (read_inferMod hm).symm)).symm

theorem exists_prepare (h : ∀ m ∈ c.mods, Ready X m.source) : ∃ c', prepare X c = .ok c' := by
  obtain ⟨mods, hmods⟩ := exists_forall₂ fun m hm => exists_enrichMod (h m hm)
  have hread : mods.map DeclaredMod.read = c.mods.map DeclaredMod.read :=
    (map_eq_of_forall₂ (hmods.imp fun m m' hm => (read_enrichMod hm).symm)).symm
  obtain ⟨l, hl⟩ := exists_modids.2 h
  have hready : ∀ m ∈ mods, Ready X m.source := exists_modids.1 ⟨l, modids_congr hread ▸ hl⟩
  obtain ⟨mods', hmods'⟩ := exists_forall₂ fun m hm => exists_inferMod l (hready m hm)
  refine ⟨{ c with mods := mods' }, ?_⟩
  simp only [prepare, bind_eq_ok, context, mapError_eq_ok, mapM_eq_ok]
  exact ⟨mods, hmods, l, modids_congr hread ▸ hl, mods', hmods', rfl⟩

/-- What the jars add depends on what is looked up of the modids. -/
theorem inferRead_congr {l l' : List (String × String)}
    (h : ∀ modid, l.lookup modid = l'.lookup modid) : inferRead X l = inferRead X l' := by
  have hedges : declaredEdges l = declaredEdges l' := by
    funext info
    rw [declaredEdges, declaredEdges]
    simp only [h]
  funext r
  rw [inferRead, inferRead, inferredRequires.eq_def, inferredRequires.eq_def, hedges]

/-- The filename of a mod is read. -/
theorem map_filename (mods : List DeclaredMod) :
    mods.map DeclaredMod.filename = (mods.map DeclaredMod.read).map Prod.fst := by
  rw [List.map_map]
  rfl

/-- The classified mods are of what is read of the mods. -/
theorem classified_eq (classOf : SourceDecl → Option Classification) (mods : List DeclaredMod) :
    classified classOf mods = (mods.map DeclaredMod.read).filterMap fun r =>
      (classOf r.2.1).map fun c => (r.1, c) := by
  rw [classified, List.filterMap_map]
  rfl

/-- Mods with distinct names are classified once. -/
theorem nodup_classified {classOf : SourceDecl → Option Classification} {mods : List DeclaredMod}
    (hn : (mods.map DeclaredMod.filename).Nodup) :
    ((classified classOf mods).map Prod.fst).Nodup := by
  refine hn.sublist ?_
  rw [classified]
  induction mods with
  | nil => exact List.Sublist.refl _
  | cons m mods ih =>
    rw [List.filterMap_cons, List.map_cons]
    rw [List.map_cons] at hn
    rcases classOf m.source with _ | c
    · exact (ih hn.of_cons).cons _
    · exact (ih hn.of_cons).cons_cons _

/-- The order of the mods does not matter to what is known of them. -/
theorem classifyPack_congr {mods mods' : List DeclaredMod}
    (h : (mods.map DeclaredMod.read).Perm (mods'.map DeclaredMod.read))
    (hn : (mods.map DeclaredMod.filename).Nodup) : classifyPack X mods = classifyPack X mods' := by
  have hperm : ∀ classOf, (classified classOf mods).Perm (classified classOf mods') := by
    intro classOf
    rw [classified_eq, classified_eq]
    exact h.filterMap _
  have hlookup : ∀ classOf filename, (classified classOf mods).lookup filename =
      (classified classOf mods').lookup filename := fun classOf filename =>
    lookup_eq_of_perm (hperm classOf) (nodup_classified hn) filename
  have hreverse : ((classified X.placed mods).reverse.map Prod.fst).Nodup := by
    rw [List.map_reverse]
    exact List.nodup_reverse.2 (nodup_classified hn)
  funext filename
  rw [classifyPack, classifyPack, hlookup, lookup_eq_of_perm
    (((List.reverse_perm _).trans (hperm X.placed)).trans (List.reverse_perm _).symm) hreverse]

end Prepare

/-! ## Builds of the same rows -/

section Run

variable {X : Shelf} {debug : String → String} {mirrorBase : String} {existing : List String}
  {requested : Option String} {c d : PackConfig} {built : Built}

/-- Configs of the same rows, of which the same modids are looked up, are built alike. -/
theorem runBuild_congr (h : SameRows c d) (hc : c.NamedOnce)
    (hmodids : ∀ l l', modids X c.mods = .ok l → modids X d.mods = .ok l' →
      ∀ modid, l.lookup modid = l'.lookup modid)
    (hbuilt : runBuild X debug mirrorBase existing requested c = .ok built) :
    ∃ built', runBuild X debug mirrorBase existing requested d = .ok built' ∧
      built.manifest.content = built'.manifest.content ∧
      built.fingerprint = built'.fingerprint := by
  simp only [runBuild, bind_eq_ok, context, mapError_eq_ok] at hbuilt ⊢
  obtain ⟨c', hc', hbuilt⟩ := hbuilt
  obtain ⟨l, hl, hcfg, hread⟩ := prepare_spec hc'
  -- The jars of the other config are the same ones, in some order.
  have hready : ∀ m ∈ d.mods, Ready X m.source := by
    intro m hm
    obtain ⟨n, hn, hnm⟩ := List.mem_map.1 (h.mods.mem_iff.2 (List.mem_map_of_mem hm))
    have hs : n.source = m.source := congrArg (fun r => r.2.1) hnm
    exact hs ▸ exists_modids.1 ⟨l, hl⟩ n hn
  obtain ⟨d', hd'⟩ := exists_prepare hready
  obtain ⟨l', hl', hcfg', hread'⟩ := prepare_spec hd'
  have hmods : (c'.mods.map DeclaredMod.read).Perm (d'.mods.map DeclaredMod.read) := by
    rw [hread, hread', inferRead_congr (hmodids l l' hl hl')]
    exact h.mods.map _
  have hnames : (c'.mods.map DeclaredMod.filename).Nodup := by
    have hsame : c'.mods.map DeclaredMod.filename = c.mods.map DeclaredMod.filename := by
      rw [map_filename, map_filename, hread, List.map_map]
      rfl
    exact hsame ▸ hc.1
  have hrows : SameRows c' d' := by
    rw [hcfg, hcfg']
    exact ⟨h.packId, h.minecraftVersion, h.loader, h.javaMajor, h.version, hmods, h.assets⟩
  have hassets : (c'.assets.map DeclaredAsset.dest).Nodup := by
    rw [hcfg]
    exact hc.2
  rw [classifyPack_congr hmods hnames] at hbuilt
  obtain ⟨built', hbuilt', hcontent⟩ := buildManifest_congr hrows ⟨hnames, hassets⟩ hbuilt
  exact ⟨built', ⟨d', hd', hbuilt'⟩, hcontent⟩

end Run

end Smrt
