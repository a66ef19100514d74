import Mathlib.Data.Set.Function
import Smrt.Authoring.DiffRows

/-!
# What the diff of two configs sees

The diff compares the fields of a pack as they are shown: a loader as its name and its version with
a blank between them, tags with commas, a source by what it points at. So it is empty for configs
that read the same, and these may still be different (`Agree`): two tags may read as one tag with a
comma in it, and an asset may come from another project under the same version.

* `agree_of_diffConfigs_eq_nil`: configs without a difference agree, if what they have is told apart
  by how it reads;
* `missesNothing_iff`: of what configs may be made of, this is exactly what is needed.
-/

namespace Smrt

/-- The same mod, as it was authored. -/
structure AgreeMod (was now : DeclaredMod) : Prop where
  filename : was.filename = now.filename
  source : was.source = now.source
  defaultEnabled : was.defaultEnabled = now.defaultEnabled
  slug : was.slug = now.slug
  display : authoredDisplay was.display = authoredDisplay now.display

/-- The same asset, as it was authored. -/
structure AgreeAsset (was now : DeclaredAsset) : Prop where
  dest : was.dest = now.dest
  source : was.source = now.source
  required : was.required = now.required
  display : authoredDisplay was.display = authoredDisplay now.display

/-- The same config, as it was authored: every declared mod and every asset of the one is one of the
    other, the same, under the same filename or destination. -/
structure Agree (a b : PackConfig) : Prop where
  minecraftVersion : a.minecraftVersion = b.minecraftVersion
  loader : a.loader = b.loader
  javaMajor : a.javaMajor = b.javaMajor
  version : a.version.getD "" = b.version.getD ""
  displayName : a.displayName = b.displayName
  tagline : a.tagline = b.tagline
  featured : a.featured = b.featured
  tags : a.tags = b.tags
  packMeta : a.packMeta = b.packMeta
  auth : a.auth = b.auth
  mods : Matched AgreeMod (declaredMods a) (declaredMods b)
  assets : Matched AgreeAsset a.assets b.assets

/-! ## What configs are made of -/

/-- A loader, as it is shown. -/
def loaderText (l : LoaderSpec) : String := l.name ++ " " ++ l.version

/-- Tags, as they are shown. -/
def tagsText (tags : List String) : String := String.intercalate ", " tags

/-- Loaders, lists of tags, and sources of mods and of assets. -/
structure Vocabulary where
  loaders : Set LoaderSpec
  tags : Set (List String)
  modSources : Set SourceDecl
  assetSources : Set SourceDecl

/-- A config has nothing else of these. -/
structure Vocabulary.Has (V : Vocabulary) (c : PackConfig) : Prop where
  loader : c.loader ∈ V.loaders
  tags : c.tags ∈ V.tags
  mods : ∀ m ∈ declaredMods c, m.source ∈ V.modSources
  assets : ∀ a ∈ c.assets, a.source ∈ V.assetSources

/-- Of these no two read the same. -/
structure Vocabulary.Told (V : Vocabulary) : Prop where
  loaders : Set.InjOn loaderText V.loaders
  tags : Set.InjOn tagsText V.tags
  modSources : Set.InjOn (fun s => (pin s, projectOf s)) V.modSources
  assetSources : Set.InjOn pin V.assetSources

/-- The diff misses nothing that was authored. -/
def MissesNothing (V : Vocabulary) : Prop :=
  ∀ a b, V.Has a → V.Has b → a.duplicateDeclaration = none → b.duplicateDeclaration = none →
    diffConfigs a b = [] → Agree a b

section Seen

variable {V : Vocabulary} {a b c : PackConfig}

theorem valueRow_eq_nil_iff {field was now : String} : valueRow field was now = [] ↔ was = now :=
  ite_cons_eq_nil.trans not_not

theorem opaqueRow_eq_nil_iff {α : Type} [DecidableEq α] {field : String} {was now : α} :
    opaqueRow field was now = [] ↔ was = now := ite_cons_eq_nil.trans not_not

theorem diffConfigs_eq_nil_iff :
    diffConfigs a b = [] ↔ packRows a b = [] ∧ modRows a b = [] ∧ assetRows a b = [] := by
  have hsort : ∀ rows, sortRows rows = [] ↔ rows = [] := fun rows =>
    ⟨sortRows_eq_nil, fun h => by rw [h]; rfl⟩
  rw [diffConfigs, List.append_eq_nil_iff, List.append_eq_nil_iff, hsort, hsort, and_assoc]

/-- The fields of a pack are not different if and only if they read the same. -/
theorem packRows_eq_nil_iff : packRows a b = [] ↔
    a.minecraftVersion = b.minecraftVersion ∧ loaderText a.loader = loaderText b.loader ∧
      a.javaMajor = b.javaMajor ∧ a.version.getD "" = b.version.getD "" ∧
      a.displayName = b.displayName ∧ a.tagline = b.tagline ∧ a.featured = b.featured ∧
      tagsText a.tags = tagsText b.tags ∧ a.packMeta = b.packMeta ∧ a.auth = b.auth := by
  have hjava : toString a.javaMajor = toString b.javaMajor ↔ a.javaMajor = b.javaMajor := by
    refine ⟨fun h => ?_, fun h => by rw [h]⟩
    have hrepr : a.javaMajor.toNat.repr = b.javaMajor.toNat.repr := h
    exact UInt32.toNat_inj.1 (eq_of_repr hrepr)
  have hfeatured : toString a.featured = toString b.featured ↔ a.featured = b.featured := by
    rcases a.featured <;> rcases b.featured <;> decide
  simp only [packRows, List.append_eq_nil_iff, valueRow_eq_nil_iff, opaqueRow_eq_nil_iff, hjava,
    hfeatured, and_assoc, loaderText, tagsText]

/-- Configs that read the same agree, if what they have is told apart by how it reads. -/
theorem agree_of_diffConfigs_eq_nil (hV : V.Told) (ha : V.Has a) (hb : V.Has b)
    (hna : a.NamedOnce) (hnb : b.NamedOnce) (h : diffConfigs a b = []) : Agree a b := by
  obtain ⟨hpack, hmods, hassets⟩ := diffConfigs_eq_nil_iff.1 h
  obtain ⟨hminecraft, hloader, hjava, hversion, hname, htagline, hfeatured, htags, hmeta, hauth⟩ :=
    packRows_eq_nil_iff.1 hpack
  have hsame := matched_of_keyedRows modChanges sameMod_of_modChanges (authoredMods_spec hna)
    (authoredMods_spec hnb) hmods
  have hsameAssets := matched_of_keyedRows assetChanges sameAsset_of_assetChanges
    (assetsByDest_spec hna) (assetsByDest_spec hnb) hassets
  have hmod : ∀ m ∈ declaredMods a, ∀ n ∈ declaredMods b, SameMod m n → AgreeMod m n :=
    fun m hm n hn hs => ⟨hs.filename, hV.modSources (ha.mods m hm) (hb.mods n hn)
      (Prod.ext hs.pin hs.project), hs.defaultEnabled, hs.slug, hs.display⟩
  have hasset : ∀ m ∈ a.assets, ∀ n ∈ b.assets, SameAsset m n → AgreeAsset m n :=
    fun m hm n hn hs => ⟨hs.dest, hV.assetSources (ha.assets m hm) (hb.assets n hn) hs.pin,
      hs.required, hs.display⟩
  refine ⟨hminecraft, hV.loaders ha.loader hb.loader hloader, hjava, hversion, hname, htagline,
    hfeatured, hV.tags ha.tags hb.tags htags, hmeta, hauth, ⟨?_, ?_⟩, ⟨?_, ?_⟩⟩
  · intro m hm
    obtain ⟨n, hn, hs⟩ := hsame.1 m hm
    exact ⟨n, hn, hmod m hm n hn hs⟩
  · intro n hn
    obtain ⟨m, hm, hs⟩ := hsame.2 n hn
    exact ⟨m, hm, hmod m hm n hn hs⟩
  · intro m hm
    obtain ⟨n, hn, hs⟩ := hsameAssets.1 m hm
    exact ⟨n, hn, hasset m hm n hn hs⟩
  · intro n hn
    obtain ⟨m, hm, hs⟩ := hsameAssets.2 n hn
    exact ⟨m, hm, hasset m hm n hn hs⟩

/-! ## Configs that read the same -/

/-- A config with other fields that are shown as text, and other rows. -/
def shownAs (c : PackConfig) (loader : LoaderSpec) (tags : List String) (mods : List DeclaredMod)
    (assets : List DeclaredAsset) : PackConfig :=
  { c with loader, tags, mods, assets }

/-- A mod that is named after nothing but its file. -/
def plainMod (source : SourceDecl) : DeclaredMod := ⟨"mod.jar", true, source, none, none, false⟩

def plainAsset (source : SourceDecl) : DeclaredAsset := ⟨"config/mod.cfg", true, source, none⟩

theorem identity_plainMod {s t : SourceDecl} (h : projectOf s = projectOf t) :
    identity (plainMod s) = identity (plainMod t) := by
  rcases s with ⟨p, v⟩ | sha1 | path <;> rcases t with ⟨p', v'⟩ | sha1' | path' <;>
    simp_all [projectOf, identity, plainMod]

/-- Of sources that the diff does not tell apart a mod can have the one or the other. -/
theorem diffConfigs_plainMod {s t : SourceDecl} (hpin : pin s = pin t)
    (hproject : projectOf s = projectOf t) :
    diffConfigs (shownAs c c.loader c.tags [plainMod s] [])
      (shownAs c c.loader c.tags [plainMod t] []) = [] := by
  have hmods : ∀ s, authoredMods (shownAs c c.loader c.tags [plainMod s] []) =
      [(identity (plainMod s), plainMod s)] := fun _ => rfl
  have hsame : modChanges (identity (plainMod t)) (plainMod s) (plainMod t) = [] := by
    simp [modChanges, plainMod, hpin, hproject]
  refine diffConfigs_eq_nil_iff.2 ⟨packRows_eq_nil_iff.2 ?_, ?_, rfl⟩
  · exact ⟨rfl, rfl, rfl, rfl, rfl, rfl, rfl, rfl, rfl, rfl⟩
  · rw [modRows, hmods, hmods, identity_plainMod hproject]
    exact keyedRows_singleton hsame

theorem diffConfigs_plainAsset {s t : SourceDecl} (hpin : pin s = pin t) :
    diffConfigs (shownAs c c.loader c.tags [] [plainAsset s])
      (shownAs c c.loader c.tags [] [plainAsset t]) = [] := by
  have hsame : assetChanges "config/mod.cfg" (plainAsset s) (plainAsset t) = [] := by
    simp [assetChanges, plainAsset, hpin]
  refine diffConfigs_eq_nil_iff.2 ⟨packRows_eq_nil_iff.2 ?_, rfl, ?_⟩
  · exact ⟨rfl, rfl, rfl, rfl, rfl, rfl, rfl, rfl, rfl, rfl⟩
  · exact keyedRows_singleton hsame

/-- So do loaders and tags that read the same. -/
theorem diffConfigs_shown {l l' : LoaderSpec} {t t' : List String}
    (hl : loaderText l = loaderText l') (ht : tagsText t = tagsText t') :
    diffConfigs (shownAs c l t [] []) (shownAs c l' t' [] []) = [] :=
  diffConfigs_eq_nil_iff.2 ⟨packRows_eq_nil_iff.2
    ⟨rfl, hl, rfl, rfl, rfl, rfl, rfl, ht, rfl, rfl⟩, rfl, rfl⟩

theorem has_shownAs {l : LoaderSpec} {t : List String} {mods : List DeclaredMod}
    {assets : List DeclaredAsset} (hl : l ∈ V.loaders) (ht : t ∈ V.tags)
    (hmods : ∀ m ∈ mods, m.source ∈ V.modSources)
    (hassets : ∀ a ∈ assets, a.source ∈ V.assetSources) : V.Has (shownAs c l t mods assets) :=
  ⟨hl, ht, fun m hm => hmods m (List.mem_of_mem_filter hm), hassets⟩

theorem duplicateDeclaration_shownAs (l : LoaderSpec) (t : List String) {mods : List DeclaredMod}
    {assets : List DeclaredAsset} (hmods : mods.length ≤ 1) (hassets : assets.length ≤ 1) :
    (shownAs c l t mods assets).duplicateDeclaration = none := by
  have hnodup : ∀ {α : Type} (f : α → String) (l : List α), l.length ≤ 1 → (l.map f).Nodup :=
    fun f l hl => by
      rcases l with _ | ⟨a, _ | _⟩
      · exact List.nodup_nil
      · exact List.nodup_singleton _
      · simp at hl
  exact PackConfig.duplicateDeclaration_eq_none.2
    ⟨⟨hnodup _ _ hmods, hnodup _ _ hmods⟩, hnodup _ _ hassets⟩

/-- The diff misses nothing of what configs are made of if and only if no two loaders, lists of
    tags or sources in it read the same. -/
theorem missesNothing_iff (hc : V.Has c) : MissesNothing V ↔ V.Told := by
  have hno : ∀ {α : Type} {P : α → Prop}, ∀ a ∈ ([] : List α), P a :=
    fun a ha => absurd ha List.not_mem_nil
  constructor
  · intro h
    refine ⟨fun l hl l' hl' heq => ?_, fun t ht t' ht' heq => ?_, fun s hs t ht heq => ?_,
      fun s hs t ht heq => ?_⟩
    · have hagree := h (shownAs c l c.tags [] []) (shownAs c l' c.tags [] [])
        (has_shownAs hl hc.tags hno hno) (has_shownAs hl' hc.tags hno hno)
        (duplicateDeclaration_shownAs _ _ (Nat.zero_le 1) (Nat.zero_le 1))
        (duplicateDeclaration_shownAs _ _ (Nat.zero_le 1) (Nat.zero_le 1))
        (diffConfigs_shown heq rfl)
      exact hagree.loader
    · have hagree := h (shownAs c c.loader t [] []) (shownAs c c.loader t' [] [])
        (has_shownAs hc.loader ht hno hno) (has_shownAs hc.loader ht' hno hno)
        (duplicateDeclaration_shownAs _ _ (Nat.zero_le 1) (Nat.zero_le 1))
        (duplicateDeclaration_shownAs _ _ (Nat.zero_le 1) (Nat.zero_le 1))
        (diffConfigs_shown rfl heq)
      exact hagree.tags
    · obtain ⟨hpin, hproject⟩ := Prod.mk.inj heq
      have hhas : ∀ s ∈ V.modSources, V.Has (shownAs c c.loader c.tags [plainMod s] []) :=
        fun s hs => has_shownAs hc.loader hc.tags
          (fun m hm => by rwa [List.mem_singleton.1 hm]) hno
      have hagree := h _ _ (hhas s hs) (hhas t ht)
        (duplicateDeclaration_shownAs _ _ le_rfl (Nat.zero_le 1))
        (duplicateDeclaration_shownAs _ _ le_rfl (Nat.zero_le 1))
        (diffConfigs_plainMod hpin hproject)
      obtain ⟨n, hn, hs⟩ := hagree.mods.1 (plainMod s) (List.mem_singleton_self _)
      obtain rfl : n = plainMod t := List.mem_singleton.1 hn
      exact hs.source
    · have hhas : ∀ s ∈ V.assetSources, V.Has (shownAs c c.loader c.tags [] [plainAsset s]) :=
        fun s hs => has_shownAs hc.loader hc.tags hno
          (fun a ha => by rwa [List.mem_singleton.1 ha])
      have hagree := h _ _ (hhas s hs) (hhas t ht)
        (duplicateDeclaration_shownAs _ _ (Nat.zero_le 1) le_rfl)
        (duplicateDeclaration_shownAs _ _ (Nat.zero_le 1) le_rfl) (diffConfigs_plainAsset heq)
      obtain ⟨n, hn, hs⟩ := hagree.assets.1 (plainAsset s) (List.mem_singleton_self _)
      obtain rfl : n = plainAsset t := List.mem_singleton.1 hn
      exact hs.source
  · exact fun hV a b ha hb hda hdb hdiff => agree_of_diffConfigs_eq_nil hV ha hb
      (PackConfig.namedOnce_of_duplicateDeclaration hda)
      (PackConfig.namedOnce_of_duplicateDeclaration hdb) hdiff

end Seen

/-- Forge packs with two tags, whose files come from the first version of a project. -/
def firstVersions : Vocabulary where
  loaders := {⟨"forge", "14.23.5.2922"⟩}
  tags := {[], ["tech"], ["magic"]}
  modSources := {s | ∃ project, s = .modrinth project "1"}
  assetSources := {s | ∃ project, s = .modrinth project "1"}

theorem missesNothing_firstVersions : MissesNothing firstVersions ↔ firstVersions.Told :=
  missesNothing_iff (c := .empty "Industrial")
    ⟨rfl, .inl rfl, fun _ hm => absurd hm List.not_mem_nil, fun _ ha => absurd ha List.not_mem_nil⟩

/-- A pack with one file, of the first version of a project. -/
def withAsset (project : String) : PackConfig :=
  shownAs (.empty "Industrial") ⟨"forge", "14.23.5.2922"⟩ [] [] [plainAsset (.modrinth project "1")]

/-- The diff does not see that the file comes from another project. -/
theorem not_agree_withAsset : (withAsset "ae2").duplicateDeclaration = none ∧
    (withAsset "rei").duplicateDeclaration = none ∧
    diffConfigs (withAsset "ae2") (withAsset "rei") = [] ∧
    ¬ Agree (withAsset "ae2") (withAsset "rei") := by
  refine ⟨by decide, by decide, diffConfigs_plainAsset rfl, fun h => ?_⟩
  obtain ⟨n, hn, hs⟩ := h.assets.1 (plainAsset (.modrinth "ae2" "1")) (List.mem_singleton_self _)
  rw [List.mem_singleton.1 hn] at hs
  exact absurd hs.source (by decide)

end Smrt
