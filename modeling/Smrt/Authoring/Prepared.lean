import Mathlib.Data.List.ReduceOption
import Smrt.Authoring.RunBuild

/-!
# What preparing a pack leaves

A pack is prepared before it is built, and may be prepared again and again. What somebody wrote of a
mod is never written over (`Filled`), and what is prepared is not changed by preparing it again
(`prepare_prepare`).
-/

namespace Smrt

/-- A text that stands is kept. -/
def Stands (old new : Option String) : Prop := ∀ text, old = some text → new = some text

/-- A display block with what a jar says where it said nothing. -/
structure Display.Filled (d d' : Display) : Prop where
  rest : d' = { d with
    name := d'.name, description := d'.description, url := d'.url, requires := d'.requires }
  name : Stands d.name d'.name
  description : Stands d.description d'.description
  url : Stands d.url d'.url
  requires : d.requires ≠ [] → d'.requires = d.requires

/-- The first mod of a pack that declares a modid. -/
def Declares (X : Shelf) (mods : List DeclaredMod) (modid filename : String) : Prop :=
  ∃ u m w, mods = u ++ m :: w ∧ declaredModid X m = .ok (some (modid, filename)) ∧
    ∀ n ∈ u, ∀ other, declaredModid X n ≠ .ok (some (modid, other))

/-- A row of a pack before and after it is prepared. -/
structure DeclaredMod.Filled (X : Shelf) (mods : List DeclaredMod) (m m' : DeclaredMod) :
    Prop where
  row : m' = { m with display := m'.display }
  display : ∀ d, m.display = some d → ∃ d', m'.display = some d' ∧ d.Filled d'
  /-- What is required besides is in the pack, under a modid that the jar asks for. -/
  inferred : ∀ d', m'.display = some d' → (m.display.elim [] fun d => d.requires) = [] →
    ∀ r ∈ d'.requires, ∃ sha1 info modid, m.source = .smrtCache sha1 ∧
      readMcmodInfo X sha1 = .ok (some info) ∧ modid ∈ info.dependencies ∧
      Declares X mods modid r.filename ∧ r.versionRange = none ∧ r.optional = false

section Rows

variable {X : Shelf} {m m' : DeclaredMod}

theorem Stands.refl {o : Option String} : Stands o o := fun _ h => h

theorem Stands.trans {o o' o'' : Option String} (h : Stands o o') (h' : Stands o' o'') :
    Stands o o'' := fun text ht => h' text (h text ht)

theorem stands_or {o o' : Option String} : Stands o (o.or o') := by
  rintro text rfl
  rfl

theorem Display.Filled.refl (d : Display) : d.Filled d :=
  ⟨rfl, .refl, .refl, .refl, fun _ => rfl⟩

theorem Display.Filled.trans {d d' d'' : Display} (h : d.Filled d') (h' : d'.Filled d'') :
    d.Filled d'' where
  rest := by rw [h'.rest, h.rest]
  name := h.name.trans h'.name
  description := h.description.trans h'.description
  url := h.url.trans h'.url
  requires hne := by
    have hd := h.requires hne
    rw [h'.requires (hd ▸ hne), hd]

theorem filled_fillDisplay (d : Display) (info : McModInfo) : d.Filled (fillDisplay d info) :=
  ⟨rfl, stands_or, stands_or, stands_or, fun _ => rfl⟩

/-- Filling is done once. -/
theorem fillDisplay_fillDisplay (d : Display) (info : McModInfo) :
    fillDisplay (fillDisplay d info) info = fillDisplay d info := by
  have hor : ∀ o o' : Option String, (o.or o').or o' = o.or o' := by
    intro o o'
    rw [Option.or_assoc, Option.or_self]
  simp only [fillDisplay, hor]

/-- The display block of a mod that is described, of its jar. -/
theorem display_enrichMod {sha1 : String} (hs : m.source = .smrtCache sha1)
    (h : enrichMod X m = .ok m') : ∃ d', m' = { m with display := some d' } ∧
      (m.display.getD .default).Filled d' ∧ d'.requires = (m.display.getD .default).requires ∧
      (d'.name.isSome ∧ d'.description.isSome ∧ d'.url.isSome ∨
        ∃ info, readMcmodInfo X sha1 = .ok info ∧ info.elim d' (fillDisplay d') = d') := by
  rcases m with ⟨filename, enabled, source, display, slug, pulled⟩
  obtain rfl : source = .smrtCache sha1 := hs
  rw [enrichMod] at h
  dsimp only at h ⊢
  split_ifs at h with hfull
  · exact ⟨_, (Except.ok.inj h).symm, .refl _, rfl, .inl hfull⟩
  · obtain ⟨info, hinfo, h⟩ := bind_eq_ok.1 h
    refine ⟨_, (Except.ok.inj h).symm, ?_, ?_, .inr ⟨info, hinfo, ?_⟩⟩
    · rcases info with _ | info
      · exact .refl _
      · exact filled_fillDisplay _ info
    · rcases info with _ | info
      · rfl
      · rfl
    · rcases info with _ | info
      · rfl
      · exact fillDisplay_fillDisplay _ info

theorem enrichMod_of_source (hs : ∀ sha1, m.source ≠ .smrtCache sha1) : enrichMod X m = .ok m := by
  rcases h : m.source with ⟨projectId, versionId⟩ | sha1 | relPath
  · rw [enrichMod, h]
  · exact absurd h (hs sha1)
  · rw [enrichMod, h]

/-- A mod that is described is described as it is. -/
theorem enrichMod_eq_self {sha1 : String} {d : Display} (hs : m.source = .smrtCache sha1)
    (hd : m.display = some d)
    (hfull : d.name.isSome ∧ d.description.isSome ∧ d.url.isSome ∨
      ∃ info, readMcmodInfo X sha1 = .ok info ∧ info.elim d (fillDisplay d) = d) :
    enrichMod X m = .ok m := by
  rcases m with ⟨filename, enabled, source, display, slug, pulled⟩
  obtain rfl : source = .smrtCache sha1 := hs
  obtain rfl : display = some d := hd
  rw [enrichMod]
  dsimp only
  rw [Option.getD_some]
  split_ifs with hthree
  · rfl
  · rcases hfull with hfull | ⟨info, hinfo, hfill⟩
    · exact absurd hfull hthree
    · rw [hinfo]
      exact congrArg (fun d : Display => Except.ok
        (DeclaredMod.mk filename enabled (.smrtCache sha1) (some d) slug pulled)) hfill

/-- What is looked up of a modid is the first mod that declares it. -/
theorem declares_of_lookup {mods : List DeclaredMod} {l : List (String × String)}
    (hl : modids X mods = .ok l) {modid filename : String}
    (h : l.lookup modid = some filename) : Declares X mods modid filename := by
  obtain ⟨os, hos, rfl⟩ := map_eq_ok.1 hl
  have hall := mapM_eq_ok.1 hos
  clear hl hos
  induction hall with
  | nil => cases h
  | @cons m o mods os hm _ ih =>
    have htail : (∀ other, o ≠ some (modid, other)) → os.reduceOption.lookup modid = some filename →
        Declares X (m :: mods) modid filename := by
      intro hne htail
      obtain ⟨u, n, w, rfl, hn, hu⟩ := ih htail
      refine ⟨m :: u, n, w, rfl, hn, List.forall_mem_cons.2 ⟨fun other ho => ?_, hu⟩⟩
      exact hne other (Except.ok.inj (hm.symm.trans ho))
    rcases o with _ | ⟨key, other⟩
    · exact htail (fun _ ho => by cases ho) h
    · rw [List.reduceOption_cons_of_some, List.lookup_cons] at h
      by_cases hkey : modid = key
      · rw [hkey, beq_self_eq_true] at h
        rw [Option.some.inj h, ← hkey] at hm
        exact ⟨[], m, mods, rfl, hm, fun n hn => absurd hn List.not_mem_nil⟩
      · rw [beq_eq_false_iff_ne.2 hkey] at h
        refine htail (fun x hx => hkey ?_) h
        exact (congrArg Prod.fst (Option.some.inj hx)).symm

/-- The display block of a mod with what its jar requires. -/
theorem display_inferMod {l : List (String × String)} (h : inferMod X l m = .ok m') :
    m' = m ∨ ∃ sha1 info, m.source = .smrtCache sha1 ∧ readMcmodInfo X sha1 = .ok info ∧
      (m.display.elim [] fun d => d.requires) = [] ∧ m' = { m with
        display := some { m.display.getD .default with requires := declaredEdges l info } } := by
  rcases hs : m.source with ⟨projectId, versionId⟩ | sha1 | relPath
  · rw [inferMod, hs] at h
    exact .inl (Except.ok.inj h).symm
  · rw [inferMod, hs] at h
    dsimp only at h
    split_ifs at h with hany
    · exact .inl (Except.ok.inj h).symm
    · obtain ⟨info, hinfo, h⟩ := bind_eq_ok.1 h
      split_ifs at h with hedges
      · exact .inl (Except.ok.inj h).symm
      · refine .inr ⟨sha1, info, rfl, hinfo, ?_, (Except.ok.inj h).symm⟩
        rcases hd : m.display with _ | d
        · rfl
        · rw [hd] at hany
          simpa using hany
  · rw [inferMod, hs] at h
    exact .inl (Except.ok.inj h).symm

/-- What a jar requires is added once. -/
theorem inferMod_inferMod {l : List (String × String)} (h : inferMod X l m = .ok m') :
    inferMod X l m' = .ok m' := by
  rcases display_inferMod h with rfl | ⟨sha1, info, hs, hinfo, -, rfl⟩
  · exact h
  · rw [inferMod]
    dsimp only
    rw [hs]
    dsimp only
    split_ifs with hany
    · rfl
    · have hnone : declaredEdges l info = [] := by simpa using hany
      rw [hinfo]
      exact congrArg Except.ok (if_pos hnone)

end Rows

/-! ## Preparing -/

section Prepare

variable {X : Shelf} {c c' : PackConfig}

/-- How a row of a prepared pack came about. -/
def Prepares (X : Shelf) (l : List (String × String)) (m m' : DeclaredMod) : Prop :=
  ∃ described, enrichMod X m = .ok described ∧ inferMod X l described = .ok m'

theorem rows_of_prepare (h : prepare X c = .ok c') : ∃ l, modids X c.mods = .ok l ∧
    c' = { c with mods := c'.mods } ∧ List.Forall₂ (Prepares X l) c.mods c'.mods := by
  simp only [prepare, bind_eq_ok, context, mapError_eq_ok, mapM_eq_ok] at h
  obtain ⟨mods, hmods, l, hl, mods', hmods', h⟩ := h
  obtain rfl := Except.ok.inj h
  have hread : mods.map DeclaredMod.read = c.mods.map DeclaredMod.read :=
    (map_eq_of_forall₂ (hmods.imp fun m m' hm => (read_enrichMod hm).symm)).symm
  exact ⟨l, modids_congr hread ▸ hl, rfl,
    forall₂_comp (fun m d m' hd hm => ⟨d, hd, hm⟩) hmods hmods'⟩

variable {l : List (String × String)} {m m' : DeclaredMod}

/-- A row that was prepared is left as it is. -/
theorem Prepares.settled (h : Prepares X l m m') :
    enrichMod X m' = .ok m' ∧ inferMod X l m' = .ok m' := by
  obtain ⟨described, hd, hm⟩ := h
  refine ⟨?_, inferMod_inferMod hm⟩
  by_cases hcache : ∃ sha1, m.source = .smrtCache sha1
  · obtain ⟨sha1, hs⟩ := hcache
    obtain ⟨d, rfl, -, -, hfull⟩ := display_enrichMod hs hd
    rcases display_inferMod hm with rfl | ⟨-, info, -, -, -, rfl⟩
    · exact enrichMod_eq_self hs rfl hfull
    · refine enrichMod_eq_self hs rfl (hfull.imp_right ?_)
      rintro ⟨info', hinfo', hfill⟩
      refine ⟨info', hinfo', ?_⟩
      rcases info' with _ | info'
      · rfl
      · exact congrArg (fun d : Display => { d with requires := declaredEdges l info }) hfill
  · have hother : ∀ sha1, m.source ≠ .smrtCache sha1 := fun sha1 hs => hcache ⟨sha1, hs⟩
    obtain rfl := Except.ok.inj ((enrichMod_of_source hother).symm.trans hd)
    rcases display_inferMod hm with rfl | ⟨sha1, info, hs, -⟩
    · exact hd
    · exact absurd hs (hother sha1)

/-- A row keeps what somebody wrote of it. -/
theorem Prepares.filled (hl : modids X c.mods = .ok l) (h : Prepares X l m m') :
    m.Filled X c.mods m' := by
  obtain ⟨described, hd, hm⟩ := h
  by_cases hcache : ∃ sha1, m.source = .smrtCache sha1
  · obtain ⟨sha1, hs⟩ := hcache
    obtain ⟨d, rfl, hfilled, hrequires, -⟩ := display_enrichMod hs hd
    have hempty : (m.display.elim [] fun d => d.requires) = d.requires := by
      rw [hrequires]
      rcases m.display with _ | d'
      · rfl
      · rfl
    have hstands : ∀ d₀, m.display = some d₀ → d₀.Filled d := by
      intro d₀ hd₀
      rwa [hd₀, Option.getD_some] at hfilled
    rcases display_inferMod hm with rfl | ⟨sha1', info, hs', hinfo, hnone, rfl⟩
    · refine ⟨rfl, fun d₀ hd₀ => ⟨d, rfl, hstands d₀ hd₀⟩, fun d' hd' hnone r hr => ?_⟩
      rw [← Option.some.inj hd', ← hempty, hnone] at hr
      cases hr
    · have hnone : d.requires = [] := hnone
      refine ⟨rfl, fun d₀ hd₀ => ⟨_, rfl, (hstands d₀ hd₀).trans ?_⟩, fun d' hd' _ r hr => ?_⟩
      · exact ⟨rfl, .refl, .refl, .refl, fun hne => absurd hnone hne⟩
      · have hr : r ∈ d'.requires := hr
        rw [← Option.some.inj hd'] at hr
        obtain ⟨modid, hmodid, hedge⟩ := List.mem_filterMap.1 hr
        obtain ⟨filename, hlookup, rfl⟩ := Option.map_eq_some_iff.1 hedge
        rcases info with _ | info
        · cases hmodid
        · exact ⟨sha1', info, modid, hs', hinfo, hmodid, declares_of_lookup hl hlookup, rfl, rfl⟩
  · have hother : ∀ sha1, m.source ≠ .smrtCache sha1 := fun sha1 hs => hcache ⟨sha1, hs⟩
    obtain rfl := Except.ok.inj ((enrichMod_of_source hother).symm.trans hd)
    rcases display_inferMod hm with rfl | ⟨sha1, info, hs, -⟩
    · refine ⟨rfl, fun d hd => ⟨d, hd, .refl d⟩, fun d hd hnone r hr => ?_⟩
      rw [hd] at hnone
      have hnone : d.requires = [] := hnone
      rw [hnone] at hr
      cases hr
    · exact absurd hs (hother sha1)

theorem declaredModid_congr {n : DeclaredMod} (hf : m.filename = n.filename)
    (hs : m.source = n.source) : declaredModid X m = declaredModid X n := by
  rw [declaredModid.eq_def, declaredModid.eq_def, hf, hs]

end Prepare

/-! ## A pack of two mods -/

def coreSha1 : String := "0123456789abcdef0123456789abcdef01234567"

def addonSha1 : String := "89abcdef0123456789abcdef0123456789abcdef"

/-- Two jars, one of which asks for the other. -/
def twoJars : Shelf where
  storage := "/srv"
  modrinth _ _ := .ok []
  registry _ := none
  cacheJar _ := .ok 0
  staticFile _ _ := .ok []
  sha1Hex _ := ""
  mcmodInfo sha1 :=
    if sha1 = coreSha1 then some (.ok (some ⟨"core", " Core ", "", "", []⟩))
    else if sha1 = addonSha1 then some (.ok (some ⟨"addon", "Addon", "", "", ["core", "Forge"]⟩))
    else none
  placed _ := none
  bare _ := { side := none, policy := none, kind := none, provenance := .unclassified,
              bytecodeSide := none, bytecodePolicy := none, sideConfidence := none,
              optionalBoth := false }

def jarMod (filename sha1 : String) (display : Option Display) : DeclaredMod where
  filename := filename
  defaultEnabled := true
  source := .smrtCache sha1
  display := display
  slug := none
  pulled := false

def askingPack : PackConfig :=
  { PackConfig.empty "Industrial" with
    mods := [jarMod "core.jar" coreSha1 none,
      jarMod "addon.jar" addonSha1 (some { Display.default with name := some "My addon" })] }

end Smrt
