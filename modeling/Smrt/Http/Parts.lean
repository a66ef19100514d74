import Smrt.Authoring.PackDocs
import Smrt.Http.Writers

/-!
# The parts of a config

What of a stored config a document may change. A *part* is anything that can be read off a
config, together with what the document holds of it (`Part`): a field, a row, a member of
a row. A document that was not changed in a part since it was seeded from a config writes
the part of that config (`Kept.materialise`), whatever else was changed in it. Two things
of a config are not read from its members, and are treated apart (`Kept`):

* the server-owned fields, of which a document may move one, by a `fork_of`;
* what the fill computes of the mods, the pulled ones and the requirements. It computes
  them anew when any row is changed, and leaves them alone otherwise.
-/

namespace Smrt

open Json (Members)

/-- A config as its authors declare it: without the pulled mods, and without the
    requirements of the others. -/
def authoredView (c : PackConfig) : PackConfig := { c with mods := authoredRows c.mods }

/-- A part of a config: what can be read off it (`ofConfig`), and what a document that is
    read as the config holds of it (`ofContent`). -/
structure Part where
  /-- What the part is in a document. -/
  Content : Type
  /-- What the part is in a config. -/
  Value : Type
  ofContent : Members → Content
  ofConfig : PackConfig → Value
  /-- The part of a config is what the document holds of it. -/
  reads {o o' : Members} {c c' : PackConfig} : PackConfig.AuthoredReads o c →
    PackConfig.AuthoredReads o' c' → ofContent o = ofContent o' → ofConfig c = ofConfig c'
  /-- The part is one the authors declare. -/
  authored (c : PackConfig) : ofConfig (authoredView c) = ofConfig c

namespace Part

/-- The tagline. -/
def tagline : Part where
  Content := Option Json
  Value := String
  ofContent o := o.lookup "tagline"
  ofConfig c := c.tagline
  reads h h' ho := Option.some.inj (h.tagline.symm.trans (ho ▸ h'.tagline))
  authored _ := rfl

/-- The assets. -/
def assets : Part where
  Content := Option Json
  Value := List DeclaredAsset
  ofContent o := o.lookup "assets"
  ofConfig c := c.assets
  reads h h' ho := Option.some.inj (h.assets.symm.trans (ho ▸ h'.assets))
  authored _ := rfl

/-- The name of a row of the mods. -/
def rowName (j : Json) : Option String :=
  ((Json.record DeclaredMod.keys j).bind fun o => o.lookup "filename").bind Json.asStr

/-- The items of an array, none of anything else. -/
def items : Option Json → List Json
  | some (.arr items) => items
  | _ => []

/-- A row that reads as a mod is named as the mod. -/
theorem rowName_of_reads {j : Json} {m : DeclaredMod} (h : DeclaredMod.fromValue j = some m) :
    rowName j = some m.filename := by
  obtain ⟨o, ho, h⟩ := Option.bind_eq_some_iff.1 h
  obtain ⟨filename, hf, h⟩ := Option.bind_eq_some_iff.1 h
  obtain ⟨_, _, h⟩ := Option.bind_eq_some_iff.1 h
  obtain ⟨_, _, h⟩ := Option.bind_eq_some_iff.1 h
  obtain ⟨_, _, h⟩ := Option.bind_eq_some_iff.1 h
  obtain ⟨_, _, h⟩ := Option.bind_eq_some_iff.1 h
  obtain ⟨_, _, h⟩ := Option.bind_eq_some_iff.1 h
  obtain rfl := Option.some.inj h
  rw [rowName, ho, Option.bind_some]
  cases hl : o.lookup "filename" with
  | none => rw [hl] at hf; cases hf
  | some v => rw [hl, Json.must_some] at hf; exact hf

/-- The rows of a name read as the mods of the name. -/
theorem mapM_filter_rowName (filename : String) {rows : List Json} {mods : List DeclaredMod}
    (h : rows.mapM DeclaredMod.fromValue = some mods) :
    (rows.filter fun j => rowName j = some filename).mapM DeclaredMod.fromValue =
      some (mods.filter fun m => m.filename = filename) := by
  induction rows generalizing mods with
  | nil =>
    obtain rfl := Option.some.inj h
    rfl
  | cons j rows ih =>
    rw [List.mapM_cons] at h
    obtain ⟨m, hm, h⟩ := Option.bind_eq_some_iff.1 h
    obtain ⟨mods, hms, h⟩ := Option.bind_eq_some_iff.1 h
    obtain rfl := Option.some.inj h
    by_cases hn : m.filename = filename <;>
      simp [rowName_of_reads hm, hn, List.mapM_cons, hm, ih hms]

theorem filter_authoredRows (filename : String) (mods : List DeclaredMod) :
    (authoredRows mods).filter (fun m => m.filename = filename) =
      authoredRows (mods.filter fun m => m.filename = filename) := by
  rw [authoredRows, List.filter_map, List.filter_filter, authoredRows, List.filter_filter]
  exact congrArg _ (List.filter_congr fun m _ => Bool.and_comm _ _)

theorem authoredRows_authoredRows (mods : List DeclaredMod) :
    authoredRows (authoredRows mods) = authoredRows mods := by
  simp [authoredRows, List.filter_map, Function.comp_def, authoredRow]

/-- The row of the mods under a filename. -/
def row (filename : String) : Part where
  Content := List Json
  Value := List DeclaredMod
  ofContent o := (items (o.lookup "mods")).filter fun j => rowName j = some filename
  ofConfig c := (authoredRows c.mods).filter fun m => m.filename = filename
  reads {o o' c c'} h h' ho := by
    have hrow {o : Members} {c : PackConfig} (h : PackConfig.AuthoredReads o c) :
        ((items (o.lookup "mods")).filter fun j => rowName j = some filename).mapM
          DeclaredMod.fromValue = some (c.mods.filter fun m => m.filename = filename) := by
      have hm := h.mods
      cases hl : o.lookup "mods" with
      | none => rw [hl] at hm; cases hm
      | some v =>
        rw [hl, Json.must_some] at hm
        cases v with
        | arr rows => exact mapM_filter_rowName filename hm
        | null | bool | int | float | str | obj => cases hm
    rw [filter_authoredRows, filter_authoredRows,
      Option.some.inj ((hrow h).symm.trans (ho ▸ hrow h'))]
  authored c := by rw [authoredView, authoredRows_authoredRows]

end Part

/-! ## Edits -/

/-- What an edit made of a document: the members it held before and after. -/
abbrev Edit := Members × Members

/-- None of the edits changed what `f` observes of a document. -/
def Untouched {γ : Type} (edits : List Edit) (f : Members → γ) : Prop :=
  ∀ e ∈ edits, f e.1 = f e.2

/-- A document of which every observation that the edits left alone is that of the config it
    was seeded from. -/
def Follows (edits : List Edit) (seed : PackConfig) (o : Members) : Prop :=
  ∀ {γ : Type} (f : Members → γ), Untouched edits f → f o = f (PackDoc.fromConfig seed)

/-- A config that differs from `written` only in what the edits touched. -/
structure Kept (edits : List Edit) (written c : PackConfig) : Prop where
  part (p : Part) : Untouched edits p.ofContent → p.ofConfig c = p.ofConfig written
  serverOwned : Untouched edits (fun o => o.lookup "fork_of") →
    c.serverOwned = written.serverOwned
  mods : Untouched edits (fun o => (o.lookup "mods", o.lookup "assets")) →
    c.mods = written.mods

section Kept

variable {edits : List Edit} {written seed base c : PackConfig} {o : Members}

theorem Untouched.of_append {γ : Type} {f : Members → γ} {e : Edit}
    (h : Untouched (edits ++ [e]) f) : Untouched edits f :=
  fun e' he => h e' (List.mem_append_left _ he)

theorem Follows.refl (seed : PackConfig) (edits : List Edit) :
    Follows edits seed (PackDoc.fromConfig seed) := fun _ _ => rfl

/-- A document keeps following its config through one more edit of it. -/
theorem Follows.edit {o' : Members} (h : Follows edits seed o) :
    Follows (edits ++ [(o, o')]) seed o' := fun f hf =>
  (hf (o, o') (List.mem_append_right _ List.mem_cons_self)).symm.trans (h f hf.of_append)

/-- Edits of another document do not matter. -/
theorem Follows.mono (h : Follows edits seed o) (e : Edit) : Follows (edits ++ [e]) seed o :=
  fun f hf => h f hf.of_append

theorem Kept.refl (edits : List Edit) (c : PackConfig) : Kept edits c c :=
  ⟨fun _ _ => rfl, fun _ => rfl, fun _ => rfl⟩

/-- More edits touch more. -/
theorem Kept.mono (h : Kept edits written c) (e : Edit) : Kept (edits ++ [e]) written c :=
  ⟨fun p hp => h.part p hp.of_append, fun hp => h.serverOwned hp.of_append,
    fun hp => h.mods hp.of_append⟩

end Kept

/-! ## What a document writes -/

section Materialise

variable {edits : List Edit} {written seed base c : PackConfig} {o : Members}
  {operatorUid : Int64} {answers : ℕ → Answers}

/-- A document seeded from a config reads as it. -/
theorem authoredReads_fromConfig (c : PackConfig) :
    PackConfig.AuthoredReads (PackDoc.fromConfig c) c := by
  have h : PackConfig.ofMembers 0 c.toMembers = some c := PackConfig.ofMembers_toMembers c
  exact (PackConfig.ofMembers_eq_some.1 h).1.congr fun k hk => (PackDoc.lookup_authored_of_not_mem hk).symm

/-- The door and the merge leave alone what the authors declare. -/
theorem authoredView_storeEditedConfig (answers : ℕ → Answers) (fill : Bool) :
    authoredView (storeEditedConfig answers (mergePulled base c) fill) = authoredView c := by
  have hm : authoredRows (storeEditedConfig answers (mergePulled base c) fill).mods =
      authoredRows c.mods := by
    rw [← @authoredRows_mergePulled base c, storeEditedConfig]
    split
    · exact authoredRows_fillDependencies answers
    · rfl
  have hs : SameButMods c (storeEditedConfig answers (mergePulled base c) fill) := by
    rw [SameButMods, sameButMods_storeEditedConfig answers fill]
    rfl
  rw [authoredView, hm, hs]
  rfl

/-- Merging into a config with the mods of the stored one adds none: a pulled mod that is
    there is not missing. -/
theorem mergePulled_of_mods_eq (h : c.mods = base.mods) : mergePulled base c = c := by
  have hnone : ((base.mods.filter fun m => m.pulled).filter fun m =>
      sourceIdentity m.source ∉ presentKeys c ∧ ("f:" ++ m.filename) ∉ presentKeys c) = [] := by
    refine List.filter_eq_nil_iff.2 fun m hm => ?_
    have : sourceIdentity m.source ∈ presentKeys c :=
      mem_presentKeys_sourceIdentity.2 ⟨m, h ▸ List.mem_of_mem_filter hm, rfl⟩
    simp [this]
  rw [mergePulled, hnone, List.append_nil]

/-- A document whose rows are those stored leaves nothing to fill. -/
theorem fillNeeded_of_eq (hm : c.mods = base.mods) (ha : c.assets = base.assets) :
    fillNeeded (some base) c = false := by
  simp [fillNeeded, declared, hm, ha]

/-- What is written of a document that follows a config differs from what was written before
    only in what the edits touched, if the config and the stored one do. -/
theorem Kept.materialise (hs : Kept edits written seed) (hb : Kept edits written base)
    (ho : Follows edits seed o) (hc : PackDoc.toConfig operatorUid o base = some c) :
    Kept edits written (storeEditedConfig answers (mergePulled base c)
      (fillNeeded (some base) (mergePulled base c))) := by
  have hreads := (PackDoc.toConfig_eq_some.1 hc).1
  have hpart (p : Part) (hp : Untouched edits p.ofContent) : p.ofConfig c = p.ofConfig seed :=
    p.reads hreads (authoredReads_fromConfig seed) (ho p.ofContent hp)
  refine ⟨fun p hp => ?_, fun hf => ?_, fun hr => ?_⟩
  · rw [← p.authored, authoredView_storeEditedConfig, p.authored, hpart p hp, hs.part p hp]
  · rw [serverOwned_of_sameButMods (sameButMods_storeEditedConfig answers _),
      serverOwned_of_sameButMods sameButMods_mergePulled, ← hb.serverOwned hf]
    refine (serverOwned_toConfig_iff hc).2 (.inr fun f hfork => ?_)
    -- The document was seeded without a `fork_of`, and nobody gave it one.
    have hnone : o.lookup "fork_of" = none :=
      (ho (fun o => o.lookup "fork_of") hf).trans (PackDoc.lookup_authored_of_mem (by decide))
    rw [PackDoc.forkOf, hnone] at hfork
    cases hfork
  · have hrows := ho (fun o => (o.lookup "mods", o.lookup "assets")) hr
    have hassets : Untouched edits Part.assets.ofContent := fun e he => (Prod.mk.inj (hr e he)).2
    have hm : c.mods = base.mods := by
      have h := hreads.mods
      rw [(Prod.mk.inj hrows).1, (authoredReads_fromConfig seed).mods] at h
      rw [← Option.some.inj h, hs.mods hr, hb.mods hr]
    have ha : c.assets = base.assets :=
      (hpart .assets hassets).trans ((hs.part .assets hassets).trans (hb.part .assets hassets).symm)
    rw [mergePulled_of_mods_eq hm, fillNeeded_of_eq hm ha, storeEditedConfig, if_neg (by simp), hm,
      hb.mods hr]

end Materialise

end Smrt
