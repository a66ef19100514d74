import Smrt.Authoring.HarvestRuns
import Smrt.Authoring.HarvestSpares

/-!
# What an operator decided

No harvest takes back what an operator decided (`decision_stands`): precious rows stay as they are
(`Kept`), but for two things. When a mod is merged into another, its rows go there, and one that the
other mod has already is dropped for that. And a file is put under the release that its jar says,
unless the file itself is precious; so what was decided about a release reads back for the files of
it that are precious or are not read again (`decision_lost`).
-/

namespace Smrt

namespace Harvest

open Registry Registry.Tables Txn

/-! ## What is kept -/

/-- The version number and the channel of a release are those of a row. -/
def ReadsAs (t : Tables) (releaseId : Option ℕ) (versionNumber : String) (channel : Channel) : Prop :=
  ∃ i r, releaseId = some i ∧ t.releases.get? i = some r ∧ r.versionNumber = versionNumber ∧
    r.channel = channel

/-- Precious rows are kept, and so are the files that are not in the list; a mod goes where `f` says,
    which is lower or precious, and takes its rows with it. -/
structure Kept (shas : List String) (f : ℕ → ℕ) (t t' : Tables) : Prop where
  mod : ∀ id m, t.mods.get? id = some m → m.source.isPrecious = true →
    t'.mods.get? id = some m ∧ f id = id
  noMod : ∀ id, t'.isPrecious id = true → t.isPrecious id = true
  lower : ∀ id, f id ≤ id ∨ t.isPrecious (f id) = true
  hasMod : ∀ id, t.HasMod id → t'.HasMod (f id)
  name : ∀ a ∈ t.aliases, { a with modId := f a.modId } ∈ t'.aliases
  /-- A release stays as it is, unless its mod is merged into another. -/
  release : ∀ id r, t.releases.get? id = some r → r.source.isPrecious = true →
    f r.modId = r.modId → t'.releases.get? id = some r
  file : ∀ id v, t.versions.get? id = some v → v.source.isPrecious = true ∨ v.sha1 ∉ shas →
    ∃ releaseId, t'.versions.get? id = some { v with modId := f v.modId, releaseId } ∧
      (∀ versionNumber channel, ReadsAs t v.releaseId versionNumber channel →
        ReadsAs t' releaseId versionNumber channel) ∧
      ∀ loader, (id, loader) ∈ t'.targets ↔ (id, loader) ∈ t.targets
  /-- A relation may have a twin that is kept instead, and only its confidence may differ. -/
  relation : ∀ r ∈ t.relations, r.source.isPrecious = true →
    ∃ r' ∈ t'.relations, r'.dedupeKey = { r with fromModId := f r.fromModId }.dedupeKey
  jarClass : ∀ c ∈ t.jarClasses, c.source = .authored → c ∈ t'.jarClasses

section Kept

variable {shas : List String} {f g : ℕ → ℕ} {t t' t'' : Tables}

theorem Kept.refl (shas : List String) (t : Tables) : Kept shas id t t where
  mod _ _ h _ := ⟨h, rfl⟩
  noMod _ h := h
  lower _ := .inl le_rfl
  hasMod _ h := h
  name _ h := h
  release _ _ h _ _ := h
  file _ v h _ := ⟨v.releaseId, h, fun _ _ h => h, fun _ => .rfl⟩
  relation r h _ := ⟨r, h, rfl⟩
  jarClass _ h _ := h

/-- A precious mod goes nowhere. -/
theorem Kept.eq_of_isPrecious (h : Kept shas f t t') {id : ℕ} (hid : t.isPrecious id = true) :
    f id = id := by
  obtain ⟨m, hm, hs⟩ := (Option.any_eq_true _ _).1 hid
  exact (h.mod id m hm hs).2

/-- A mod that has gone does not come back: it is somewhere lower, or where it stays. -/
theorem Kept.eq_of_comp_eq (h : Kept shas f t t') (h' : Kept shas g t' t'') {id : ℕ}
    (he : g (f id) = id) : f id = id := by
  rcases h.lower id with hf | hf
  · rcases h'.lower (f id) with hg | hg
    · exact le_antisymm hf (he.symm.le.trans hg)
    · exact h.eq_of_isPrecious (he ▸ h.noMod _ hg)
  · obtain ⟨m, hm, hs⟩ := (Option.any_eq_true _ _).1 hf
    obtain ⟨hm', hff⟩ := h.mod _ m hm hs
    exact (h'.mod _ m hm' hs).2.symm.trans he

theorem Kept.trans (h : Kept shas f t t') (h' : Kept shas g t' t'') : Kept shas (g ∘ f) t t'' where
  mod id m hm hs := by
    obtain ⟨hm', hf⟩ := h.mod id m hm hs
    obtain ⟨hm'', hg⟩ := h'.mod id m hm' hs
    exact ⟨hm'', (congrArg g hf).trans hg⟩
  noMod id hid := h.noMod id (h'.noMod id hid)
  lower id := by
    rcases h'.lower (f id) with hg | hg
    · rcases h.lower id with hf | hf
      · exact .inl (hg.trans hf)
      · obtain ⟨m, hm, hs⟩ := (Option.any_eq_true _ _).1 hf
        obtain ⟨hm', -⟩ := h.mod _ m hm hs
        rw [Function.comp_apply, (h'.mod _ m hm' hs).2]
        exact .inr hf
    · exact .inr (h.noMod _ hg)
  hasMod id hid := h'.hasMod _ (h.hasMod id hid)
  name a ha := h'.name _ (h.name a ha)
  release id r hr hs hfg := by
    have hf := h.eq_of_comp_eq h' hfg
    refine h'.release id r (h.release id r hr hs hf) hs ?_
    rwa [Function.comp_apply, hf] at hfg
  file id v hv hspare := by
    obtain ⟨releaseId, hv', hreads, htargets⟩ := h.file id v hv hspare
    obtain ⟨releaseId', hv'', hreads', htargets'⟩ := h'.file id _ hv' hspare
    exact ⟨releaseId', hv'', fun n c hn => hreads' n c (hreads n c hn),
      fun loader => (htargets' loader).trans (htargets loader)⟩
  relation r hr hs := by
    obtain ⟨r', hr', hkey⟩ := h.relation r hr hs
    have hkey' := hkey
    simp only [RelationRow.dedupeKey, RelationRow.mk.injEq] at hkey'
    obtain ⟨hmod, hversion, htarget, hrange, hkind, hseverity, hsource, -⟩ := hkey'
    obtain ⟨r'', hr'', hkey''⟩ := h'.relation r' hr' (hsource ▸ hs)
    refine ⟨r'', hr'', hkey''.trans ?_⟩
    simp only [RelationRow.dedupeKey, RelationRow.mk.injEq, Function.comp_apply]
    exact ⟨congrArg g hmod, hversion, htarget, hrange, hkind, hseverity, hsource, trivial⟩
  jarClass c hc hs := h'.jarClass c (h.jarClass c hc hs) hs

/-- Precious rows are kept, wherever the mods go. -/
def Keeping (shas : List String) (t t' : Tables) : Prop := ∃ f, Kept shas f t t'

instance : Std.Refl (Keeping shas) := ⟨fun t => ⟨id, .refl shas t⟩⟩

instance : IsTrans Tables (Keeping shas) where
  trans _ _ _ h h' := by
    obtain ⟨f, hf⟩ := h
    obtain ⟨g, hg⟩ := h'
    exact ⟨g ∘ f, hf.trans hg⟩

theorem ReadsAs.of_releases {releaseId : Option ℕ} {versionNumber : String} {channel : Channel}
    (h : ReadsAs t releaseId versionNumber channel)
    (hreleases : ∀ i r, releaseId = some i → t.releases.get? i = some r →
      t'.releases.get? i = some r) : ReadsAs t' releaseId versionNumber channel := by
  obtain ⟨i, r, hi, hr, hkey⟩ := h
  exact ⟨i, r, hi, hreleases i r hi hr, hkey⟩

/-- Merging a mod that is not precious into one that is lower or precious keeps the rest. -/
theorem kept_folded (ht : t.Integrity) {fromModId intoModId : ℕ} (hinto : t.HasMod intoModId)
    (hfrom : t.isPrecious fromModId = false) (hne : fromModId ≠ intoModId)
    (hlower : intoModId < fromModId ∨ t.isPrecious intoModId = true) :
    Kept shas (moveId fromModId intoModId) t (t.folded fromModId intoModId) where
  mod id m hm hs := by
    have hid : id ≠ fromModId := by
      rintro rfl
      rw [isPrecious, hm, Option.any_some, hs] at hfrom
      cases hfrom
    exact ⟨by rw [get?_mods_folded, if_neg hid, hm], if_neg hid⟩
  noMod id hid := by
    rw [isPrecious, get?_mods_folded] at hid
    split_ifs at hid
    · cases hid
    · exact hid
  lower id := by
    rw [moveId]
    split_ifs with hid
    · exact hlower.imp_left fun hlt => (hid ▸ hlt).le
    · exact .inl le_rfl
  hasMod id hid := by
    rw [HasMod, get?_mods_folded, if_neg (moveId_ne hne id)]
    exact hasMod_moveId hinto hid
  name a ha := List.mem_map.2 ⟨a, ha, rfl⟩
  release id r hr hs hf := by
    have hmod : r.modId ≠ fromModId := fun he => moveId_ne hne r.modId (hf.trans he)
    exact get?_releases_folded.2 ⟨r, hr, foldedInto_eq_none hr hmod, ReleaseRow.moved_eq_self hmod⟩
  file id v hv _ := by
    refine ⟨_, get?_versions_folded.2 ⟨v, hv, rfl⟩, fun versionNumber channel h => ?_, fun _ => .rfl⟩
    obtain ⟨i, r, hi, hr, hnumber, hchannel⟩ := h
    obtain ⟨r', hr', -, hnumber', hchannel'⟩ := ht.get?_folded_release hne hr
    exact ⟨_, r', by rw [hi, Option.map_some], hr', hnumber'.trans hnumber, hchannel'.trans hchannel⟩
  relation r hr _ := by
    rw [moveId]
    split_ifs with hmod
    · rcases ht.twin_of_relation hne hr hmod with hmem | ⟨r', -, hmem, hkey⟩
      · exact ⟨_, hmem, rfl⟩
      · exact ⟨r', hmem, hkey⟩
    · exact ⟨r, (ht.mem_relations_folded hne).2 (.inl ⟨hr, hmod⟩), rfl⟩
  jarClass _ h _ := h

/-- A file that is written is in the list, and nothing else is written then. -/
theorem kept_fileWritten {sha1 : String} (hsha1 : sha1 ∈ shas) (h : FileWritten sha1 t t') :
    Kept shas id t t' := by
  have hmods : t'.mods = t.mods := (congrArg Tables.mods h.rest :)
  have haliases : t'.aliases = t.aliases := (congrArg Tables.aliases h.rest :)
  have hrelations : t'.relations = t.relations := (congrArg Tables.relations h.rest :)
  have hclasses : t'.jarClasses = t.jarClasses := (congrArg Tables.jarClasses h.rest :)
  refine
    { mod := fun id m hm _ => ⟨by rw [hmods, hm], rfl⟩
      noMod := fun id hid => by rwa [isPrecious, hmods] at hid
      lower := fun id => .inl le_rfl
      hasMod := fun id hid => by rwa [HasMod, hmods]
      name := fun a ha => haliases ▸ ha
      release := fun id r hr _ _ => h.release id r hr
      file := fun id v hv hspare => ?_
      relation := fun r hr _ => ⟨r, hrelations ▸ hr, rfl⟩
      jarClass := fun c hc _ => hclasses ▸ hc }
  have hother : v.source.isPrecious = true ∨ v.sha1 ≠ sha1 :=
    hspare.imp_right fun hv he => hv (he ▸ hsha1)
  obtain ⟨hv', htargets⟩ := h.file id v hv hother
  exact ⟨v.releaseId, hv', fun n c hn => hn.of_releases fun i r _ => h.release i r, htargets⟩

/-- Precious rows are kept along every statement of a harvest. -/
theorem spares_keeping (shas : List String) : Spares shas (Keeping shas) where
  relations t relations h :=
    ⟨id, { Kept.refl shas t with relation := fun r hr hs => ⟨r, h r hr hs, rfl⟩ }⟩
  packages t _ := ⟨id, { Kept.refl shas t with }⟩
  needs t _ := ⟨id, { Kept.refl shas t with }⟩
  jarClasses t _ h := ⟨id, { Kept.refl shas t with jarClass := h }⟩
  mods t i f h hsource := by
    refine ⟨id, { Kept.refl shas t with mod := fun j m hm hs => ⟨?_, rfl⟩, noMod := fun j hj => ?_,
                                        hasMod := fun j hj => Table.isSome_get?_modify.trans hj }⟩
    · show (t.mods.modify i f).get? j = some m
      rw [Table.get?_modify, hm]
      split_ifs
      · exact congrArg some (h m hs)
      · rfl
    · rw [isPrecious, Table.get?_modify] at hj
      split_ifs at hj
      · rcases hm : t.mods.get? j with _ | m <;> rw [hm] at hj
        · cases hj
        · rw [isPrecious, hm, Option.any_some, ← hsource m]
          exact hj
      · exact hj
  newMod t := by
    refine ⟨id, { Kept.refl shas t with mod := fun j m hm hs => ⟨?_, rfl⟩, noMod := fun j hj => ?_,
                                        hasMod := fun j hj => Table.isSome_get?_insert hj }⟩
    · exact (Table.get?_insert_of_ne (Table.lt_nextId_of_get? hm).ne).trans hm
    · rw [isPrecious, newMod, Table.get?_insert] at hj
      split_ifs at hj
      · cases hj
      · exact hj
  attach t modId k := by
    refine ⟨id, { Kept.refl shas t with name := fun a ha => ?_ }⟩
    rw [attach]
    split_ifs
    · exact ha
    · exact List.mem_append_left _ ha
  fold t _ _ ht hinto hfrom hne hlower := ⟨_, kept_folded ht hinto hfrom hne hlower⟩
  file hsha1 h := ⟨id, kept_fileWritten hsha1 h⟩
  prune t ht := by
    -- A release that a file is in is not dropped.
    have hkeep : ∀ i r, t.releases.get? i = some r →
        (r.source.isPrecious || t.versions.rows.any fun v => v.2.releaseId = some i) = true →
          (t.releases.filter fun i r => r.source.isPrecious ||
            t.versions.rows.any fun v => v.2.releaseId = some i).get? i = some r := by
      intro i r hr hp
      rw [Table.get?_filter, hr, Option.filter_some, if_pos hp]
    refine ⟨id, { Kept.refl shas t with
      release := fun i r hr hs _ => hkeep i r hr (Bool.or_eq_true_iff.2 (.inl hs))
      file := fun i v hv _ => ⟨v.releaseId, hv, fun n c hn => ?_, fun _ => .rfl⟩ }⟩
    refine hn.of_releases fun j r hj hr => hkeep j r hr (Bool.or_eq_true_iff.2 (.inr ?_))
    exact List.any_eq_true.2 ⟨_, Table.get?_eq_some.1 hv, decide_eq_true hj⟩

end Kept

/-! ## What a decision says -/

/-- A relation is there, perhaps with another confidence. -/
def HasRelation (t : Tables) (r : RelationRow) : Prop :=
  ∃ r' ∈ t.relations, r'.dedupeKey = r.dedupeKey

/-- A relation as an operator decides it. -/
def authoredRow (fromModId : ℕ) (target : String) (kind : RelKind) (severity : Option Severity) :
    RelationRow :=
  Edge.row ⟨target, none, kind, severity, .authored⟩ fromModId none Registry.Source.authored.rank

/-- A mod is the one that was referred to, wherever that went, or it has the name of the new one. -/
def OfMod (f : ℕ → ℕ) (t : Tables) : ModRef → ℕ → Prop
  | .existing modId, id => id = f modId
  | .new name, id => ∃ m, t.mods.get? id = some m ∧ m.source = .authored ∧
      m.canonicalName = some (trim name)

/-- A file is the one that was decided. -/
def Identified (f : ℕ → ℕ) (id : FileIdentity) (i : ℕ) (t : Tables) : Prop :=
  ∃ v, t.versions.get? i = some v ∧ v.source = .authored ∧ v.sha1 = id.sha1 ∧
    v.version = id.versionNumber ∧ v.mcVersions = id.mcVersions ∧
      (∀ name ∈ id.filename, v.filename = some name) ∧
        ReadsAs t v.releaseId id.versionNumber id.channel ∧ OfMod f t id.modRef v.modId

/-- What a decision says reads back: `before` is the registry that it was made in, `shas` are the
    files that are read since, and `f` tells where the mods went. What is taken back says nothing. -/
def Decision.Reads (shas : List String) (f : ℕ → ℕ) (before now : Tables) : Decision → Prop
  | .conflict aModid bModid remove => remove = false → ∃ a b,
      now.owner (.modid, aModid) = some a ∧ now.owner (.modid, bModid) = some b ∧
        HasRelation now (authoredRow a bModid .conflicts (some .hard)) ∧
          HasRelation now (authoredRow b aModid .conflicts (some .hard))
  | .relation fromModId target kind severity remove => remove = false →
      HasRelation now (authoredRow (f fromModId) target kind severity)
  | .jarClass sha1 kind side matchPolicy remove => remove = false →
      ∃ c ∈ now.jarClasses, c.source = .authored ∧ c.sha1 = sha1 ∧ c.kind = kind ∧ c.side = side ∧
        c.matchPolicy = matchPolicy
  | .fileIdentity id => ∃ i, Identified f id i now ∧
      ∀ loader, (i, loader) ∈ now.targets ↔
        loader ∈ if id.loaders = [] then ["any"] else id.loaders
  | .rename modId name slug =>
      (∀ n ∈ name, ∃ m, now.mods.get? modId = some m ∧ m.source = .authored ∧
        m.canonicalName = some n) ∧
      ∀ n ∈ slug, ∃ m, now.mods.get? modId = some m ∧ m.source = .authored ∧ m.slug = some n
  | .release releaseId versionNumber channel =>
      ∀ i v, before.versions.get? i = some v → v.releaseId = some releaseId →
        v.source.isPrecious = true ∨ v.sha1 ∉ shas → ∃ v' number c, now.versions.get? i = some v' ∧
          v'.sha1 = v.sha1 ∧ v'.source = v.source ∧ ReadsAs now v'.releaseId number c ∧
            (∀ n ∈ versionNumber, number = n) ∧ ∀ c' ∈ channel, c = c'
  | .merge fromModId intoModId => now.isPrecious intoModId = true ∧
      (∀ k, before.owner k = some fromModId ∨ before.owner k = some intoModId →
        now.owner k = some intoModId) ∧
      ∀ i v, before.versions.get? i = some v → v.modId = fromModId ∨ v.modId = intoModId →
        v.source.isPrecious = true ∨ v.sha1 ∉ shas → ∃ v', now.versions.get? i = some v' ∧
          v'.sha1 = v.sha1 ∧ v'.source = v.source ∧ v'.modId = intoModId

section Reads

variable {shas : List String} {f g : ℕ → ℕ} {t t' before : Tables}

theorem HasRelation.kept (hk : Kept shas g t t') {modId : ℕ} {target : String} {kind : RelKind}
    {severity : Option Severity} (h : HasRelation t (authoredRow modId target kind severity)) :
    HasRelation t' (authoredRow (g modId) target kind severity) := by
  obtain ⟨r, hr, hkey⟩ := h
  have hfields := hkey
  simp only [authoredRow, Edge.row, RelationRow.dedupeKey, RelationRow.mk.injEq] at hfields
  obtain ⟨hmod, hversion, htarget, hrange, hkind, hseverity, hsource, -⟩ := hfields
  obtain ⟨r', hr', hkey'⟩ := hk.relation r hr (by rw [hsource]; rfl)
  refine ⟨r', hr', hkey'.trans ?_⟩
  simp only [authoredRow, Edge.row, RelationRow.dedupeKey, RelationRow.mk.injEq]
  exact ⟨congrArg g hmod, hversion, htarget, hrange, hkind, hseverity, hsource, trivial⟩

theorem owner_kept (ht : t.Integrity) (ht' : t'.Integrity) (hk : Kept shas g t t') {k : Alias}
    {id : ℕ} (h : t.owner k = some id) : t'.owner k = some (g id) := by
  obtain ⟨a, ha, hsource, hkey, rfl⟩ := ht.modIdForAlias_eq_some.1 h
  exact ht'.modIdForAlias_eq_some.2 ⟨_, hk.name a ha, hsource, hkey, rfl⟩

/-- What reads back still does after precious rows are kept. -/
theorem Decision.Reads.kept (ht : t.Integrity) (ht' : t'.Integrity) {d : Decision}
    (h : d.Reads shas f before t) (hk : Kept shas g t t') : d.Reads shas (g ∘ f) before t' := by
  have hmod : ∀ {id m}, t.mods.get? id = some m → m.source = .authored →
      t'.mods.get? id = some m ∧ g id = id := fun hm hs => hk.mod _ _ hm (by rw [hs]; rfl)
  cases d with
  | conflict aModid bModid remove =>
    intro hremove
    obtain ⟨a, b, ha, hb, hab, hba⟩ := h hremove
    exact ⟨g a, g b, owner_kept ht ht' hk ha, owner_kept ht ht' hk hb, hab.kept hk, hba.kept hk⟩
  | relation fromModId target kind severity remove => exact fun hremove => (h hremove).kept hk
  | jarClass sha1 kind side matchPolicy remove =>
    intro hremove
    obtain ⟨c, hc, hsource, hclass⟩ := h hremove
    exact ⟨c, hk.jarClass c hc hsource, hsource, hclass⟩
  | fileIdentity id =>
    obtain ⟨i, ⟨v, hv, hsource, hsha1, hversion, hmc, hname, hreads, hof⟩, htargets⟩ := h
    obtain ⟨releaseId, hv', hreads', htargets'⟩ := hk.file i v hv (.inl (by rw [hsource]; rfl))
    refine ⟨i, ⟨_, hv', hsource, hsha1, hversion, hmc, hname, hreads' _ _ hreads, ?_⟩,
      fun loader => (htargets' loader).trans (htargets loader)⟩
    rcases href : id.modRef with modId | name <;> rw [href] at hof
    · exact congrArg g hof
    · obtain ⟨m, hm, hs, hname⟩ := hof
      obtain ⟨hm', hg⟩ := hmod hm hs
      exact ⟨m, (congrArg t'.mods.get? hg).trans hm', hs, hname⟩
  | rename modId name slug =>
    refine ⟨fun n hn => ?_, fun n hn => ?_⟩
    · obtain ⟨m, hm, hs, hname⟩ := h.1 n hn
      exact ⟨m, (hmod hm hs).1, hs, hname⟩
    · obtain ⟨m, hm, hs, hslug⟩ := h.2 n hn
      exact ⟨m, (hmod hm hs).1, hs, hslug⟩
  | release releaseId versionNumber channel =>
    intro i v hv hrelease hspare
    obtain ⟨v', number, c, hv', hsha1, hsource, hreads, hsays⟩ := h i v hv hrelease hspare
    obtain ⟨releaseId', hv'', hreads', -⟩ := hk.file i v' hv' (hsource ▸ hsha1 ▸ hspare)
    exact ⟨_, number, c, hv'', hsha1, hsource, hreads' _ _ hreads, hsays⟩
  | merge fromModId intoModId =>
    obtain ⟨hprecious, hnames, hfiles⟩ := h
    have hinto : g intoModId = intoModId := hk.eq_of_isPrecious hprecious
    refine ⟨?_, fun k hk' => ?_, fun i v hv hof hspare => ?_⟩
    · obtain ⟨m, hm, hs⟩ := (Option.any_eq_true _ _).1 hprecious
      rw [isPrecious, (hk.mod _ m hm hs).1]
      exact hs
    · exact (owner_kept ht ht' hk (hnames k hk')).trans (congrArg some hinto)
    · obtain ⟨v', hv', hsha1, hsource, hmod'⟩ := hfiles i v hv hof hspare
      obtain ⟨releaseId', hv'', -⟩ := hk.file i v' hv' (hsource ▸ hsha1 ▸ hspare)
      exact ⟨_, hv'', hsha1, hsource, (congrArg g hmod').trans hinto⟩

end Reads

/-! ## What is decided reads back -/

section Decide

variable {t : Tables}

theorem mem_insertOrIgnore (r : RelationRow) (l : List RelationRow) :
    (∃ r' ∈ insertOrIgnore r l, r'.dedupeKey = r.dedupeKey) ∧ ∀ r' ∈ l, r' ∈ insertOrIgnore r l := by
  rw [insertOrIgnore]
  split_ifs with hkey
  · exact ⟨List.mem_map.1 hkey, fun _ h => h⟩
  · exact ⟨⟨r, List.mem_append_right _ (List.mem_singleton_self r), rfl⟩,
      fun _ h => List.mem_append_left _ h⟩

/-- A relation that is decided is there, and so are the others. -/
theorem ensures_addAuthoredRelation {P : Tables → Prop} (hP : ∀ (t : Tables) relations,
    (∀ r, HasRelation t r → HasRelation { t with relations } r) → P t → P { t with relations })
    (fromModId : ℕ) (target : String) (kind : RelKind) (severity : Option Severity) :
    Ensures P (addAuthoredRelation fromModId target kind severity) fun _ t =>
      P t ∧ HasRelation t (authoredRow fromModId target kind severity) := by
  rw [addAuthoredRelation, upsertRelation, upsertRelationRanked]
  refine Ensures.write fun t _ _ hp => ?_
  obtain ⟨hnew, hold⟩ := mem_insertOrIgnore (authoredRow fromModId target kind severity) t.relations
  exact ⟨hP t _ (fun _ hr => hr.imp fun r' h => ⟨hold r' h.1, h.2⟩) hp, hnew⟩

theorem ensures_knownModid {P : Tables → Prop} (modid : String) :
    Ensures P (knownModid modid) fun id t => P t ∧ t.owner (.modid, modid) = some id := by
  refine Ensures.read_bind fun t _ hp => ?_
  split
  · next id hid => exact Ensures.pure fun t' he => he ▸ ⟨hp, hid⟩
  · exact Ensures.fail

variable (shas : List String)

theorem reads_conflict (aModid bModid : String) (remove : Bool) :
    Ensures (fun t' => t' = t) (setConflict aModid bModid remove) fun _ t' =>
      (Decision.conflict aModid bModid remove).Reads shas id t t' := by
  rcases hremove : remove
  · refine ((ensures_knownModid aModid).imp (fun _ _ => trivial) fun _ _ h => h.2).bind fun a =>
      (ensures_knownModid bModid).bind fun b => ?_
    rw [setAuthoredConflict, if_neg Bool.false_ne_true]
    refine (ensures_addAuthoredRelation (fun _ _ _ h => h) _ _ _ _).bind fun _ =>
      (ensures_addAuthoredRelation (fun _ _ hold h => ⟨h.1, hold _ h.2⟩) _ _ _ _).imp (fun _ h => h)
        fun _ t h _ => ?_
    obtain ⟨⟨⟨ha, hb⟩, hab⟩, hba⟩ := h
    exact ⟨a, b, ha, hb, hab, hba⟩
  · intro _ _ _ _ _ h
    cases h

theorem reads_relation (fromModId : ℕ) (target : String) (kind : RelKind)
    (severity : Option Severity) (remove : Bool) :
    Ensures (fun t' => t' = t) (authorRelation fromModId target kind severity remove) fun _ t' =>
      (Decision.relation fromModId target kind severity remove).Reads shas id t t' := by
  rw [authorRelation]
  rcases hremove : remove
  · rw [if_neg Bool.false_ne_true]
    exact (ensures_addAuthoredRelation (P := fun _ => True) (fun _ _ _ h => h) _ _ _ _).imp
      (fun _ _ => trivial) fun _ _ h _ => h.2
  · intro _ _ _ _ _ h
    cases h

theorem reads_jarClass (sha1 kind : String) (side matchPolicy : Option String) (remove : Bool) :
    Ensures (fun t' => t' = t) (setAuthoredJarClass sha1 kind side matchPolicy remove) fun _ t' =>
      (Decision.jarClass sha1 kind side matchPolicy remove).Reads shas id t t' := by
  rcases hremove : remove
  · rw [setAuthoredJarClass, if_neg Bool.false_ne_true]
    iterate 4
      split
      · exact Ensures.fail
    refine Ensures.read_bind fun t' _ _ => ?_
    split
    · exact Ensures.fail
    · exact Ensures.write fun t₁ _ _ _ _ => ⟨_, mem_putJarClass _ _, rfl, rfl, rfl, rfl, rfl⟩
  · intro _ _ _ _ _ h
    cases h

theorem reads_rename (modId : ℕ) (name slug : Option String) :
    Ensures (fun t' => t' = t) (renameMod modId name slug) fun _ t' =>
      (Decision.rename modId name slug).Reads shas id t t' := by
  rw [renameMod]
  split_ifs with hnone
  · obtain ⟨rfl, rfl⟩ := hnone
    exact Ensures.pure fun _ _ => ⟨fun n hn => absurd hn.symm (Option.some_ne_none n),
      fun n hn => absurd hn.symm (Option.some_ne_none n)⟩
  refine Ensures.read_bind fun t₀ _ _ => ?_
  refine Ensures.bind (Q := fun _ t' => t'.mods = t₀.mods.modify modId fun m =>
    { m with canonicalName := name.or m.canonicalName, slug := slug.or m.slug, source := .authored })
      (Ensures.write fun t' _ _ he => by rw [he]) fun _ => ?_
  split_ifs with hmod
  · obtain ⟨m, hm⟩ := Option.isSome_iff_exists.1 hmod
    refine Ensures.pure fun t' he => ?_
    have hget : t'.mods.get? modId = some { m with
        canonicalName := name.or m.canonicalName, slug := slug.or m.slug, source := .authored } := by
      rw [he, Table.get?_modify_self, hm, Option.map_some]
    exact ⟨fun n hn => ⟨_, hget, rfl, by rw [hn, Option.some_or]⟩,
      fun n hn => ⟨_, hget, rfl, by rw [hn, Option.some_or]⟩⟩
  · exact Ensures.fail

theorem reads_release (ht : t.Integrity) (releaseId : ℕ) (versionNumber : Option String)
    (channel : Option Channel) :
    Ensures (fun t' => t' = t) (editRelease releaseId versionNumber channel) fun _ t' =>
      (Decision.release releaseId versionNumber channel).Reads shas id t t' := by
  have hrelease : ∀ {i v}, t.versions.get? i = some v → v.releaseId = some releaseId →
      ∃ r, t.releases.get? releaseId = some r := fun hv hr =>
    Option.isSome_iff_exists.1 ((ht.versionRelease.get hv :) _ hr)
  rw [editRelease]
  split_ifs with hnone
  · obtain ⟨rfl, rfl⟩ := hnone
    refine Ensures.pure fun t' he i v hv hr _ => ?_
    subst he
    obtain ⟨r, hget⟩ := hrelease hv hr
    exact ⟨v, _, _, hv, rfl, rfl, ⟨releaseId, r, hr, hget, rfl, rfl⟩,
      fun n hn => absurd hn.symm (Option.some_ne_none n),
      fun c hc => absurd hc.symm (Option.some_ne_none c)⟩
  refine Ensures.read_bind fun t₀ _ he₀ => ?_
  refine Ensures.bind (Q := fun _ t' => t'.versions = t.versions ∧
    t'.releases = t.releases.modify releaseId fun r =>
      { r with versionNumber := versionNumber.getD r.versionNumber,
               channel := channel.getD r.channel, source := .authored })
    (Ensures.write fun t₁ _ _ he => he₀ ▸ he ▸ ⟨rfl, rfl⟩) fun _ => ?_
  split_ifs with hmod
  · refine Ensures.pure fun t' hedited i v hv hr _ => ?_
    obtain ⟨hversions, hreleases⟩ := hedited
    obtain ⟨r, hget⟩ := hrelease hv hr
    have hget' : t'.releases.get? releaseId = some { r with
        versionNumber := versionNumber.getD r.versionNumber,
        channel := channel.getD r.channel, source := .authored } := by
      rw [hreleases, Table.get?_modify_self, hget, Option.map_some]
    exact ⟨v, _, _, hversions ▸ hv, rfl, rfl, ⟨releaseId, _, hr, hget', rfl, rfl⟩,
      fun n hn => by rw [hn, Option.getD_some], fun c hc => by rw [hc, Option.getD_some]⟩
  · exact Ensures.fail

theorem reads_merge (fromModId intoModId : ℕ) :
    Ensures (fun t' => t' = t) (mergeMods fromModId intoModId) fun _ t' =>
      (Decision.merge fromModId intoModId).Reads shas id t t' := by
  refine (along_mergeMods (R := fun t t' => (Decision.merge fromModId intoModId).Reads shas id t t')
    fun t ht hne hfrom hinto => ?_).of_eq t
  have hmove : ∀ id, id = fromModId ∨ id = intoModId → moveId fromModId intoModId id = intoModId := by
    rintro id (rfl | rfl)
    · exact if_pos rfl
    · exact if_neg hne.symm
  refine ⟨?_, fun k hk => ?_, fun i v hv hof _ => ?_⟩
  · obtain ⟨m, hm⟩ := Option.isSome_iff_exists.1 hinto
    rw [isPrecious, Table.get?_modify_self, get?_mods_folded, if_neg hne.symm, hm]
    rfl
  · show (t.folded fromModId intoModId).owner k = some intoModId
    rw [owner_folded]
    rcases hk with hk | hk
    · rw [hk, Option.map_some, hmove _ (.inl rfl)]
    · rw [hk, Option.map_some, hmove _ (.inr rfl)]
  · exact ⟨_, get?_versions_folded.2 ⟨v, hv, rfl⟩, rfl, rfl, hmove _ hof⟩

/-! ### The identity of a file -/

theorem ensures_resolveModRef (ref : ModRef) :
    Ensures (fun _ => True) (resolveModRef ref) fun modId t => OfMod id t ref modId := by
  rw [resolveModRef.eq_def]
  split
  · refine Ensures.read_bind fun t _ _ => ?_
    split_ifs
    · exact Ensures.pure fun _ _ => rfl
    · exact Ensures.fail
  · next name =>
    split_ifs
    · exact Ensures.fail
    · refine Ensures.read_bind fun t _ _ => ?_
      refine Ensures.bind (Q := fun _ t' => OfMod id t' (.new name) t.mods.nextId)
        (Ensures.write fun t' _ _ he => ?_) fun _ => Ensures.pure fun _ h => h
      subst he
      exact ⟨_, Table.get?_insert_nextId, rfl, rfl⟩

/-- The release of a version in a channel is there, and the mods are as they were. -/
theorem ensures_upsertRelease {P : Tables → Prop} (hP : ∀ (t : Tables) releases,
    P t → P { t with releases }) (source : Registry.Source) (modId : ℕ) (versionNumber : String)
    (channel : Channel) :
    Ensures P (upsertRelease source modId versionNumber channel) fun id t =>
      P t ∧ ReadsAs t (some id) versionNumber channel := by
  refine Ensures.read_bind fun t _ hp => ?_
  split
  · next id hfor =>
    obtain ⟨r, hr, -, hkey⟩ := get?_of_releaseFor hfor
    exact Ensures.pure fun t' he => he ▸ ⟨hp, id, r, rfl, hr, hkey⟩
  · refine Ensures.bind (Q := fun _ t' => P t' ∧ ReadsAs t' (some t.releases.nextId) versionNumber
      channel) (Ensures.write fun t' _ _ he => ?_) fun _ => Ensures.pure fun _ h => h
    subst he
    exact ⟨hP _ _ hp, _, _, rfl, Table.get?_insert_nextId, rfl, rfl⟩

theorem OfMod.of_mods {f : ℕ → ℕ} {t t' : Tables} {ref : ModRef} {modId : ℕ}
    (h : OfMod f t ref modId) (hmods : t'.mods = t.mods) : OfMod f t' ref modId := by
  cases ref with
  | existing => exact h
  | new name =>
    obtain ⟨m, hm, hname⟩ := h
    exact ⟨m, hmods ▸ hm, hname⟩

/-- The row of a file is written as it was decided. -/
theorem identified_authorVersion {t : Tables} {fi : FileIdentity} {modId releaseId : ℕ}
    (hof : OfMod id t fi.modRef modId)
    (hreads : ReadsAs t (some releaseId) fi.versionNumber fi.channel) :
    ∃ i, Identified id fi i { t with versions := t.authorVersion modId releaseId fi } := by
  rw [authorVersion]
  rcases hfor : t.versionForSha1 fi.sha1 with _ | ⟨i, v⟩
  · exact ⟨t.versions.nextId, _, Table.get?_insert_nextId, rfl, rfl, rfl, rfl, fun _ h => h, hreads,
      hof.of_mods rfl⟩
  · obtain ⟨hv, hsha1⟩ := Table.get?_of_find? hfor
    refine ⟨i, _, Table.get?_modify_self.trans (congrArg _ hv), rfl, of_decide_eq_true hsha1, rfl,
      rfl, fun name hname => ?_, hreads, hof.of_mods rfl⟩
    have hfilename : fi.filename = some name := hname
    dsimp only
    rw [hfilename, Option.some_or]

/-- A file suits the loaders that were decided, and no others. -/
theorem ensures_targets {P : Tables → Prop} (hP : ∀ (t : Tables) targets,
    P t → P { t with targets }) (i : ℕ) (loaders : List String) :
    Ensures P (setModVersionTargets i loaders false) fun _ t => P t ∧
      ∀ loader, (i, loader) ∈ t.targets ↔ loader ∈ if loaders = [] then ["any"] else loaders := by
  have hinsert : ∀ rest done : List String, Ensures
      (fun t => P t ∧ ∀ loader, (i, loader) ∈ t.targets ↔ loader ∈ done)
      (rest.forM fun target => execute fun t => { t with targets := t.targets.insert (i, target) })
      fun _ t => P t ∧ ∀ loader, (i, loader) ∈ t.targets ↔ loader ∈ done ++ rest := by
    intro rest
    induction rest with
    | nil => exact fun done => Ensures.pure fun t h => by rwa [List.append_nil]
    | cons target rest ih =>
      intro done
      refine Ensures.bind (Q := fun _ t => P t ∧ ∀ loader, (i, loader) ∈ t.targets ↔
        loader ∈ done ++ [target]) (Ensures.write fun t _ _ ⟨hp, htargets⟩ =>
          ⟨hP _ _ hp, fun loader => ?_⟩) fun _ => (ih (done ++ [target])).imp (fun _ h => h)
            fun _ t h => by rwa [List.append_assoc] at h
      rw [List.mem_insert_iff, htargets, Prod.mk.injEq, List.mem_append, List.mem_singleton,
        and_iff_right rfl, or_comm]
  rw [setModVersionTargets, if_neg Bool.false_ne_true]
  refine Ensures.bind (Q := fun _ t => P t ∧ ∀ loader, (i, loader) ∈ t.targets ↔ loader ∈ ([] : List String))
    (Ensures.write fun t _ _ hp => ⟨hP _ _ hp, fun loader => ?_⟩) fun _ => hinsert _ []
  simp

theorem reads_fileIdentity (fi : FileIdentity) :
    Ensures (fun t' => t' = t) (authorFileIdentity fi) fun _ t' =>
      (Decision.fileIdentity fi).Reads shas id t t' := by
  rw [authorFileIdentity]
  split_ifs
  · exact Ensures.fail
  refine ((ensures_resolveModRef fi.modRef).imp (fun _ _ => trivial) fun _ _ h => h).bind
    fun modId => ?_
  refine (ensures_upsertRelease (fun t releases h => h.of_mods rfl) _ _ _ _).bind
    fun releaseId => ?_
  refine Ensures.bind (Q := fun _ t => ∃ i, Identified id fi i t)
    (Ensures.write fun t' _ _ h => identified_authorVersion h.1 h.2) fun _ => ?_
  refine Ensures.read_bind fun t₁ ht₁ hid => ?_
  obtain ⟨i, hid⟩ := hid
  -- The row that is found by its hash is the one that was written.
  have hfor : ∃ v, t₁.versionForSha1 fi.sha1 = some (i, v) := by
    obtain ⟨v, hv, -, hsha1, -⟩ := hid
    exact ⟨v, (ht₁.versionSha1.find?_eq_some fun v => decide_eq_true_iff).2 ⟨hv, hsha1⟩⟩
  obtain ⟨v, hfor⟩ := hfor
  rw [hfor]
  refine Ensures.bind (Q := fun p t => p = (i, v) ∧ t = t₁) (Ensures.pure fun _ he => ⟨rfl, he⟩)
    fun p => Ensures.of_forall fun hp => ?_
  subst hp
  refine (ensures_targets (P := fun t => Identified id fi i t) (fun t targets h => ?_) i
    fi.loaders).bind (fun _ => Ensures.pure fun t h => ⟨i, h⟩) |>.imp (fun t he => he ▸ hid) fun _ _ h => h
  obtain ⟨v, hv, hsource, hsha1, hversion, hmc, hname, hreads, hof⟩ := h
  exact ⟨v, hv, hsource, hsha1, hversion, hmc, hname, hreads, hof.of_mods rfl⟩

/-- What is decided reads back at once. -/
theorem reads_decision (ht : t.Integrity) (d : Decision) :
    Ensures (fun t' => t' = t) d.write fun _ t' => d.Reads shas id t t' := by
  cases d with
  | conflict aModid bModid remove => exact reads_conflict shas aModid bModid remove
  | relation fromModId target kind severity remove => exact reads_relation shas _ _ _ _ _
  | jarClass sha1 kind side matchPolicy remove => exact reads_jarClass shas _ _ _ _ _
  | fileIdentity fi => exact (reads_fileIdentity shas fi).bind fun _ => Ensures.pure fun _ h => h
  | rename modId name slug => exact reads_rename shas modId name slug
  | release releaseId versionNumber channel => exact reads_release shas ht _ _ _
  | merge fromModId intoModId => exact reads_merge shas fromModId intoModId

end Decide

/-! ## The harvests that follow -/

/-- The files that are read: those of the jars with a name. -/
def readIn (scans : List (Plan × ScanData)) : List String :=
  scans.flatMap fun p => (p.2.jars.filter fun jar => jar.aliases ≠ []).map JarSeed.sha1

def harvests (scans : List (Plan × ScanData)) : List Write :=
  scans.map fun p => .harvest p.1 p.2

/-- Harvests keep what is precious, and the files that they do not read. -/
theorem keeping_harvests {shas : List String} {scans : List (Plan × ScanData)}
    (hshas : ∀ sha1 ∈ readIn scans, sha1 ∈ shas) {s s' : Stored Integrity}
    (hrun : registry.run s (harvests scans) = some s') : Keeping shas s.1 s'.1 := by
  induction scans generalizing s with
  | nil =>
    obtain rfl := Option.some.inj hrun
    exact Std.Refl.refl s.1
  | cons p scans ih =>
    obtain ⟨s₁, hstep, hrun⟩ := Option.bind_eq_some_iff.1 hrun
    obtain ⟨hp, hscans⟩ := List.forall_mem_append.1 hshas
    have hjars : ∀ jar ∈ p.2.jars, jar.aliases ≠ [] → jar.sha1 ∈ shas := fun jar hjar hnames =>
      hp _ (List.mem_map_of_mem (List.mem_filter.2 ⟨hjar, decide_eq_true hnames⟩))
    have hkeep : Keeping shas s.1 s₁.1 := (spares_keeping shas).along_writeScan
      (fun t _ _ _ => ⟨id, { Kept.refl shas t with }⟩) p.1 hjars s _ s₁ (registry_step hstep)
    exact IsTrans.trans _ _ _ hkeep (ih hscans hrun)

/-- What holds of a run that writes, decides and harvests holds of states that are reached. -/
theorem exists_runs (writes : List Write) (d : Decision) (scans : List (Plan × ScanData))
    {p : Tables → Tables → Tables → Bool}
    (h : ((registry.run fresh writes).any fun s => (registry.step s (.decide d)).any fun s₀ =>
      (registry.run s₀ (harvests scans)).any fun s₁ => p s.1 s₀.1 s₁.1) = true) :
    ∃ s s₀ s₁, registry.Reachable s ∧ registry.step s (.decide d) = some s₀ ∧
      registry.run s₀ (harvests scans) = some s₁ ∧ p s.1 s₀.1 s₁.1 = true := by
  obtain ⟨s, hs, h⟩ := (Option.any_eq_true _ _).1 h
  obtain ⟨s₀, hs₀, h⟩ := (Option.any_eq_true _ _).1 h
  obtain ⟨s₁, hs₁, h⟩ := (Option.any_eq_true _ _).1 h
  exact ⟨s, s₀, s₁, reachable_fresh.run hs, hs₀, hs₁, h⟩

/-- A release of a mod, and one of another. -/
def releaseOfA : JarSeed :=
  { JarSeed.ofSha1 "1" with modid := some "a", version := some "1", channel := some .release }

def releaseOfB : JarSeed :=
  { JarSeed.ofSha1 "2" with modid := some "b", version := some "1", channel := some .release }

/-- A jar that says that the two mods are one. -/
def releaseOfBoth : JarSeed := { releaseOfA with extraModids := ["b"] }

end Harvest

end Smrt
