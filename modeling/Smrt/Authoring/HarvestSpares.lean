import Smrt.Authoring.HarvestParts

/-!
# What a harvest spares

Every statement of a harvest spares the rows that are precious, and the files that it did not read.
What is meant by that is left open here: a relation that holds along each kind of statement
(`Spares`) holds along the harvest, but for what it writes about the packs
(`Spares.along_readJars` to `Spares.along_pruneEmptyReleases`).

A jar writes one file (`FileWritten`), and only if that one is not precious.
-/

namespace Smrt

namespace Harvest

open Registry Registry.Tables Txn

/-! ## One file -/

/-- Of the files only the one of the hash is written, and only if it is not precious; releases are
    added, and nothing else is written. -/
structure FileWritten (sha1 : String) (t t' : Tables) : Prop where
  rest : butFiles t' = butFiles t
  file : ∀ id v, t.versions.get? id = some v → v.source.isPrecious = true ∨ v.sha1 ≠ sha1 →
    t'.versions.get? id = some v ∧ ∀ loader, (id, loader) ∈ t'.targets ↔ (id, loader) ∈ t.targets
  release : ∀ id r, t.releases.get? id = some r → t'.releases.get? id = some r

instance (sha1 : String) : Std.Refl (FileWritten sha1) :=
  ⟨fun _ => ⟨rfl, fun _ _ h _ => ⟨h, fun _ => .rfl⟩, fun _ _ h => h⟩⟩

instance (sha1 : String) : IsTrans Tables (FileWritten sha1) where
  trans _ _ _ h h' := by
    refine ⟨h'.rest.trans h.rest, fun id v hv hspare => ?_, fun id r hr => ?_⟩
    · obtain ⟨hv', htargets⟩ := h.file id v hv hspare
      obtain ⟨hv'', htargets'⟩ := h'.file id v hv' hspare
      exact ⟨hv'', fun loader => (htargets' loader).trans (htargets loader)⟩
    · exact h'.release id r (h.release id r hr)

/-- The row of a file that may be written. -/
def IsFile (sha1 : String) (id : ℕ) (t : Tables) : Prop :=
  ∃ v, t.versions.get? id = some v ∧ v.sha1 = sha1 ∧ v.source.isPrecious = false

/-- What holds along the statements about a row, as long as it is the one of the file. -/
def RowWritten (sha1 : String) (id : ℕ) (t t' : Tables) : Prop :=
  IsFile sha1 id t → FileWritten sha1 t t' ∧ IsFile sha1 id t'

section File

variable {sha1 : String} {id : ℕ}

instance : Std.Refl (RowWritten sha1 id) := ⟨fun t h => ⟨Std.Refl.refl t, h⟩⟩

instance : IsTrans Tables (RowWritten sha1 id) where
  trans _ _ _ h h' hid := by
    obtain ⟨hw, hid'⟩ := h hid
    obtain ⟨hw', hid''⟩ := h' hid'
    exact ⟨IsTrans.trans _ _ _ hw hw', hid''⟩

theorem RowWritten.of_versions {t t' : Tables} (h : FileWritten sha1 t t')
    (hversions : t'.versions = t.versions) : RowWritten sha1 id t t' := by
  intro hid
  refine ⟨h, ?_⟩
  rw [IsFile, hversions]
  exact hid

/-- Targets of the row are written. -/
theorem along_rowTargets {f : List (ℕ × String) → List (ℕ × String)}
    (hf : ∀ l p, p.1 ≠ id → (p ∈ f l ↔ p ∈ l)) :
    Along (RowWritten sha1 id) (execute fun t => { t with targets := f t.targets }) := by
  refine Along.write fun t _ _ hid => ?_
  obtain ⟨v, hv, hsha1, hprecious⟩ := hid
  refine ⟨⟨rfl, fun id' v' hv' hspare => ⟨hv', fun loader => hf _ _ fun he => ?_⟩, fun _ _ h => h⟩,
    v, hv, hsha1, hprecious⟩
  -- A row that is spared is not the one of the file.
  obtain rfl : id' = id := he
  obtain rfl := Option.some.inj (hv.symm.trans hv')
  rcases hspare with hspare | hspare
  · exact Bool.false_ne_true (hprecious.symm.trans hspare)
  · exact hspare hsha1

theorem along_rowTargets_set (targets : List String) (precious : Bool) :
    Along (RowWritten sha1 id) (setModVersionTargets id targets precious) := by
  rw [setModVersionTargets]
  split_ifs
  · exact Along.pure
  all_goals
    refine (along_rowTargets fun l p hp => ?_).bind fun _ => Along.forM fun target _ =>
      along_rowTargets fun l p hp => ?_
    · simp [hp]
    · rw [List.mem_insert_iff, or_iff_right fun he => hp (congrArg Prod.fst he)]

theorem along_rowRelease (source : Registry.Source) (modId : ℕ) (versionNumber : String)
    (channel : Channel) :
    Along (RowWritten sha1 id) (upsertRelease source modId versionNumber channel) := by
  refine Along.read_bind fun t _ => ?_
  split
  · exact Along.pure
  · refine (Along.write fun t _ _ => .of_versions ⟨rfl, fun _ _ h _ => ⟨h, fun _ => .rfl⟩, ?_⟩ rfl).bind
      fun _ => Along.pure
    intro i r hr
    rw [Table.get?_insert_of_ne (Table.lt_nextId_of_get? hr).ne, hr]

/-- The row is written. -/
theorem along_row {f : VersionRow → VersionRow} (hsha1 : ∀ v, (f v).sha1 = v.sha1)
    (hsource : ∀ v, (f v).source = v.source) :
    Along (RowWritten sha1 id)
      (execute fun t => { t with versions := t.versions.modify id f }) := by
  refine Along.write fun t _ _ hid => ?_
  obtain ⟨v, hv, hv₁, hv₂⟩ := hid
  refine ⟨⟨rfl, fun id' v' hv' hspare => ⟨?_, fun _ => .rfl⟩, fun _ _ h => h⟩, f v, ?_,
    (hsha1 v).trans hv₁, (congrArg Registry.Source.isPrecious (hsource v)).trans hv₂⟩
  · have hne : id' ≠ id := by
      rintro rfl
      obtain rfl := Option.some.inj (hv.symm.trans hv')
      rcases hspare with hspare | hspare
      · exact Bool.false_ne_true (hv₂.symm.trans hspare)
      · exact hspare hv₁
    exact (Table.get?_modify_of_ne hne).trans hv'
  · exact Table.get?_modify_self.trans (congrArg _ hv)

theorem along_fileWritten_upsert (modId : ℕ) (version : String) (targets : List String)
    (filename : Option String) (mcVersions : List String) :
    Along (FileWritten sha1) (upsertModVersion modId version targets sha1 filename mcVersions) := by
  refine Along.bind (Along.write fun t _ _ => ⟨rfl, fun id v hv hspare => ⟨?_, fun _ => .rfl⟩,
    fun _ _ h => h⟩) fun _ => ?_
  · show (t.putVersion modId version sha1 filename mcVersions).get? id = some v
    rw [putVersion]
    split
    · exact (Table.get?_insert_of_ne (Table.lt_nextId_of_get? hv).ne).trans hv
    · next id' v' hfor =>
      obtain ⟨hv', hsha1⟩ := Table.get?_of_find? hfor
      by_cases hid : id = id'
      · subst hid
        obtain rfl := Option.some.inj (hv'.symm.trans hv)
        rcases hspare with hspare | hspare
        · rw [Table.get?_modify_self, hv, Option.map_some, if_pos hspare]
        · exact absurd (of_decide_eq_true hsha1) hspare
      · exact (Table.get?_modify_of_ne hid).trans hv
  · refine Along.of_read fun t _ => ?_
    rcases hfor : t.versionForSha1 sha1 with _ | ⟨id, v⟩
    · exact Ensures.bind (Q := fun _ _ => False) Ensures.fail fun _ _ h => h.elim
    obtain ⟨hv, hsha1⟩ := Table.get?_of_find? hfor
    refine Ensures.bind (Q := fun p t' => p = (id, v) ∧ t' = t)
      (Ensures.pure fun t' he => ⟨rfl, he⟩) fun p => Ensures.of_forall fun hp => ?_
    subst hp
    dsimp only
    rcases hprecious : v.source.isPrecious
    · have hrow : Along (RowWritten sha1 id) (do
          setModVersionTargets id targets false
          let releaseId ← upsertRelease .harvested modId version .unknown
          execute fun t =>
            { t with versions := t.versions.modify id fun v =>
                if v.source.isPrecious then v else { v with releaseId := some releaseId } }
          pure id) := by
        refine (along_rowTargets_set _ _).bind fun _ => (along_rowRelease _ _ _ _).bind fun r =>
          (along_row (fun v => ?_) fun v => ?_).bind fun _ => Along.pure
        all_goals split_ifs <;> rfl
      exact (hrow.of_eq t).imp (fun _ h => h) fun _ _ h =>
        (h ⟨v, hv, of_decide_eq_true hsha1, hprecious⟩).1
    · exact (Along.bind (R := FileWritten sha1) Along.pure fun _ => Along.pure).of_eq t

theorem along_fileWritten_release (modId : ℕ) (version : String) (channel : Channel) :
    Along (FileWritten sha1) (setHarvestedRelease sha1 modId version channel) := by
  refine Along.of_read fun t _ => ?_
  split
  · exact Along.pure.of_eq t
  · next id v hfor =>
    obtain ⟨hv, hsha1⟩ := Table.get?_of_find? hfor
    split
    · exact Along.pure.of_eq t
    · next hprecious =>
      have hrow : Along (RowWritten sha1 id) (do
          let releaseId ← upsertRelease .harvested modId version channel
          execute fun t =>
            { t with versions := t.versions.modify id fun v =>
                { v with releaseId := some releaseId } }) :=
        (along_rowRelease _ _ _ _).bind fun r => along_row (fun _ => rfl) fun _ => rfl
      exact (hrow.of_eq t).imp (fun _ h => h) fun _ _ h =>
        (h ⟨v, hv, of_decide_eq_true hsha1, Bool.eq_false_iff.2 hprecious⟩).1

/-- A jar writes its own file. -/
theorem along_fileWritten (modId : ℕ) (jar : JarSeed) :
    Along (FileWritten jar.sha1) (writeFile modId jar) :=
  (along_fileWritten_upsert _ _ _ _ _).bind fun _ =>
    (along_fileWritten_release _ _ _).bind fun _ => Along.pure

end File

/-! ## Every statement -/

/-- What holds along every kind of statement of a harvest that reads the files `shas`, but for those
    about the packs: precious rows are left alone, and so are the files that are not read. -/
structure Spares (shas : List String) (R : Tables → Tables → Prop) : Prop where
  relations (t : Tables) {relations : List RelationRow}
    (h : ∀ r ∈ t.relations, r.source.isPrecious = true → r ∈ relations) : R t { t with relations }
  packages (t : Tables) (packages : List (ℕ × String)) : R t { t with packages }
  needs (t : Tables) (needs : List (ℕ × String × String)) : R t { t with needs }
  jarClasses (t : Tables) {jarClasses : List JarClassRow}
    (h : ∀ c ∈ t.jarClasses, c.source = .authored → c ∈ jarClasses) : R t { t with jarClasses }
  mods (t : Tables) (id : ℕ) {f : ModRow → ModRow}
    (h : ∀ m, m.source.isPrecious = true → f m = m) (hsource : ∀ m, (f m).source = m.source) :
    R t { t with mods := t.mods.modify id f }
  newMod (t : Tables) : R t t.newMod
  attach (t : Tables) (modId : ℕ) (k : Alias) : R t (t.attach modId k)
  fold (t : Tables) {fromModId intoModId : ℕ} (ht : t.Integrity) (hinto : t.HasMod intoModId)
    (hfrom : t.isPrecious fromModId = false) (hne : fromModId ≠ intoModId)
    (hlower : intoModId < fromModId ∨ t.isPrecious intoModId = true) :
    R t (t.folded fromModId intoModId)
  file {t t' : Tables} {sha1 : String} (hsha1 : sha1 ∈ shas) (h : FileWritten sha1 t t') : R t t'
  prune (t : Tables) (ht : t.Integrity) :
    R t { t with releases := t.releases.filter fun id r =>
      r.source.isPrecious || t.versions.rows.any fun v => v.2.releaseId = some id }

/-- The mods that are looked at have to be there. -/
theorem ensures_preciousOf {t : Tables} (ids : List ℕ) :
    Ensures (fun t' => t' = t) (preciousOf ids) fun _ _ => ∀ id ∈ ids, t.HasMod id := by
  induction ids with
  | nil => exact Ensures.pure fun _ _ => nofun
  | cons id ids ih =>
    refine Ensures.read_bind fun t' _ he => ?_
    subst he
    rcases hm : t'.mods.get? id with _ | m
    · exact Ensures.bind (Q := fun _ _ => False) Ensures.fail fun _ => nofun
    refine Ensures.bind (Q := fun _ t₁ => t₁ = t') (Ensures.pure fun _ he => he) fun m' => ?_
    refine Ensures.bind (ih.imp (fun _ h => h) fun _ _ hids => ?_) fun _ => Ensures.const fun h => h
    exact List.forall_mem_cons.2 ⟨Option.isSome_iff_exists.2 ⟨m, hm⟩, hids⟩

namespace Spares

variable {shas : List String} {R : Tables → Tables → Prop} (h : Spares shas R)

include h

theorem relating : Relating R := by
  intro modId versionId e rank
  rw [upsertRelationRanked]
  refine Along.write fun t _ _ => h.relations t fun r hr _ => ?_
  rw [insertOrIgnore]
  split_ifs
  · exact hr
  · exact List.mem_append_left _ hr

theorem along_filterRelations {p : RelationRow → Bool}
    (hp : ∀ r : RelationRow, r.source.isPrecious = true → p r = true) :
    Along R (execute fun t => { t with relations := t.relations.filter p }) :=
  Along.write fun t _ _ => h.relations t fun r hr hs => List.mem_filter.2 ⟨hr, hp r hs⟩

theorem along_setModMeta (modId : ℕ) (name slug : Option String) :
    Along R (setModMeta modId name slug) := by
  rw [setModMeta]
  refine Along.write fun t _ _ => h.mods t modId (fun m hm => if_pos hm) fun m => ?_
  split_ifs <;> rfl

theorem along_writeFile (modId : ℕ) {jar : JarSeed} (hjar : jar.sha1 ∈ shas) :
    Along R (writeFile modId jar) :=
  (along_fileWritten modId jar).imp fun _ _ hw => h.file hjar hw

theorem along_pruneEmptyReleases : Along R pruneEmptyReleases := by
  rw [pruneEmptyReleases]
  exact Along.write fun t ht _ => h.prune t ht

variable [Std.Refl R]

theorem along_writeJarClass (jar : JarSeed) : Along R (writeJarClass jar) := by
  rw [writeJarClass]
  split
  · rw [setJarClass]
    refine Along.write fun t _ _ => ?_
    split_ifs with hdecided
    · exact Std.Refl.refl t
    -- A class that was decided is of another jar.
    refine h.jarClasses t fun c hc hs => ?_
    have hother : c.sha1 ≠ jar.sha1 := fun he =>
      hdecided (List.any_eq_true.2 ⟨c, hc, decide_eq_true ⟨he, hs⟩⟩)
    rw [putJarClass]
    split_ifs
    · exact List.mem_map.2 ⟨c, hc, if_neg hother⟩
    · exact List.mem_append_left _ hc
  · exact Along.pure

theorem along_linkSelfHosted (project : String × String) : Along R (linkSelfHosted project) := by
  refine Along.read_bind fun t _ => ?_
  split
  · exact Along.write fun t _ _ => h.attach t _ _
  · exact Along.pure

variable [IsTrans Tables R]

omit [Std.Refl R] in
theorem along_wipe (modrinthLegOk : Bool) : Along R (wipe modrinthLegOk) := by
  refine (Along.write fun t _ _ => h.packages t _).bind fun _ => h.along_filterRelations ?_
  rintro r hs
  refine decide_eq_true ?_
  rintro (hr | ⟨-, hr⟩) <;> rw [hr] at hs <;> cases hs

theorem along_writeNeeds (versionId : ℕ) (jar : JarSeed) : Along R (writeNeeds versionId jar) := by
  rw [writeNeeds]
  split_ifs
  · exact Along.pure
  · exact (Along.write fun t _ _ => h.needs t _).bind fun _ =>
      Along.forM fun _ _ => Along.write fun t _ _ => h.needs t _

theorem along_writeFacts (modId versionId : ℕ) (jar : JarSeed) :
    Along R (writeFacts modId versionId jar) := by
  have hpackages : Along R (setModPackages modId jar.ownedPackages) :=
    Along.forM fun _ _ => Along.write fun t _ _ => h.packages t _
  refine (h.along_filterRelations fun r hs => decide_eq_true ?_).bind fun _ => ?_
  · rintro ⟨-, hr⟩
    rw [hr] at hs
    cases hs
  refine (h.along_writeNeeds _ _).bind fun _ => (along_writeDeclared h.relating _ _ _).bind fun _ => ?_
  refine hpackages.bind fun _ => (along_writeBridge h.relating _ _ _).bind fun _ => ?_
  exact (along_writeRuntimes h.relating _ _ _).bind fun _ =>
    along_writeModrinthDeps h.relating _ _ _

/-! ### Identities -/

theorem foldAll {t : Tables} (ht : t.Integrity) {gone : List ℕ} {intoModId : ℕ}
    (hinto : t.HasMod intoModId) (hgone : ∀ id ∈ gone, t.isPrecious id = false ∧ id ≠ intoModId ∧
      (intoModId < id ∨ t.isPrecious intoModId = true)) : R t (t.foldAll gone intoModId) := by
  induction gone generalizing t with
  | nil => exact Std.Refl.refl t
  | cons other gone ih =>
    obtain ⟨⟨hother, hne, hlower⟩, hgone⟩ := List.forall_mem_cons.1 hgone
    obtain ⟨-, s, -, hs⟩ := lands_foldMods hne ht hinto ⟨t, ht⟩ rfl
    have hmods : ∀ id, (t.folded other intoModId).mods.get? id =
        if id = other then none else t.mods.get? id := fun id => get?_mods_folded
    have hsurvivor : (t.folded other intoModId).mods.get? intoModId = t.mods.get? intoModId := by
      rw [hmods, if_neg hne.symm]
    refine IsTrans.trans _ _ _ (h.fold t ht hinto hother hne hlower) (ih (hs ▸ s.2) ?_ fun id hid => ?_)
    · rw [HasMod, hsurvivor]
      exact hinto
    · obtain ⟨hprecious, hid, hlower⟩ := hgone id hid
      refine ⟨?_, hid, ?_⟩
      · rw [isPrecious, hmods]
        split_ifs
        · rfl
        · exact hprecious
      · rw [isPrecious, hsurvivor]
        exact hlower

theorem merged {t : Tables} (ht : t.Integrity) {matched : List ℕ} (hne : matched ≠ [])
    (hmods : ∀ id ∈ matched, t.HasMod id) : R t (t.merged matched) := by
  refine h.foldAll ht (hmods _ (survivor_mem hne)) fun id hid => ⟨isPrecious_foldedAway hid, ?_⟩
  have hne' : id ≠ t.survivor matched := fun he => survivor_notMem_foldedAway (he ▸ hid)
  refine ⟨hne', (survivor_lower (mem_of_mem_foldedAway hid)).imp_left fun hle => ?_⟩
  exact lt_of_le_of_ne hle hne'.symm

theorem along_mergeCollidedMods {matched : List ℕ} (hne : matched ≠ []) :
    Along R (mergeCollidedMods matched) := by
  intro s id s' hm
  -- A mod that is not there is found out before anything is folded.
  have hthere := Ensures.bind (Q := fun _ _ => ∀ id ∈ matched, s.1.HasMod id)
    ((ensures_preciousOf matched).imp (fun _ h => h) fun _ _ h => h)
    (fun _ => Ensures.const fun h => h) s rfl id s' hm
  have hs' := (lands_mergeCollidedMods hthere hne s.2).ensures s rfl id s' hm
  exact hs'.2 ▸ h.merged s.2 hne hthere

theorem along_upsertModByAlias (aliases : List Alias) : Along R (upsertModByAlias aliases) := by
  have hfind : Along R (findMod aliases) := by
    refine Along.of_read fun t ht => ?_
    rcases hm : t.matched aliases with _ | ⟨id, _ | ⟨id', ids⟩⟩
    · exact ((Along.write fun t _ _ => h.newMod t).bind fun _ => Along.pure).of_eq t
    · exact Along.pure.of_eq t
    · exact (h.along_mergeCollidedMods (List.cons_ne_nil _ _)).of_eq t
  exact hfind.bind fun modId => (Along.forM fun k _ =>
    Along.write fun t _ _ => h.attach t modId k).bind fun _ => Along.pure

/-! ### The whole -/

theorem along_readJar {jar : JarSeed} (hjar : jar.aliases ≠ [] → jar.sha1 ∈ shas) :
    Along R (readJar jar) := by
  refine (h.along_writeJarClass jar).bind fun _ => ?_
  split_ifs with hnames
  · exact Along.pure
  · exact (h.along_upsertModByAlias _).bind fun modId => (h.along_setModMeta _ _ _).bind fun _ =>
      (h.along_writeFile modId (hjar hnames)).bind fun _ => (h.along_writeFacts _ _ _).bind fun _ =>
        Along.pure

theorem along_readJars {jars : List JarSeed}
    (hjars : ∀ jar ∈ jars, jar.aliases ≠ [] → jar.sha1 ∈ shas) :
    Along R (readJars jars) := by
  induction jars with
  | nil => exact Along.pure
  | cons jar jars ih =>
    obtain ⟨hjar, hjars⟩ := List.forall_mem_cons.1 hjars
    exact (h.along_readJar hjar).bind fun _ => (ih hjars).bind fun _ => Along.pure

theorem along_reconcile (plan : Plan) : Along R (reconcile plan) := by
  have hpair : ∀ pair consumed, Along R (reconcilePair consumed pair) := by
    intro pair consumed
    rw [reconcilePair]
    split_ifs
    · exact Along.pure
    · exact (h.along_mergeCollidedMods (List.cons_ne_nil _ _)).bind fun _ =>
        Along.read_bind fun _ _ => Along.pure
  exact Along.read_bind fun t _ => (Along.foldlM fun pair _ consumed => hpair pair consumed).bind
    fun _ => Along.pure

/-- The whole harvest, if the packs are of no account. -/
theorem along_writeScan (hpacks : ∀ (t : Tables) packs builds buildMods,
    R t { t with packs, builds, buildMods }) (plan : Plan) {scan : ScanData}
    (hscan : ∀ jar ∈ scan.jars, jar.aliases ≠ [] → jar.sha1 ∈ shas) :
    Along R (writeScan plan scan) := by
  have hpack : ∀ pack, Along R (writePack scan.jars pack) := by
    intro pack
    have hlink : ∀ build bm, Along R (linkMod build bm) := by
      intro build bm
      refine Along.read_bind fun t _ => ?_
      split
      · rw [linkBuildMod]
        exact Along.write fun t _ _ => hpacks t _ _ _
      · exact Along.pure
    have hconflict : ∀ aSha bSha, Along R (writeConflict scan.jars aSha bSha) :=
      fun _ _ => along_writeConflict h.relating _ _ _
    have hupsert : Along R (upsertPack pack.packId) := by
      rw [upsertPack]
      exact Along.write fun t _ _ => hpacks t _ _ _
    have hbuild : Along R (upsertPackBuild pack.packId pack.packVersion true) :=
      (Along.write fun t _ _ => hpacks t _ _ _).bind fun _ =>
        Along.read_bind fun t _ => along_queryRow _
    exact hupsert.bind fun _ => hbuild.bind fun build =>
      (Along.forM fun bm _ => hlink build bm).bind fun _ => Along.forM fun p _ =>
        (hconflict _ _).bind fun _ => hconflict _ _
  exact (h.along_wipe _).bind fun _ => (h.along_readJars hscan).bind fun later =>
    (along_derive h.relating _).bind fun _ => (Along.forM fun pack _ => hpack pack).bind fun _ =>
      (h.along_reconcile plan).bind fun _ =>
        (Along.forM fun p _ => h.along_linkSelfHosted p).bind fun _ =>
          (Along.forM fun d _ => along_writeExternalDep h.relating d).bind fun _ =>
            h.along_pruneEmptyReleases

end Spares

end Harvest

end Smrt
