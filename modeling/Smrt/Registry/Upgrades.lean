import Mathlib.Tactic.IntervalCases
import Smrt.Registry.Migrations

/-!
# Upgrades of the registry

What each step of `migrations` does to a registry of the version before it (`Advances`), and what
follows for the start that takes all of them.

* `upgrade_keeps`: a registry of any version becomes one of the last version, with its constraints,
  and every row is kept;
* `starts_upgrade`: starts that end anywhere, one after the other, are never refused, commit each
  transaction once and in order, and the one that gets through leaves what an uninterrupted one
  leaves.
-/

namespace Smrt

namespace Migrations

open Migrate

/-! ## One step -/

/-- A step leads from every registry of a version to one of the next version, and keeps it. -/
def Advances (n : ℕ) (m : Migration Failure Db) : Prop :=
  ∀ d, Sound n d → ∃ d', m.run d = .ok d' ∧ Sound (n + 1) d' ∧ Kept d d'

theorem store_eq_ok {d : Db} (h : Constraints d) : store d = .ok d := if_pos h

theorem foreignKeyCheck_eq_ok {d : Db} (h : References d) : foreignKeyCheck d = .ok () := if_pos h

theorem Shaped.succ {n : ℕ} {d : Db} (h : Shaped n d)
    (hn : n + 1 ∉ [1, 4, 7, 9, 11, 16, 22]) : Shaped (n + 1) d := by
  simp only [List.mem_cons, List.not_mem_nil, or_false, not_or] at hn
  refine
    { fresh := fun h0 => absurd h0 (Nat.succ_ne_zero n)
      created := by rw [h.created, decide_eq_decide]; omega
      targets := fun h4 => h.targets (by omega)
      target := h.target
      releases := by rw [h.releases, decide_eq_decide]; omega
      release := fun h7 => h.release (by omega)
      channels := fun h7 => ?_
      provenance := fun h9 => h.provenance (by omega)
      artifact := fun h11 => h.artifact (by omega)
      severityColumn := by rw [h.severityColumn, decide_eq_decide]; omega
      severity := fun h22 => h.severity (by omega) }
  rw [h.channels (by omega)]
  by_cases h16 : n < 16
  · rw [if_pos h16, if_pos (by omega)]
  · rw [if_neg h16, if_neg (by omega)]

theorem advances_other {n : ℕ} (hn : n + 1 ∉ [1, 4, 7, 9, 11, 16, 22]) : Advances n other :=
  fun d hd => ⟨d, rfl, ⟨hd.shaped.succ hn, hd.constraints, hd.references⟩, .refl d⟩

/-- A registry with its first tables. -/
def Db.empty : Db := { Db.fresh with created := true, targets := some [] }

theorem constraints_empty : Constraints Db.empty := by decide

theorem advances_init : Advances 0 (.sql init) := by
  intro d hd
  obtain rfl := hd.shaped.fresh rfl
  refine ⟨Db.empty, store_eq_ok constraints_empty, ?_, { Kept.refl Db.fresh with }⟩
  exact
    { shaped :=
        { fresh := fun h => absurd h one_ne_zero
          created := rfl
          targets := fun _ => ⟨rfl, rfl⟩
          target := fun _ hv => absurd hv List.not_mem_nil
          releases := rfl
          release := fun _ _ hv => absurd hv List.not_mem_nil
          channels := fun h => absurd h (by decide)
          provenance := fun _ => rfl
          artifact := fun _ _ hr => absurd hr List.not_mem_nil
          severityColumn := rfl
          severity := fun _ _ hr => absurd hr List.not_mem_nil }
      constraints := constraints_empty
      references := by decide }

/-- The rows that one column had are in the table. -/
theorem mem_foldl_insertOrIgnore {l rows : List (ℕ × String)} {row : ℕ × String} :
    row ∈ l.foldl insertOrIgnore rows ↔ row ∈ rows ∨ row ∈ l := by
  have hone (rows : List (ℕ × String)) (new : ℕ × String) :
      row ∈ insertOrIgnore rows new ↔ row ∈ rows ∨ new = row := by
    rw [insertOrIgnore]
    by_cases hmem : new ∈ rows
    · rw [if_pos (List.contains_iff_mem.2 hmem)]
      exact (or_iff_left_of_imp fun h => h ▸ hmem).symm
    · rw [if_neg (mt List.contains_iff_mem.1 hmem), List.mem_append, List.mem_singleton,
        eq_comm (a := row)]
  rw [foldl_iff (Q := fun rows => row ∈ rows) hone]
  simp

theorem nodup_foldl_insertOrIgnore {l rows : List (ℕ × String)} (h : rows.Nodup) :
    (l.foldl insertOrIgnore rows).Nodup := by
  refine foldl_keeps (fun rows new hrows => ?_) l h
  rw [insertOrIgnore]
  by_cases hmem : new ∈ rows
  · rw [if_pos (List.contains_iff_mem.2 hmem)]
    exact hrows
  · rw [if_neg (mt List.contains_iff_mem.1 hmem)]
    exact hrows.append (List.nodup_singleton new) (List.disjoint_singleton.2 hmem)

section Reconcile

variable {d : Db}

theorem mem_allTargets {row : ℕ × String} : row ∈ d.allTargets ↔
    row ∈ d.targetRows ∨ ∃ v ∈ d.files, v.id = row.1 ∧ v.target = some row.2 := by
  rw [Db.allTargets, mem_foldl_insertOrIgnore]
  refine or_congr_right (List.mem_filterMap.trans (exists_congr fun v => ?_))
  refine and_congr_right fun _ => ?_
  obtain ⟨id, target⟩ := row
  rw [Option.map_eq_some_iff]
  constructor
  · intro h
    obtain ⟨t, ht, he⟩ := h
    obtain ⟨rfl, rfl⟩ := Prod.mk.inj he
    exact ⟨rfl, ht⟩
  · intro h
    exact ⟨target, h.2, Prod.ext h.1 rfl⟩

/-- The files of a registry without releases, with their targets elsewhere. -/
theorem files_withTargetTable (hd : Shaped 3 d) :
    List.Forall₂ FileRow.Kept d.files d.withTargetTable.files := by
  refine forall₂_map fun v hv => ⟨rfl, rfl, rfl, rfl, fun r hr => ?_⟩
  rw [hd.release (by decide) v hv] at hr
  exact absurd hr (Option.not_mem_none r)

theorem sound_withTargetTable (hd : Sound 3 d) : Sound 4 d.withTargetTable := by
  have hfiles := files_withTargetTable hd.shaped
  have hids : d.withTargetTable.files.map FileRow.id = d.files.map FileRow.id :=
    map_eq_of_forall₂ hfiles fun _ _ h => h.id
  have hsha1s : d.withTargetTable.files.map FileRow.sha1 = d.files.map FileRow.sha1 :=
    map_eq_of_forall₂ hfiles fun _ _ h => h.sha1
  refine ⟨?_, ?_, ?_⟩
  · exact
      { fresh := fun h => absurd h (by decide)
        created := hd.shaped.created
        targets := fun _ => ⟨rfl, rfl⟩
        target := by
          intro v' hv'
          obtain ⟨v, -, rfl⟩ := List.mem_map.1 hv'
          rfl
        releases := hd.shaped.releases
        release := by
          intro _ v' hv'
          obtain ⟨v, -, rfl⟩ := List.mem_map.1 hv'
          rfl
        channels := fun h => absurd h (by decide)
        provenance := fun h => absurd h (by decide)
        artifact := fun _ => hd.shaped.artifact (by decide)
        severityColumn := hd.shaped.severityColumn
        severity := fun _ => hd.shaped.severity (by decide) }
  · exact
      { hd.constraints with
        fileIds := hids ▸ hd.constraints.fileIds
        fileSha1s := hsha1s ▸ hd.constraints.fileSha1s
        targetKeys := nodup_foldl_insertOrIgnore hd.constraints.targetKeys }
  · refine
      { hd.references with
        fileMod := ?_
        fileRelease := ?_
        targetFile := ?_
        relationFile := ?_ }
    · intro v' hv'
      obtain ⟨v, hv, h⟩ := exists_of_forall₂ hfiles hv'
      rw [h.modId]
      exact hd.references.fileMod v hv
    · intro v' hv' r hr
      obtain ⟨v, -, rfl⟩ := List.mem_map.1 hv'
      exact absurd hr (Option.not_mem_none r)
    · intro t ht
      rw [hids]
      rcases mem_allTargets.1 ht with h | ⟨v, hv, hid, -⟩
      · exact hd.references.targetFile t h
      · rw [← hid]
        exact List.mem_map_of_mem hv
    · intro r hr v hv
      rw [hids]
      exact hd.references.relationFile r hr v hv

/-- The one column and the table say the same. -/
theorem kept_withTargetTable (hd : Sound 3 d) : Kept d d.withTargetTable := by
  refine
    { Kept.refl d with
      files := files_withTargetTable hd.shaped
      suits := fun id target => ?_
      grouped := .inl }
  rw [Db.Suits, Db.Suits]
  have hnone : ¬ ∃ v' ∈ d.withTargetTable.files, v'.id = id ∧ v'.target = some target := by
    intro h
    obtain ⟨v', hv', -, htarget⟩ := h
    obtain ⟨v, -, rfl⟩ := List.mem_map.1 hv'
    exact Option.some_ne_none _ htarget.symm
  rw [or_iff_right hnone, or_comm]
  exact mem_allTargets

theorem advances_reconcile : Advances 3 (.code reconcileTargetSchema) := by
  intro d hd
  -- The table is there, and it may be all that is missing.
  have hensured : Sound 3 { d with targets := some d.targetRows } :=
    ⟨{ hd.shaped with
        fresh := fun h => absurd h (by decide)
        targets := fun h => absurd h (by decide) },
      { hd.constraints with }, { hd.references with }⟩
  have hkept : Kept d { d with targets := some d.targetRows } := { Kept.refl d with }
  by_cases hcolumn : d.targetColumn = true
  · have hsound := sound_withTargetTable hensured
    refine ⟨_, Script.run_of_rebuild rfl ?_ (store_eq_ok hsound.constraints)
      (foreignKeyCheck_eq_ok hsound.references), hsound,
      hkept.trans (kept_withTargetTable hensured)⟩
    show ¬ (!d.targetColumn) = true
    rw [hcolumn]
    exact Bool.false_ne_true
  · refine ⟨_, Script.run_of_settled rfl ?_, ⟨?_, hensured.constraints, hensured.references⟩, hkept⟩
    · show (!d.targetColumn) = true
      simpa using hcolumn
    · exact
        { hensured.shaped with
          fresh := fun h => absurd h (by decide)
          targets := fun _ => ⟨rfl, by simpa using hcolumn⟩
          release := fun _ => hensured.shaped.release (by decide)
          channels := fun h => absurd h (by decide)
          provenance := fun h => absurd h (by decide)
          artifact := fun _ => hensured.shaped.artifact (by decide)
          severity := fun _ => hensured.shaped.severity (by decide) }

end Reconcile

section Releases

variable {d : Db}

theorem mem_groups {r : ReleaseRow} (h : r ∈ d.groups) : r.channel = "unknown" ∧
    ∃ v ∈ d.files, r.modId = v.modId ∧ r.versionNumber = v.version := by
  obtain ⟨i, hi, rfl⟩ := List.mem_mapIdx.1 h
  refine ⟨rfl, ?_⟩
  have hmem := List.mem_dedup.1 (List.getElem_mem hi)
  obtain ⟨v, hv, he⟩ := List.mem_map.1 hmem
  exact ⟨v, hv, congrArg Prod.fst he.symm, congrArg Prod.snd he.symm⟩

theorem nodup_groups_id : (d.groups.map ReleaseRow.id).Nodup := by
  rw [List.Nodup, List.pairwise_iff_getElem]
  intro i j hi hj hij
  simp only [Db.groups, List.getElem_map, List.getElem_mapIdx]
  omega

theorem nodup_groups_key : (d.groups.map ReleaseRow.key).Nodup := by
  have hkeys : d.groups.map ReleaseRow.key =
      (d.files.map fun v => (v.modId, v.version)).dedup.map fun g => (g.1, g.2, "unknown") := by
    refine List.ext_getElem? fun i => ?_
    rw [Db.groups, List.getElem?_map, List.getElem?_map, List.getElem?_mapIdx, Option.map_map]
    rfl
  rw [hkeys]
  refine (List.nodup_dedup _).map fun g g' he => ?_
  obtain ⟨hmod, hnumber⟩ := Prod.mk.inj he
  exact Prod.ext hmod (Prod.mk.inj hnumber).1

/-- A file has a release of its number. -/
theorem group_eq_some {v : FileRow} (hv : v ∈ d.files) : ∃ r ∈ d.groups,
    v.group d.groups = some r.id ∧ r.modId = v.modId ∧ r.versionNumber = v.version := by
  rw [FileRow.group]
  rcases hfind : d.groups.find? (fun r => r.modId = v.modId ∧ r.versionNumber = v.version ∧
    r.channel = "unknown") with _ | r
  · have hmem : (v.modId, v.version) ∈ (d.files.map fun v => (v.modId, v.version)).dedup :=
      List.mem_dedup.2 (List.mem_map_of_mem hv)
    obtain ⟨i, hi, he⟩ := List.mem_iff_getElem.1 hmem
    have hr : ReleaseRow.mk (i + 1) v.modId v.version "unknown" .harvested ∈ d.groups := by
      refine List.mem_mapIdx.2 ⟨i, hi, ?_⟩
      rw [he]
    exact absurd (decide_eq_true ⟨rfl, rfl, rfl⟩) (List.find?_eq_none.1 hfind _ hr)
  · have hof : r.modId = v.modId ∧ r.versionNumber = v.version ∧ r.channel = "unknown" :=
      of_decide_eq_true (List.find?_some (p := fun r : ReleaseRow => r.modId = v.modId ∧
        r.versionNumber = v.version ∧ r.channel = "unknown") hfind)
    refine ⟨r, List.mem_of_find?_eq_some hfind, ?_, hof.1, hof.2.1⟩
    rw [hfind]
    rfl

theorem grouped_withReleases : d.withReleases.Grouped := by
  intro v' hv'
  obtain ⟨v, hv, rfl⟩ := List.mem_map.1 hv'
  exact group_eq_some hv

theorem advances_releases : Advances 6 (.sql addReleases) := by
  intro d hd
  have hnone : d.releases = none := by
    rw [← Option.not_isSome_iff_eq_none, hd.shaped.releases]
    decide
  have hfiles : List.Forall₂ FileRow.Kept d.files d.withReleases.files := by
    refine forall₂_map fun v hv => ⟨rfl, rfl, rfl, rfl, fun r hr => ?_⟩
    rw [hd.shaped.release (by decide) v hv] at hr
    exact absurd hr (Option.not_mem_none r)
  have hids : d.withReleases.files.map FileRow.id = d.files.map FileRow.id :=
    map_eq_of_forall₂ hfiles fun _ _ h => h.id
  have hsha1s : d.withReleases.files.map FileRow.sha1 = d.files.map FileRow.sha1 :=
    map_eq_of_forall₂ hfiles fun _ _ h => h.sha1
  have hconstraints : Constraints d.withReleases :=
    { hd.constraints with
      fileIds := hids ▸ hd.constraints.fileIds
      fileSha1s := hsha1s ▸ hd.constraints.fileSha1s
      releaseIds := nodup_groups_id
      releaseKeys := nodup_groups_key
      releaseChannels := by
        intro r hr
        rw [(mem_groups hr).1]
        exact List.mem_of_getElem? (i := 3) rfl }
  refine ⟨d.withReleases, ?_, ⟨?_, hconstraints, ?_⟩, ?_⟩
  · show addReleases d = .ok d.withReleases
    rw [addReleases, hnone]
    exact store_eq_ok hconstraints
  · exact
      { fresh := fun h => absurd h (by decide)
        created := hd.shaped.created
        targets := fun _ => hd.shaped.targets (by decide)
        target := by
          intro v' hv'
          obtain ⟨v, hv, rfl⟩ := List.mem_map.1 hv'
          exact hd.shaped.target v hv
        releases := rfl
        release := fun h => absurd h (by decide)
        channels := fun _ => rfl
        provenance := fun h => absurd h (by decide)
        artifact := fun _ => hd.shaped.artifact (by decide)
        severityColumn := hd.shaped.severityColumn
        severity := fun _ => hd.shaped.severity (by decide) }
  · refine
      { hd.references with
        fileMod := ?_
        fileRelease := ?_
        targetFile := hids ▸ hd.references.targetFile
        releaseMod := ?_
        relationFile := hids ▸ hd.references.relationFile }
    · intro v' hv'
      obtain ⟨v, hv, h⟩ := exists_of_forall₂ hfiles hv'
      rw [h.modId]
      exact hd.references.fileMod v hv
    · intro v' hv' r hr
      obtain ⟨g, hg, hrelease, -, -⟩ := grouped_withReleases v' hv'
      obtain rfl : r = g.id := Option.some_injective _ (hr.symm.trans hrelease)
      exact List.mem_map_of_mem hg
    · intro r hr
      obtain ⟨-, v, hv, hmod, -⟩ := mem_groups hr
      rw [hmod]
      exact hd.references.fileMod v hv
  · refine
      { Kept.refl d with
        files := hfiles
        suits := fun id target => ?_
        releases := fun h => absurd hnone h
        grouped := fun _ => .inr grouped_withReleases }
    refine or_congr_left ?_
    constructor
    · intro h
      obtain ⟨v', hv', hid, htarget⟩ := h
      obtain ⟨v, hv, rfl⟩ := List.mem_map.1 hv'
      exact ⟨v, hv, hid, htarget⟩
    · intro h
      obtain ⟨v, hv, hid, htarget⟩ := h
      exact ⟨_, List.mem_map_of_mem hv, hid, htarget⟩

end Releases

theorem advances_provenance : Advances 8 (.code dropPackProvenance) := by
  intro d hd
  have hshaped : ∀ d', Shaped 8 d' → d'.provenanceColumn = false → Shaped 9 d' := by
    intro d' h hcolumn
    exact
      { h with
        fresh := fun h => absurd h (by decide)
        targets := fun _ => h.targets (by decide)
        release := fun h => absurd h (by decide)
        channels := fun _ => h.channels (by decide)
        provenance := fun _ => hcolumn
        artifact := fun _ => h.artifact (by decide)
        severity := fun _ => h.severity (by decide) }
  by_cases hcolumn : d.provenanceColumn = true
  · have hids : d.withoutProvenance.packs.map PackRow.id = d.packs.map PackRow.id := List.map_map
    have hsound : Sound 9 d.withoutProvenance := by
      refine ⟨hshaped _ ?_ rfl, ?_, ?_⟩
      · exact
          { hd.shaped with
            fresh := fun h => absurd h (by decide)
            provenance := fun h => absurd h (by decide) }
      · exact { hd.constraints with packIds := hids ▸ hd.constraints.packIds }
      · exact { hd.references with buildPack := hids ▸ hd.references.buildPack }
    refine ⟨_, Script.run_of_rebuild rfl ?_ (store_eq_ok hsound.constraints)
      (foreignKeyCheck_eq_ok hsound.references), hsound, { Kept.refl d with packs := hids }⟩
    show ¬ (!d.provenanceColumn) = true
    rw [hcolumn]
    exact Bool.false_ne_true
  · have hcolumn : d.provenanceColumn = false := by simpa using hcolumn
    refine ⟨d, Script.run_of_settled rfl ?_,
      ⟨hshaped d hd.shaped hcolumn, hd.constraints, hd.references⟩, .refl d⟩
    show (!d.provenanceColumn) = true
    rw [hcolumn]
    rfl

section Artifacts

variable {d : Db}

theorem mem_of_onlyFile {l : List ℕ} {id : ℕ} (h : onlyFile l = some id) : id ∈ l := by
  rcases l with _ | ⟨a, _ | ⟨b, l⟩⟩
  · exact absurd h.symm (Option.some_ne_none id)
  · obtain rfl := Option.some_injective _ h
    exact List.mem_singleton_self a
  · exact absurd h.symm (Option.some_ne_none id)

theorem attach_kept {r : RelationRow} (hr : r.fromVersionId = none) :
    r.Kept d.files (r.attach d.files) := by
  rw [RelationRow.attach]
  by_cases hderived : r.source ∈ derived
  · rw [if_pos hderived]
    refine ⟨rfl, rfl, rfl, rfl, rfl, rfl, .inr ⟨hr, hderived, ?_⟩⟩
    show (onlyFile _).or r.fromVersionId = _
    rw [hr, Option.or_none]
  · rw [if_neg hderived]
    exact .refl d.files r

theorem key_of_attach {r s : RelationRow} (hr : r.fromVersionId = none)
    (hs : s.fromVersionId = none) (h : (r.attach d.files).key = (s.attach d.files).key) :
    r.key = s.key := by
  have hforget (r : RelationRow) (hr : r.fromVersionId = none) :
      { (r.attach d.files).key with fromVersionId := some 0 } = r.key := by
    rw [RelationRow.attach]
    split_ifs
    · rw [RelationRow.key, RelationRow.key, hr]
      rfl
    · rw [RelationRow.key, hr]
      rfl
  rw [← hforget r hr, ← hforget s hs, h]

theorem advances_artifacts : Advances 10 (.sql attachRelations) := by
  intro d hd
  have hnone := hd.shaped.artifact (by decide)
  have hkept : List.Forall₂ (RelationRow.Kept d.files) d.relations d.withArtifacts.relations :=
    forall₂_map fun r hr => attach_kept (hnone r hr)
  have hconstraints : Constraints d.withArtifacts :=
    { hd.constraints with
      relationIds := (map_eq_of_forall₂ hkept fun _ _ h => h.id) ▸ hd.constraints.relationIds
      relationKeys := by
        rw [Db.withArtifacts, List.map_map, List.Nodup, List.pairwise_map]
        refine (List.pairwise_map.1 hd.constraints.relationKeys).imp_of_mem ?_
        intro r s hr hs hne he
        exact hne (key_of_attach (hnone r hr) (hnone s hs) he)
      relationKinds := by
        intro r' hr'
        obtain ⟨r, hr, rfl⟩ := List.mem_map.1 hr'
        rw [RelationRow.attach]
        split_ifs
        · exact hd.constraints.relationKinds r hr
        · exact hd.constraints.relationKinds r hr
      relationSeverities := by
        intro h
        rw [Db.withArtifacts, hd.shaped.severityColumn] at h
        exact absurd h (by decide) }
  refine ⟨d.withArtifacts, store_eq_ok hconstraints, ⟨?_, hconstraints, ?_⟩,
    { Kept.refl d with relations := hkept }⟩
  · exact
      { fresh := fun h => absurd h (by decide)
        created := hd.shaped.created
        targets := fun _ => hd.shaped.targets (by decide)
        target := hd.shaped.target
        releases := hd.shaped.releases
        release := fun h => absurd h (by decide)
        channels := fun _ => hd.shaped.channels (by decide)
        provenance := fun _ => hd.shaped.provenance (by decide)
        artifact := fun h => absurd h (by decide)
        severityColumn := hd.shaped.severityColumn
        severity := by
          intro _ r' hr'
          obtain ⟨r, hr, rfl⟩ := List.mem_map.1 hr'
          rw [RelationRow.attach]
          split_ifs
          · exact hd.shaped.severity (by decide) r hr
          · exact hd.shaped.severity (by decide) r hr }
  · refine { hd.references with relationMod := ?_, relationFile := ?_ }
    · intro r' hr'
      obtain ⟨r, hr, h⟩ := exists_of_forall₂ hkept hr'
      rw [h.fromModId]
      exact hd.references.relationMod r hr
    · intro r' hr' v hv
      obtain ⟨r, hr, h⟩ := exists_of_forall₂ hkept hr'
      rcases h.file with hsame | ⟨-, -, hfile⟩
      · exact hd.references.relationFile r hr v (hsame ▸ hv)
      · obtain ⟨w, hw, hid⟩ := List.mem_map.1 (mem_of_onlyFile (hfile.symm.trans hv))
        exact List.mem_map.2 ⟨w, List.mem_of_mem_filter hw, hid⟩

end Artifacts

section Channels

variable {d : Db}

/-- Old channels stay apart. -/
theorem foldChannel_inj : ∀ c ∈ oldChannels, ∀ c' ∈ oldChannels,
    foldChannel c = foldChannel c' → c = c' := by
  decide

theorem foldChannel_mem : ∀ c ∈ oldChannels, foldChannel c ∈ newChannels := by
  decide

theorem foldChannel_foldChannel (c : String) : foldChannel (foldChannel c) = foldChannel c := by
  by_cases h : c = "dev"
  · rw [h]
    rfl
  · rw [foldChannel.eq_def c, if_neg h, foldChannel, if_neg h]

theorem releaseRows_withAlpha : d.withAlpha.releaseRows =
    d.releaseRows.map fun r => { r with channel := foldChannel r.channel } := by
  rw [Db.releaseRows, Db.releaseRows, Db.withAlpha]
  rcases d.releases with _ | rs
  · rfl
  · rfl

theorem advances_channels : Advances 15 (.code widenReleaseChannelVocab) := by
  intro d hd
  have hsome : d.releases.isSome = true := by
    rw [hd.shaped.releases]
    decide
  have hchannels : d.channels = oldChannels := hd.shaped.channels (by decide)
  have hold : ∀ r ∈ d.releaseRows, r.channel ∈ oldChannels := by
    rw [← hchannels]
    exact hd.constraints.releaseChannels
  have hkept : List.Forall₂ ReleaseRow.Kept d.releaseRows d.withAlpha.releaseRows := by
    rw [releaseRows_withAlpha]
    exact forall₂_map fun r _ => ⟨rfl, rfl, rfl, foldChannel_foldChannel r.channel, rfl⟩
  have hids : d.withAlpha.releaseRows.map ReleaseRow.id = d.releaseRows.map ReleaseRow.id :=
    map_eq_of_forall₂ hkept fun _ _ h => h.id
  have hmods : d.withAlpha.ReleaseMods := by
    intro r' hr'
    obtain ⟨r, hr, h⟩ := exists_of_forall₂ hkept hr'
    rw [h.modId]
    exact hd.references.releaseMod r hr
  have hconstraints : Constraints d.withAlpha :=
    { hd.constraints with
      releaseIds := hids ▸ hd.constraints.releaseIds
      releaseKeys := by
        rw [releaseRows_withAlpha, List.map_map, List.Nodup, List.pairwise_map]
        refine (List.pairwise_map.1 hd.constraints.releaseKeys).imp_of_mem ?_
        intro r s hr hs hne he
        obtain ⟨hmod, hrest⟩ := Prod.mk.inj he
        obtain ⟨hnumber, hchannel⟩ := Prod.mk.inj hrest
        refine hne (Prod.ext hmod (Prod.ext hnumber ?_))
        exact foldChannel_inj _ (hold r hr) _ (hold s hs) hchannel
      releaseChannels := by
        intro r' hr'
        rw [releaseRows_withAlpha] at hr'
        obtain ⟨r, hr, rfl⟩ := List.mem_map.1 hr'
        exact foldChannel_mem _ (hold r hr) }
  refine ⟨d.withAlpha, Script.run_of_rebuild (if_pos hsome) ?_ (store_eq_ok hconstraints)
    (if_pos hmods), ⟨?_, hconstraints, ?_⟩, ?_⟩
  · show ¬ d.channels.contains "alpha" = true
    rw [hchannels]
    decide
  · exact
      { fresh := fun h => absurd h (by decide)
        created := hd.shaped.created
        targets := fun _ => hd.shaped.targets (by decide)
        target := hd.shaped.target
        releases := (Option.isSome_map ..).trans hsome
        release := fun h => absurd h (by decide)
        channels := fun _ => rfl
        provenance := fun _ => hd.shaped.provenance (by decide)
        artifact := fun h => absurd h (by decide)
        severityColumn := hd.shaped.severityColumn
        severity := fun _ => hd.shaped.severity (by decide) }
  · exact
      { hd.references with
        fileRelease := hids ▸ hd.references.fileRelease
        releaseMod := hmods }
  · refine { Kept.refl d with releases := fun h => ⟨?_, hkept⟩, grouped := fun h => ?_ }
    · intro hnone
      exact h (Option.map_eq_none_iff.1 hnone)
    · rw [h] at hsome
      exact absurd hsome Bool.false_ne_true

end Channels

section Severities

variable {d : Db}

/-- What an old kind comes to say is what it said. -/
theorem collapse_spec : ∀ kind ∈ kinds false,
    collapseKind kind ∈ kinds true ∧ Stated (collapseKind kind) (collapseSeverity kind) ∧
      meaning (collapseKind kind) (collapseSeverity kind) = meaning kind none := by
  decide

/-- Two old kinds do not come to say the same. -/
theorem collapse_inj : ∀ kind ∈ kinds false, ∀ kind' ∈ kinds false,
    collapseKind kind = collapseKind kind' →
      (collapseSeverity kind).getD "" = (collapseSeverity kind').getD "" → kind = kind' := by
  decide

theorem key_of_collapse {r s : RelationRow} (hr : r.kind ∈ kinds false) (hs : s.kind ∈ kinds false)
    (hr' : r.severity = none) (hs' : s.severity = none) (h : r.collapse.key = s.collapse.key) :
    r.key = s.key := by
  have hkind : collapseKind r.kind = collapseKind s.kind := congrArg RelationRow.kind h
  have hseverity : (collapseSeverity r.kind).getD "" = (collapseSeverity s.kind).getD "" :=
    Option.some_injective _ (congrArg RelationRow.severity h)
  have hforget (r : RelationRow) (hr' : r.severity = none) :
      { r.collapse.key with kind := r.kind, severity := some "" } = r.key := by
    rw [RelationRow.key, RelationRow.key, hr']
    rfl
  rw [← hforget r hr', ← hforget s hs', h, collapse_inj _ hr _ hs hkind hseverity]

theorem advances_severities : Advances 21 (.code collapseConflictKinds) := by
  intro d hd
  have hcolumn : d.severityColumn = false := hd.shaped.severityColumn
  have hkinds : ∀ r ∈ d.relations, r.kind ∈ kinds false := by
    rw [← hcolumn]
    exact hd.constraints.relationKinds
  have hnone := hd.shaped.severity (by decide)
  have hkept : List.Forall₂ (RelationRow.Kept d.files) d.relations d.withSeverities.relations := by
    refine forall₂_map fun r hr => ⟨rfl, rfl, rfl, rfl, rfl, ?_, .inl rfl⟩
    rw [hnone r hr]
    exact (collapse_spec _ (hkinds r hr)).2.2
  have hconstraints : Constraints d.withSeverities :=
    { hd.constraints with
      relationIds := (map_eq_of_forall₂ hkept fun _ _ h => h.id) ▸ hd.constraints.relationIds
      relationKeys := by
        rw [Db.withSeverities, List.map_map, List.Nodup, List.pairwise_map]
        refine (List.pairwise_map.1 hd.constraints.relationKeys).imp_of_mem ?_
        intro r s hr hs hne he
        exact hne (key_of_collapse (hkinds r hr) (hkinds s hs) (hnone r hr) (hnone s hs) he)
      relationKinds := by
        intro r' hr'
        obtain ⟨r, hr, rfl⟩ := List.mem_map.1 hr'
        exact (collapse_spec _ (hkinds r hr)).1
      relationSeverities := by
        intro _ r' hr'
        obtain ⟨r, hr, rfl⟩ := List.mem_map.1 hr'
        exact (collapse_spec _ (hkinds r hr)).2.1 }
  have hreferences : References d.withSeverities := by
    refine { hd.references with relationMod := ?_, relationFile := ?_ }
    · intro r' hr'
      obtain ⟨r, hr, rfl⟩ := List.mem_map.1 hr'
      exact hd.references.relationMod r hr
    · intro r' hr' v hv
      obtain ⟨r, hr, rfl⟩ := List.mem_map.1 hr'
      exact hd.references.relationFile r hr v hv
  refine ⟨d.withSeverities, Script.run_of_rebuild rfl ?_ (store_eq_ok hconstraints)
    (foreignKeyCheck_eq_ok hreferences), ⟨?_, hconstraints, hreferences⟩,
    { Kept.refl d with relations := hkept }⟩
  · show ¬ d.severityColumn = true
    rw [hcolumn]
    exact Bool.false_ne_true
  · exact
      { fresh := fun h => absurd h (by decide)
        created := hd.shaped.created
        targets := fun _ => hd.shaped.targets (by decide)
        target := hd.shaped.target
        releases := hd.shaped.releases
        release := fun h => absurd h (by decide)
        channels := fun _ => hd.shaped.channels (by decide)
        provenance := fun _ => hd.shaped.provenance (by decide)
        artifact := fun h => absurd h (by decide)
        severityColumn := rfl
        severity := fun h => absurd h (by decide) }

end Severities

/-! ## The whole upgrade -/

theorem numbered_migrations : Numbered migrations := rfl

theorem advances_migrations (n : ℕ) (hn : n < migrations.length) : Advances n migrations[n].2 := by
  have hlt : n < 24 := hn
  interval_cases n
  · exact advances_init
  · exact advances_other (by decide)
  · exact advances_other (by decide)
  · exact advances_reconcile
  · exact advances_other (by decide)
  · exact advances_other (by decide)
  · exact advances_releases
  · exact advances_other (by decide)
  · exact advances_provenance
  · exact advances_other (by decide)
  · exact advances_artifacts
  · exact advances_other (by decide)
  · exact advances_other (by decide)
  · exact advances_other (by decide)
  · exact advances_other (by decide)
  · exact advances_channels
  · exact advances_other (by decide)
  · exact advances_other (by decide)
  · exact advances_other (by decide)
  · exact advances_other (by decide)
  · exact advances_other (by decide)
  · exact advances_severities
  · exact advances_other (by decide)
  · exact advances_other (by decide)

/-- A registry, with the version that is kept in it. -/
structure Deployed where
  version : ℕ
  db : Db
  known : version ≤ 24
  sound : Sound version db

/-- A registry of any version is brought to the last one, and every row of it is kept. -/
theorem upgrade_keeps (r : Deployed) :
    ∃ d', applyPending r.version r.db = .ok d' ∧ Sound 24 d' ∧ Kept r.db d' :=
  numbered_migrations.upgrade Kept.refl (fun _ _ _ => .trans) advances_migrations r.known r.sound

/-! ## Interrupted starts -/

theorem eq_of_store {d d' : Db} (h : store d = .ok d') : d' = d := by
  rw [store] at h
  split_ifs at h
  exact (Except.ok.inj h).symm

theorem resumable_reconcile : reconcileTargetSchema.Resumable where
  ensure := by
    intro d d' h
    obtain rfl := Except.ok.inj h
    rfl
  settled := by
    intro d _ d' _ h
    obtain rfl := eq_of_store h
    exact ⟨rfl, rfl⟩

theorem resumable_provenance : dropPackProvenance.Resumable where
  ensure := fun _ _ _ => rfl
  settled := by
    intro d _ d' _ h
    obtain rfl := eq_of_store h
    exact ⟨rfl, rfl⟩

theorem resumable_channels : widenReleaseChannelVocab.Resumable where
  ensure := by
    intro d d' h
    have h : (if d.releases.isSome then .ok d else .error Failure.absent) = Except.ok d' := h
    split_ifs at h with hsome
    obtain rfl := Except.ok.inj h
    exact if_pos hsome
  settled := by
    intro d e d' he h
    obtain rfl := eq_of_store h
    have he : (if d.releases.isSome then .ok d else .error Failure.absent) = Except.ok e := he
    split_ifs at he with hsome
    have hsettled : newChannels.contains "alpha" = true := by decide
    exact ⟨hsettled, if_pos ((Option.isSome_map ..).trans hsome)⟩

theorem resumable_severities : collapseConflictKinds.Resumable where
  ensure := fun _ _ _ => rfl
  settled := by
    intro d _ d' _ h
    obtain rfl := eq_of_store h
    exact ⟨rfl, rfl⟩

theorem resumable_migrations : ∀ m ∈ migrations, m.2.Resumable := by
  simp only [migrations, List.forall_mem_cons, List.not_mem_nil, false_implies, implies_true,
    and_true, Migration.Resumable, other, true_and]
  exact ⟨resumable_reconcile, resumable_provenance, resumable_channels, resumable_severities⟩

/-- Starts of a registry of any version, each to its end or not: none is refused, every transaction
is committed once and in order, the one that gets through leaves what an uninterrupted one leaves,
and after any of them one more gets through. -/
theorem starts_upgrade (r : Deployed) {s : State Failure Db}
    (h : (system migrations r.db r.version).Reachable s) :
    s.refused = false ∧ s.committed = transactions migrations r.version s.version ∧
      (s.Opened → applyPending r.version r.db = .ok s.data ∧
        pending migrations s.version = []) ∧
      (s.start = none → ∃ s', (system migrations r.db r.version).step s .start = some s' ∧
        (system migrations r.db r.version).Leads (fun a => a = .step) State.Opened s') := by
  obtain ⟨d', hup, -, -⟩ := upgrade_keeps r
  have hordered := numbered_migrations.ordered
  obtain ⟨haccepted, hcommitted, hopened⟩ := resumes hordered resumable_migrations hup h
  refine ⟨haccepted, hcommitted, fun hopen => ?_, leads hordered resumable_migrations hup h⟩
  obtain ⟨hdata, hpending⟩ := hopened hopen
  exact ⟨hdata ▸ hup, hpending⟩

/-- A registry of the third version, one file of which has its target in a column. -/
def oldDb : Db where
  created := true
  mods := [1]
  files := [⟨1, 1, "2.5", "sha_a", some "forge", none⟩]
  targetColumn := true
  targets := none
  releases := none
  channels := []
  relations :=
    [⟨1, 1, none, "lib", none, "requires", none, .jarMeta⟩,
      ⟨2, 1, none, "foe", none, "breaks", none, .authored⟩]
  severityColumn := false
  packs := [⟨"P", some "sc"⟩]
  provenanceColumn := true
  builds := [(1, "P")]

theorem shaped_oldDb : Shaped 3 oldDb where
  fresh := fun h => absurd h (by decide)
  created := rfl
  targets := fun h => absurd h (by decide)
  target := by decide
  releases := rfl
  release := fun _ => by decide
  channels := fun h => absurd h (by decide)
  provenance := fun h => absurd h (by decide)
  artifact := fun _ => by decide
  severityColumn := rfl
  severity := fun _ => by decide

def oldRegistry : Deployed where
  version := 3
  db := oldDb
  known := by decide
  sound := ⟨shaped_oldDb, by decide, by decide⟩

/-- Two starts that end in the midst of the first script, and one that gets through. -/
def interrupted : List Act :=
  [.start, .step, .crash, .start, .step, .step, .crash, .start] ++ List.replicate 32 .step

def opened (s : State Failure Db) : Bool := s.start.any fun t => t.1.isEmpty

theorem opened_iff {s : State Failure Db} : opened s = true ↔ s.Opened := by
  rw [opened, Option.any_eq_true, State.Opened]
  constructor
  · intro h
    obtain ⟨⟨todo, phase⟩, hs, hempty⟩ := h
    obtain rfl := List.isEmpty_iff.1 hempty
    exact ⟨phase, hs⟩
  · intro h
    obtain ⟨phase, hs⟩ := h
    exact ⟨_, hs, rfl⟩

/-- What the interrupted starts leave. -/
def Leaves (s : State Failure Db) : Prop :=
  s.data.targets = some [(1, "forge")] ∧
    s.data.relations.map (fun r => (r.id, r.fromVersionId, r.kind, r.severity)) =
      [(1, some 1, "requires", none), (2, none, "conflicts", some "soft")]

instance : DecidablePred Leaves := fun _ => inferInstanceAs (Decidable (_ ∧ _))

theorem starts_upgrade_interrupted : ∃ s,
    (system migrations oldRegistry.db oldRegistry.version).Reachable s ∧ s.Opened ∧ Leaves s ∧
      s.committed = transactions migrations oldRegistry.version s.version ∧
      applyPending oldRegistry.version oldRegistry.db = .ok s.data := by
  have hrun : ((system migrations oldRegistry.db oldRegistry.version).run
      ⟨oldDb, 3, [], none, false⟩ interrupted).any (fun s => opened s && decide (Leaves s)) =
        true := by
    decide +kernel
  obtain ⟨s, hs, hleaves⟩ := (Option.any_eq_true _ _).1 hrun
  obtain ⟨hopened, hleaves⟩ := Bool.and_eq_true_iff.1 hleaves
  have hreach : (system migrations oldRegistry.db oldRegistry.version).Reachable s :=
    System.Reach.run (.init rfl) hs
  have hsound := starts_upgrade oldRegistry hreach
  have hopened := opened_iff.1 hopened
  exact ⟨s, hreach, hopened, of_decide_eq_true hleaves, hsound.2.1, (hsound.2.2.1 hopened).1⟩

end Migrations

end Smrt
