import Smrt.Lib.Tournament
import Smrt.Registry.Browse
import Smrt.Registry.Semver

/-!
# Slices of the registry

In a slice, a version of the game and a loader, a mod is shown by one of its files that suit it
(`Catalog.sliceArtifacts`): by the one of the best channel, and among these by the greatest version,
or by the newest file where one of two versions cannot be read. The files are gone through once, in
the order in which they were harvested, and the best one so far is kept.

* `sliceArtifacts_isSome`: a mod is shown if one of its files suits;
* `showsNewest_iff`: when no file that suits is plainly newer than the one that is shown.
-/

namespace Smrt

namespace Registry

/-- Which channel is preferred. -/
def channelRank : Channel → ℕ
  | .release => 3
  | .beta => 2
  | .alpha => 1
  | .unknown => 0

namespace Catalog

variable (t : Catalog) (mc loader : Option String) (modId : ℕ)

/-- Whether a file is for any loader, or for this one or one that it descends from. -/
def SuitsLoader (loader : String) (v : ℕ × VersionRow) : Prop :=
  ∃ target ∈ t.targets, target.1 = v.1 ∧
    (target.2 = "any" ∨ lower target.2 ∈ ancestors t.loaderParents loader)

/-- Whether a file is in a slice; what is not given does not narrow it. -/
def Suits (v : ℕ × VersionRow) : Prop :=
  (∀ l ∈ loader, t.SuitsLoader l v) ∧
  ∀ m ∈ mc, ∃ cell ∈ mcCell v.2.mcVersions,
    like ('%' :: '"' :: likeEscape m ++ ['"', '%']) cell

instance {l : String} : DecidablePred (t.SuitsLoader l) := fun _ =>
  inferInstanceAs (Decidable (∃ _ ∈ _, _))

instance : DecidablePred (t.Suits mc loader) := fun _ => inferInstanceAs (Decidable (_ ∧ _))

/-- The rank of the channel that a file was released in. -/
def rank (v : ℕ × VersionRow) : ℕ :=
  channelRank (((v.2.releaseId.bind t.releases.get?).map ReleaseRow.channel).getD .unknown)

/-- Whether a file is shown instead of the one that was the best so far. -/
def wins (v cur : ℕ × VersionRow) : Bool :=
  match compare (t.rank v) (t.rank cur) with
  | .gt => true
  | .lt => false
  | .eq =>
    match Semver.cmp v.2.version cur.2.version with
    | some .gt => true
    | some _ => false
    -- Where one of the two cannot be read, the newer file is shown.
    | none => cur.1 < v.1

def sliceKey (v : ℕ × VersionRow) : ℕ ×ₗ ℕ := toLex (v.2.modId, v.1)

/-- The files of a slice, by their mods. -/
def sliceRows : List (ℕ × VersionRow) :=
  (t.versions.rows.filter fun v => t.Suits mc loader v).insertionSort fun v w =>
    sliceKey v ≤ sliceKey w

/-- The file that is shown of a mod in a slice. -/
def sliceArtifacts : Option ℕ :=
  ((t.sliceRows mc loader).foldl (fun best v =>
    match best v.2.modId with
    | none => Function.update best v.2.modId (some v)
    | some cur =>
      if t.wins v cur then Function.update best v.2.modId (some v) else best)
    (fun _ => none) modId).map Prod.fst

/-! ## What is shown -/

/-- The files of a mod that suit. -/
def suiting : List (ℕ × VersionRow) :=
  t.versions.rows.filter fun v => t.Suits mc loader v ∧ v.2.modId = modId

/-- File `w` is plainly newer than `v`. -/
def Newer (w v : ℕ × VersionRow) : Prop :=
  t.rank v < t.rank w ∨
    t.rank w = t.rank v ∧ Semver.cmp w.2.version v.2.version = some .gt

instance {w v : ℕ × VersionRow} : Decidable (t.Newer w v) := inferInstanceAs (Decidable (_ ∨ _))

/-- A mod is shown if one of its files suits, and by one of them that none is plainly newer than. -/
def ShowsNewest : Prop :=
  ((t.sliceArtifacts mc loader modId).isSome ↔ ∃ v, v ∈ t.suiting mc loader modId) ∧
  ∀ id ∈ t.sliceArtifacts mc loader modId, ∃ v ∈ t.suiting mc loader modId, v.1 = id ∧
    ∀ w ∈ t.suiting mc loader modId, ¬ t.Newer w v

/-- A file of a mod that suits, of the best channel. -/
def Best (v : ℕ × VersionRow) : Prop :=
  v ∈ t.suiting mc loader modId ∧ ∀ w ∈ t.suiting mc loader modId, t.rank w ≤ t.rank v

/-- A file of the best channel whose version can be read, harvested after those whose version
    cannot. -/
def ReadLater (v : ℕ × VersionRow) : Prop :=
  t.Best mc loader modId v ∧ (Semver.parse v.2.version).isSome ∧
    ∀ u, t.Best mc loader modId u → Semver.parse u.2.version = none → u.1 < v.1

/-- If there are files of the best channel that can be read and were harvested after those that
    cannot, then no file of the channel is plainly newer than each of them. -/
def ReadLast : Prop :=
  (∃ v, t.ReadLater mc loader modId v) →
    ∀ w, t.Best mc loader modId w → ∃ v, t.ReadLater mc loader modId v ∧
      Semver.cmp w.2.version v.2.version ≠ some .gt

/-- The version of a file, if it can be read. -/
def reading (v : ℕ × VersionRow) : Option Semver.Places :=
  (Semver.parse v.2.version).map Semver.placeValues

/-- What files are compared by. -/
def contest : Contest (ℕ × VersionRow) ℕ Semver.Places := ⟨Prod.fst, t.rank, reading⟩

variable {t mc loader modId}

theorem contest_place : t.contest.place = Prod.fst := rfl

theorem contest_rank : t.contest.rank = t.rank := rfl

theorem contest_reading : t.contest.reading = reading := by rw [contest]

theorem cmp_eq_gt {v w : ℕ × VersionRow} :
    Semver.cmp w.2.version v.2.version = some .gt ↔
      ∃ i ∈ reading w, ∃ k ∈ reading v, k < i := by
  rw [Semver.cmp, reading, reading]
  cases hw : Semver.parse w.2.version with
  | none => simp
  | some a =>
    cases hv : Semver.parse v.2.version with
    | none => simp
    | some b => simp [Semver.compareNumbers_eq_gt]

theorem cmp_ne_gt {v w : ℕ × VersionRow} :
    Semver.cmp w.2.version v.2.version ≠ some .gt ↔
      ∀ i ∈ reading w, ∀ k ∈ reading v, i ≤ k := by
  rw [Ne, cmp_eq_gt]
  simp only [not_exists, not_and, not_lt]

theorem cmp_eq_none {v w : ℕ × VersionRow} :
    Semver.cmp w.2.version v.2.version = none ↔ reading w = none ∨ reading v = none := by
  rw [Semver.cmp, reading, reading]
  cases hw : Semver.parse w.2.version with
  | none => simp
  | some a => cases hv : Semver.parse v.2.version <;> simp

theorem wins_eq_true {v cur : ℕ × VersionRow} :
    t.wins v cur ↔ t.rank cur < t.rank v ∨ t.rank v = t.rank cur ∧
      (Semver.cmp v.2.version cur.2.version = some .gt ∨
        Semver.cmp v.2.version cur.2.version = none ∧ cur.1 < v.1) := by
  rcases lt_trichotomy (t.rank v) (t.rank cur) with h | h | h
  · rw [wins, compare_lt_iff_lt.2 h]
    refine iff_of_false Bool.false_ne_true ?_
    rintro (hlt | ⟨heq, -⟩)
    · exact hlt.not_gt h
    · exact h.ne heq
  · rw [wins, compare_eq_iff_eq.2 h, and_iff_right h, or_iff_right h.not_gt]
    cases Semver.cmp v.2.version cur.2.version with
    | none => simp
    | some ord => cases ord <;> simp
  · rw [wins, compare_gt_iff_gt.2 h]
    exact iff_of_true rfl (.inl h)

theorem wins_iff (v cur : ℕ × VersionRow) : t.wins v cur ↔ t.contest.Beats v cur := by
  rw [wins_eq_true, cmp_eq_gt, cmp_eq_none, Contest.Beats, contest_place, contest_rank,
    contest_reading]

theorem mem_suiting {v : ℕ × VersionRow} :
    v ∈ t.suiting mc loader modId ↔
      v ∈ t.versions.rows ∧ t.Suits mc loader v ∧ v.2.modId = modId := by
  rw [suiting, List.mem_filter, decide_eq_true_iff]

/-- The files of one mod, in the order in which they are gone through, are in that of their ids. -/
theorem filter_sliceRows :
    (t.sliceRows mc loader).filter (fun v => v.2.modId = modId) = t.suiting mc loader modId := by
  have hkey : ∀ v ∈ t.versions.rows, ∀ w ∈ t.versions.rows, sliceKey v = sliceKey w → v = w :=
    fun v hv w hw h => Table.eq_of_id_eq t.versions.increasing hv hw
      (congrArg (fun k => (ofLex k).2) h)
  rw [sliceRows, ← Pages.insertionSort_filter (t.versions.nodup_rows.filter _) fun v hv w hw =>
    hkey v (List.mem_of_mem_filter hv) w (List.mem_of_mem_filter hw), List.filter_filter]
  have hfilter : t.versions.rows.filter (fun v => decide (v.2.modId = modId) &&
      decide (t.Suits mc loader v)) = t.suiting mc loader modId :=
    List.filter_congr fun v _ => by rw [← Bool.decide_and, decide_eq_decide, and_comm]
  rw [hfilter]
  refine List.Pairwise.insertionSort_eq ?_
  refine (t.versions.increasing.filter _).imp_of_mem fun {v w} hv hw hlt => ?_
  rw [sliceKey, (mem_suiting.1 hv).2.2, sliceKey, (mem_suiting.1 hw).2.2, Prod.Lex.toLex_le_toLex]
  exact .inr ⟨rfl, hlt.le⟩

theorem sliceArtifacts_eq :
    t.sliceArtifacts mc loader modId =
      (champion t.wins (t.suiting mc loader modId)).map Prod.fst := by
  have hstep : (fun (best : ℕ → Option (ℕ × VersionRow)) (v : ℕ × VersionRow) =>
      match best v.2.modId with
      | none => Function.update best v.2.modId (some v)
      | some cur =>
        if t.wins v cur then Function.update best v.2.modId (some v) else best) =
      fun (best : ℕ → Option (ℕ × VersionRow)) (v : ℕ × VersionRow) =>
        Function.update best v.2.modId (keepBest t.wins (best v.2.modId) v) := by
    funext best v
    cases h : best v.2.modId with
    | none => rfl
    | some cur =>
      by_cases hwins : t.wins v cur
      · simp only [keepBest, if_pos hwins]
      · simp only [keepBest, if_neg hwins]
        rw [← h, Function.update_eq_self]
  rw [sliceArtifacts, hstep, champion, ← filter_sliceRows, foldl_update_apply]

/-- A mod is shown if one of its files suits. -/
theorem sliceArtifacts_isSome :
    (t.sliceArtifacts mc loader modId).isSome ↔ ∃ v, v ∈ t.suiting mc loader modId := by
  rw [sliceArtifacts_eq, Option.isSome_map, champion_isSome]

theorem not_newer_iff {v w : ℕ × VersionRow} :
    ¬ t.Newer w v ↔ t.rank w ≤ t.rank v ∧ (t.rank w = t.rank v →
      ∀ i ∈ reading w, ∀ k ∈ reading v, i ≤ k) := by
  rw [Newer, not_or, not_lt, not_and, ← cmp_ne_gt]

theorem unbeaten_iff {v : ℕ × VersionRow} {l : List (ℕ × VersionRow)} :
    t.contest.Unbeaten l v ↔ ∀ w ∈ l, ¬ t.Newer w v := by
  rw [Contest.Unbeaten, contest_rank, contest_reading]
  exact forall₂_congr fun _ _ => not_newer_iff.symm

/-- None is plainly newer than what is shown if and only if the files that suit are settled. -/
theorem showsNewest_iff_settled :
    t.ShowsNewest mc loader modId ↔ t.contest.Settled (t.suiting mc loader modId) := by
  have hincr : (t.suiting mc loader modId).Pairwise fun v w => v.1 < w.1 :=
    t.versions.increasing.filter _
  rw [ShowsNewest, and_iff_right sliceArtifacts_isSome, sliceArtifacts_eq]
  cases hb : champion t.wins (t.suiting mc loader modId) with
  | none =>
    refine iff_of_true (fun _ h => absurd h (Option.not_mem_none _)) fun v hv => ?_
    have hsome : (champion t.wins (t.suiting mc loader modId)).isSome := champion_isSome.2 ⟨v, hv⟩
    rw [hb] at hsome
    cases hsome
  | some b =>
    have hleads := Contest.champion_leads (c := t.contest) wins_iff hincr hb
    rw [← hleads.unbeaten_iff, unbeaten_iff]
    constructor
    · intro h
      obtain ⟨v, hv, hid, hnewest⟩ := h b.1 rfl
      have hvb := Table.eq_of_id_eq t.versions.increasing (mem_suiting.1 hv).1
        (mem_suiting.1 hleads.mem).1 hid
      rwa [hvb] at hnewest
    · rintro h id hid
      exact ⟨b, hleads.mem, Option.some.inj hid, h⟩

/-- The files of the best channel are those of the rank of one of them. -/
theorem Best.best_iff {v w : ℕ × VersionRow} (h : t.Best mc loader modId v) :
    t.Best mc loader modId w ↔ w ∈ t.suiting mc loader modId ∧ t.rank w = t.rank v := by
  constructor
  · exact fun hw => ⟨hw.1, (h.2 w hw.1).antisymm (hw.2 v h.1)⟩
  · rintro ⟨hw, hrank⟩
    exact ⟨hw, fun u hu => hrank ▸ h.2 u hu⟩

theorem Best.readLater_iff {v : ℕ × VersionRow} (h : t.Best mc loader modId v) :
    t.ReadLater mc loader modId v ↔
      (reading v).isSome ∧ t.contest.Fresh (t.suiting mc loader modId) v := by
  rw [ReadLater, and_iff_right h, reading, Option.isSome_map, Contest.Fresh, contest_rank,
    contest_reading, contest_place]
  refine and_congr_right fun _ => forall_congr' fun u => ?_
  rw [h.best_iff, and_imp, reading, Option.map_eq_none_iff]

/-- None is plainly newer than what is shown if and only if the greatest version of the best channel
    was not harvested before one that cannot be read. -/
theorem showsNewest_iff :
    t.ShowsNewest mc loader modId ↔ t.ReadLast mc loader modId := by
  rw [showsNewest_iff_settled, Contest.Settled, contest_rank, contest_reading]
  constructor
  · rintro h ⟨v, hv⟩ w hw
    obtain ⟨hread, hfresh⟩ := hv.1.readLater_iff.1 hv
    cases hw' : reading w with
    | none => exact ⟨v, hv, cmp_ne_gt.2 fun i hi => by rw [hw'] at hi; cases hi⟩
    | some i =>
      obtain ⟨hws, hrank⟩ := hv.1.best_iff.1 hw
      obtain ⟨z, hz, hzrank, hzfresh, k, hk, hik⟩ :=
        h v hv.1.1 hv.1.2 hread hfresh w hws hrank i hw'
      have hbest := hv.1.best_iff.2 ⟨hz, hzrank⟩
      refine ⟨z, hbest.readLater_iff.2 ⟨Option.isSome_of_mem hk, hzfresh⟩, cmp_ne_gt.2 ?_⟩
      intro i' hi' k' hk'
      rwa [Option.mem_unique hi' hw', Option.mem_unique hk' hk]
  · intro h x hx htop hread hfresh y hy hrank i hi
    have hbest : t.Best mc loader modId x := ⟨hx, htop⟩
    obtain ⟨z, hz, hcmp⟩ :=
      h ⟨x, hbest.readLater_iff.2 ⟨hread, hfresh⟩⟩ y (hbest.best_iff.2 ⟨hy, hrank⟩)
    obtain ⟨hzs, hzrank⟩ := hbest.best_iff.1 hz.1
    obtain ⟨hzread, hzfresh⟩ := hz.1.readLater_iff.1 hz
    obtain ⟨k, hk⟩ := Option.isSome_iff_exists.1 hzread
    exact ⟨z, hzs, hzrank, hzfresh, k, hk, cmp_ne_gt.1 hcmp i hi k hk⟩

/-- Three releases of a mod, of which the version of the second cannot be read. -/
def greatestFirst : Catalog where
  toTables := { Tables.empty with
    mods := ⟨[(1, ⟨some "jei", none, .modrinth⟩)], by decide⟩
    versions := ⟨[(1, ⟨1, "2.0", "a", none, [], none, .modrinth⟩),
      (2, ⟨1, "rv6", "b", none, [], none, .modrinth⟩),
      (3, ⟨1, "1.0", "c", none, [], none, .modrinth⟩)], by decide⟩ }
  loaderParents := []

theorem not_showsNewest_greatestFirst :
    greatestFirst.Integrity ∧ ¬ greatestFirst.ShowsNewest none none 1 := by
  refine ⟨by decide, fun h => ?_⟩
  have hshown : greatestFirst.sliceArtifacts none none 1 = some 3 := by decide +kernel
  obtain ⟨v, hv, hid, hnewest⟩ := h.2 3 hshown
  have hnewer : (greatestFirst.versions.rows.all fun v => v.1 ≠ 3 ∨
      greatestFirst.Newer (1, ⟨1, "2.0", "a", none, [], none, .modrinth⟩) v) = true := by
    decide +kernel
  have hv' := of_decide_eq_true (List.all_eq_true.1 hnewer v (mem_suiting.1 hv).1)
  refine hnewest _ (mem_suiting.2 ⟨List.mem_cons_self, ⟨?_, ?_⟩, rfl⟩)
    (hv'.resolve_left (not_not_intro hid))
  · exact fun _ hl => absurd hl (Option.not_mem_none _)
  · exact fun _ hm => absurd hm (Option.not_mem_none _)

end Catalog

end Registry

end Smrt
