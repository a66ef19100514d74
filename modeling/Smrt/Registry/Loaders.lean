import Smrt.Registry.Slices

/-!
# What a loader runs

The artifacts that a loader runs are looked for in four places: among those that are eligible for it
(`Catalog.eligibleForLoader`), in a slice (`Catalog.Suits`), in the listing of the mods
(`Catalog.modRows`) and by the loaders that it descends from (`Catalog.loaderChain`). The first one
takes the loader and the targets as they are written, the others put them in lower case.

* `agree_of_plain`: the four agree if loader and targets are in lower case (`Plain`);
* `agree_iff`: they agree over all registries whose targets are among some if and only if these are.
-/

namespace Smrt

namespace Registry

/-- A file that a loader runs, and how close its targets come to the loader. -/
structure EligibleArtifact where
  modId : ℕ
  version : String
  sha1 : String
  specificity : ℕ

namespace Catalog

variable (t : Catalog) (loader : String)

/-- The loaders that a pack on a loader runs the files of. -/
def loaderChain : Finset String := ancestors t.loaderParents loader

/-- How close a target comes to a loader. -/
def specificity (target : String) : ℕ :=
  if target = loader then 0 else if target = "any" then 2 else 1

/-- The targets of a file that are for any loader, or for this one or one that it descends from. -/
def eligibleTargets (v : ℕ × VersionRow) : List String :=
  (t.targets.filter fun target => target.1 = v.1 ∧
    (target.2 = "any" ∨ target.2 ∈ family t.loaderParents loader)).map Prod.snd

/-- The files that a loader runs, those of a mod from the closest on. -/
def eligibleForLoader : List EligibleArtifact :=
  (t.versions.rows.filterMap fun v =>
    ((t.eligibleTargets loader v).map (specificity loader)).min?.map fun s =>
      ⟨v.2.modId, v.2.version, v.2.sha1, s⟩).insertionSort fun e f =>
    toLex (e.modId, e.specificity) ≤ toLex (f.modId, f.specificity)

/-! ## One relation -/

/-- A file is among those that are eligible. -/
def Eligible (v : ℕ × VersionRow) : Prop :=
  ∃ e ∈ t.eligibleForLoader loader, e.sha1 = v.2.sha1

/-- A registry with one of the files only. -/
def onlyFile (id : ℕ) : Catalog :=
  { t with versions := t.versions.filter fun i _ => i = id }

/-- The listing for a loader has a mod because of a file. -/
def Keeps (v : ℕ × VersionRow) : Prop :=
  ∃ r ∈ (t.onlyFile v.1).modRows ⟨none, some loader, none⟩ none none, r.1 = v.2.modId

/-- The four places agree on the files that a loader runs, each of which is eligible once; the
    specificity is zero for those of the loader itself, and two for those for any loader only. -/
structure Agree : Prop where
  sliced : ∀ v ∈ t.versions.rows, t.Eligible loader v ↔ t.Suits none (some loader) v
  kept : ∀ v ∈ t.versions.rows, t.Eligible loader v ↔ t.Keeps loader v
  chained : ∀ v ∈ t.versions.rows, t.Eligible loader v ↔
    ∃ target ∈ t.targets, target.1 = v.1 ∧ (target.2 = "any" ∨ target.2 ∈ t.loaderChain loader)
  listed : ∀ r ∈ t.mods.rows, r ∈ t.modRows ⟨none, some loader, none⟩ none none ↔
    ∃ v ∈ t.versions.rows, v.2.modId = r.1 ∧ t.Eligible loader v
  once : ((t.eligibleForLoader loader).map EligibleArtifact.sha1).Nodup
  own : ∀ v ∈ t.versions.rows, ∀ e ∈ t.eligibleForLoader loader, e.sha1 = v.2.sha1 →
    (e.specificity = 0 ↔ ∃ target ∈ t.targets, target.1 = v.1 ∧ lower target.2 = lower loader)
  forAny : ∀ v ∈ t.versions.rows, ∀ e ∈ t.eligibleForLoader loader, e.sha1 = v.2.sha1 →
    (e.specificity = 2 ↔ ∀ target ∈ t.targets, target.1 = v.1 →
      target.2 = "any" ∨ target.2 ∈ t.loaderChain loader → target.2 = "any")

/-- A loader and targets that are in lower case, except that a loader does not matter if every
    target is for any, and that no file is for any if that is what the loader is called. -/
def Plain (targets : Set String) : Prop :=
  (∀ x ∈ targets, x ≠ "any" → lower x = x ∧ lower loader = loader) ∧
  ("any" ∈ targets → lower loader ≠ "any")

variable {t loader}

theorem mem_eligibleForLoader {e : EligibleArtifact} :
    e ∈ t.eligibleForLoader loader ↔ ∃ v ∈ t.versions.rows,
      ((t.eligibleTargets loader v).map (specificity loader)).min? = some e.specificity ∧
        e.modId = v.2.modId ∧ e.version = v.2.version ∧ e.sha1 = v.2.sha1 := by
  rw [eligibleForLoader, List.mem_insertionSort, List.mem_filterMap]
  refine exists_congr fun v => and_congr_right fun _ => ?_
  rw [Option.map_eq_some_iff]
  constructor
  · rintro ⟨s, hs, rfl⟩
    exact ⟨hs, rfl, rfl, rfl⟩
  · rintro ⟨hs, hmod, hversion, hsha1⟩
    refine ⟨e.specificity, hs, ?_⟩
    rw [← hmod, ← hversion, ← hsha1]

theorem mem_eligibleTargets {v : ℕ × VersionRow} {x : String} :
    x ∈ t.eligibleTargets loader v ↔
      (v.1, x) ∈ t.targets ∧ (x = "any" ∨ x ∈ family t.loaderParents loader) := by
  rw [eligibleTargets, List.mem_map]
  constructor
  · rintro ⟨⟨i, y⟩, hmem, rfl⟩
    obtain ⟨hmem, h⟩ := List.mem_filter.1 hmem
    obtain ⟨rfl, h⟩ := of_decide_eq_true h
    exact ⟨hmem, h⟩
  · rintro ⟨hmem, h⟩
    exact ⟨(v.1, x), List.mem_filter.2 ⟨hmem, decide_eq_true ⟨rfl, h⟩⟩, rfl⟩

section Integrity

variable (ht : t.Integrity) {v : ℕ × VersionRow} (hv : v ∈ t.versions.rows)

include ht hv

/-- What is eligible of a file is read off its own targets. -/
theorem mem_eligible_of_sha1 {e : EligibleArtifact} (he : e ∈ t.eligibleForLoader loader)
    (hsha1 : e.sha1 = v.2.sha1) :
    ((t.eligibleTargets loader v).map (specificity loader)).min? = some e.specificity := by
  obtain ⟨w, hw, hmin, -, -, hw'⟩ := mem_eligibleForLoader.1 he
  rwa [List.inj_on_of_nodup_map ht.versionSha1 hw hv (hw'.symm.trans hsha1)] at hmin

theorem eligible_iff : t.Eligible loader v ↔ ∃ x, x ∈ t.eligibleTargets loader v := by
  constructor
  · rintro ⟨e, he, hsha1⟩
    have hmin := mem_eligible_of_sha1 ht hv he hsha1
    obtain ⟨x, hx, -⟩ := List.mem_map.1 (List.min?_mem hmin)
    exact ⟨x, hx⟩
  · rintro ⟨x, hx⟩
    have hsome : ((t.eligibleTargets loader v).map (specificity loader)).min?.isSome :=
      List.isSome_min?_iff.2 (List.ne_nil_of_mem (List.mem_map_of_mem hx))
    obtain ⟨s, hs⟩ := Option.isSome_iff_exists.1 hsome
    exact ⟨⟨_, _, _, s⟩, mem_eligibleForLoader.2 ⟨v, hv, hs, rfl, rfl, rfl⟩, rfl⟩

theorem keeps_iff : t.Keeps loader v ↔ t.SuitsLoader loader v := by
  constructor
  · rintro ⟨r, hr, -⟩
    obtain ⟨w, hw, -, htarget⟩ := (mem_modRows.1 hr).2.2.1 loader rfl
    obtain ⟨hw, hid⟩ := List.mem_filter.1 hw
    rwa [Table.eq_of_id_eq t.versions.increasing hw hv (of_decide_eq_true hid)] at htarget
  · intro hsuits
    obtain ⟨m, hm⟩ := Option.isSome_iff_exists.1 (ht.versionMod v hv)
    refine ⟨(v.2.modId, m), mem_modRows.2 ⟨Table.get?_eq_some.1 hm, ?_, ?_, ?_⟩, rfl⟩
    · exact fun _ hq => absurd hq (Option.not_mem_none _)
    · rintro l hl
      obtain rfl := Option.some.inj hl
      exact ⟨v, List.mem_filter.2 ⟨hv, decide_eq_true rfl⟩, rfl, hsuits⟩
    · exact fun _ hmc => absurd hmc (Option.not_mem_none _)

end Integrity

theorem suits_iff {v : ℕ × VersionRow} :
    t.Suits none (some loader) v ↔ t.SuitsLoader loader v := by
  simp [Suits]

theorem mem_modRows_iff {r : ℕ × ModRow} :
    r ∈ t.modRows ⟨none, some loader, none⟩ none none ↔
      r ∈ t.mods.rows ∧ ∃ v ∈ t.versions.rows, v.2.modId = r.1 ∧ t.SuitsLoader loader v := by
  rw [mem_modRows]
  simp [Lists, SuitsLoader]

theorem nodup_eligibleForLoader (ht : t.Integrity) :
    ((t.eligibleForLoader loader).map EligibleArtifact.sha1).Nodup := by
  rw [eligibleForLoader, ((List.perm_insertionSort _ _).map _).nodup_iff, List.Nodup,
    List.pairwise_map, List.pairwise_filterMap]
  refine (List.pairwise_map.1 ht.versionSha1).imp fun {v w} hne e he f hf => ?_
  obtain ⟨_, -, rfl⟩ := Option.map_eq_some_iff.1 he
  obtain ⟨_, -, rfl⟩ := Option.map_eq_some_iff.1 hf
  exact hne

theorem specificity_eq_zero {x : String} : specificity loader x = 0 ↔ x = loader := by
  rw [specificity]
  split_ifs with h <;> simp [h]

theorem specificity_eq_two {x : String} :
    specificity loader x = 2 ↔ x ≠ loader ∧ x = "any" := by
  rw [specificity]
  split_ifs with h h'
  · exact iff_of_false (by decide) fun hx => hx.1 h
  · exact iff_of_true rfl ⟨h, h'⟩
  · exact iff_of_false (by decide) fun hx => h' hx.2

theorem specificity_le_two {x : String} : specificity loader x ≤ 2 := by
  rw [specificity]
  split_ifs <;> omega

theorem exists_eligibleTargets {v : ℕ × VersionRow} :
    (∃ x, x ∈ t.eligibleTargets loader v) ↔ ∃ target ∈ t.targets, target.1 = v.1 ∧
      (target.2 = "any" ∨ target.2 ∈ family t.loaderParents loader) := by
  constructor
  · rintro ⟨x, hx⟩
    obtain ⟨hmem, h⟩ := mem_eligibleTargets.1 hx
    exact ⟨(v.1, x), hmem, rfl, h⟩
  · rintro ⟨⟨i, x⟩, hmem, rfl, h⟩
    exact ⟨x, mem_eligibleTargets.2 ⟨hmem, h⟩⟩

theorem lower_any : lower "any" = "any" := by decide

section Plain

variable {targets : Set String} (hplain : Plain loader targets)
  (htargets : ∀ target ∈ t.targets, target.2 ∈ targets)

include hplain htargets

/-- A target in lower case suits a loader as the two are written if it does in any case. -/
theorem mem_family_iff {target : ℕ × String} (h : target ∈ t.targets) :
    target.2 = "any" ∨ target.2 ∈ family t.loaderParents loader ↔
      target.2 = "any" ∨ target.2 ∈ t.loaderChain loader := by
  by_cases hany : target.2 = "any"
  · rw [or_iff_left_of_imp fun _ => hany, or_iff_left_of_imp fun _ => hany]
  · rw [loaderChain, ancestors_eq, (hplain.1 _ (htargets _ h) hany).2]

theorem lower_mem_iff {target : ℕ × String} (h : target ∈ t.targets) :
    target.2 = "any" ∨ lower target.2 ∈ ancestors t.loaderParents loader ↔
      target.2 = "any" ∨ target.2 ∈ t.loaderChain loader := by
  by_cases hany : target.2 = "any"
  · rw [or_iff_left_of_imp fun _ => hany, or_iff_left_of_imp fun _ => hany]
  · rw [loaderChain, (hplain.1 _ (htargets _ h) hany).1]

theorem eligible_iff_chained (ht : t.Integrity) {v : ℕ × VersionRow} (hv : v ∈ t.versions.rows) :
    t.Eligible loader v ↔ ∃ target ∈ t.targets, target.1 = v.1 ∧
      (target.2 = "any" ∨ target.2 ∈ t.loaderChain loader) := by
  rw [eligible_iff ht hv, exists_eligibleTargets]
  exact exists_congr fun target => and_congr_right fun h =>
    and_congr_right fun _ => mem_family_iff hplain htargets h

theorem eligible_iff_suitsLoader (ht : t.Integrity) {v : ℕ × VersionRow}
    (hv : v ∈ t.versions.rows) : t.Eligible loader v ↔ t.SuitsLoader loader v := by
  rw [eligible_iff_chained hplain htargets ht hv]
  exact exists_congr fun target => and_congr_right fun h =>
    and_congr_right fun _ => (lower_mem_iff hplain htargets h).symm

/-- What is as close as can be is for the loader itself. -/
theorem min?_eq_zero {v : ℕ × VersionRow} {s : ℕ}
    (hs : ((t.eligibleTargets loader v).map (specificity loader)).min? = some s) :
    s = 0 ↔ ∃ target ∈ t.targets, target.1 = v.1 ∧ lower target.2 = lower loader := by
  obtain ⟨hmem, hle⟩ := List.min?_eq_some_iff.1 hs
  constructor
  · rintro rfl
    obtain ⟨x, hx, hzero⟩ := List.mem_map.1 hmem
    exact ⟨(v.1, x), (mem_eligibleTargets.1 hx).1, rfl, by rw [specificity_eq_zero.1 hzero]⟩
  · rintro ⟨⟨i, x⟩, htarget, rfl, hx⟩
    have hany : x ≠ "any" := by
      rintro rfl
      exact hplain.2 (htargets _ htarget) (hx.symm.trans lower_any)
    obtain ⟨hlower, hloader⟩ := hplain.1 x (htargets _ htarget) hany
    rw [hlower, hloader] at hx
    have hclose : x ∈ t.eligibleTargets loader v :=
      mem_eligibleTargets.2 ⟨htarget, .inr (hx ▸ mem_family.2 .refl)⟩
    have hle' := hle _ (List.mem_map_of_mem hclose)
    rw [specificity_eq_zero.2 hx] at hle'
    exact Nat.le_zero.1 hle'

/-- What is as far as can be is for any loader only. -/
theorem min?_eq_two {v : ℕ × VersionRow} {s : ℕ}
    (hs : ((t.eligibleTargets loader v).map (specificity loader)).min? = some s) :
    s = 2 ↔ ∀ target ∈ t.targets, target.1 = v.1 →
      target.2 = "any" ∨ target.2 ∈ t.loaderChain loader → target.2 = "any" := by
  obtain ⟨hmem, hle⟩ := List.min?_eq_some_iff.1 hs
  constructor
  · rintro rfl ⟨i, x⟩ htarget rfl hsuits
    have hx : x ∈ t.eligibleTargets loader v :=
      mem_eligibleTargets.2 ⟨htarget, (mem_family_iff hplain htargets htarget).2 hsuits⟩
    have htwo := specificity_le_two.antisymm (hle _ (List.mem_map_of_mem hx))
    exact (specificity_eq_two.1 htwo).2
  · intro hall
    obtain ⟨x, hx, rfl⟩ := List.mem_map.1 hmem
    obtain ⟨htarget, hsuits⟩ := mem_eligibleTargets.1 hx
    obtain rfl := hall _ htarget rfl ((mem_family_iff hplain htargets htarget).1 hsuits)
    refine specificity_eq_two.2 ⟨?_, rfl⟩
    rintro rfl
    exact hplain.2 (htargets _ htarget) lower_any

/-- The four places agree on a loader and targets in lower case. -/
theorem agree_of_plain (ht : t.Integrity) : t.Agree loader where
  sliced v hv := by rw [suits_iff, eligible_iff_suitsLoader hplain htargets ht hv]
  kept v hv := by rw [keeps_iff ht hv, eligible_iff_suitsLoader hplain htargets ht hv]
  chained v hv := eligible_iff_chained hplain htargets ht hv
  listed r hr := by
    rw [mem_modRows_iff, and_iff_right hr]
    exact exists_congr fun v => and_congr_right fun hv =>
      and_congr_right fun _ => (eligible_iff_suitsLoader hplain htargets ht hv).symm
  once := nodup_eligibleForLoader ht
  own v hv e he hsha1 := min?_eq_zero hplain htargets (mem_eligible_of_sha1 ht hv he hsha1)
  forAny v hv e he hsha1 := min?_eq_two hplain htargets (mem_eligible_of_sha1 ht hv he hsha1)

end Plain

/-! ## Other loaders and targets -/

/-- A row alone is in the order of the keys. -/
theorem pairwise_oneMod : [(1, (⟨some "jei", none, .modrinth⟩ : ModRow))].Pairwise fun x y =>
    x.1 < y.1 := List.pairwise_singleton _ _

/-- Tables with one file, for no loader. -/
def oneFile : Tables := { Tables.empty with
  mods := ⟨[(1, ⟨some "jei", none, .modrinth⟩)], pairwise_oneMod⟩
  versions := ⟨[(1, ⟨1, "1.0", "a", none, [], none, .modrinth⟩)], by decide⟩ }

theorem oneFile_integrity : oneFile.Integrity := by decide

/-- A registry with one file for one loader. -/
def forLoader (parents : List (String × String)) (target : String) : Catalog where
  toTables := { oneFile with targets := [(1, target)] }
  loaderParents := parents

section ForLoader

variable {parents : List (String × String)} {x : String}

theorem forLoader_integrity : (forLoader parents x).Integrity := by
  refine { oneFile_integrity with targetVersion := fun p hp => ?_ }
  rw [List.mem_singleton.1 hp]
  exact rfl

/-- Where the four places agree, the case of letters does not matter. -/
theorem Agree.of_forLoader (h : (forLoader parents x).Agree loader) (hx : x ≠ "any") :
    (x ∈ family parents loader ↔ lower x ∈ ancestors parents loader) ∧
      (x ∈ ancestors parents loader ↔ lower x ∈ ancestors parents loader) := by
  have hv : (1, ⟨1, "1.0", "a", none, [], none, .modrinth⟩) ∈ (forLoader parents x).versions.rows :=
    List.mem_singleton_self _
  have hsliced := h.sliced _ hv
  have hchained := h.chained _ hv
  rw [suits_iff, SuitsLoader] at hsliced
  rw [hsliced] at hchained
  rw [eligible_iff forLoader_integrity hv, exists_eligibleTargets] at hsliced
  simpa [forLoader, hx, loaderChain] using And.intro hsliced hchained.symm

theorem mem_family_nil {l : String} : l ∈ family [] x ↔ l = x := by
  rw [mem_family, Relation.reflTransGen_iff_eq fun _ h => absurd h List.not_mem_nil]

theorem mem_family_singleton {a l : String} :
    l ∈ family [(loader, a)] x ↔ l = x ∨ x = loader ∧ l = a := by
  rw [mem_family]
  constructor
  · intro h
    induction h with
    | refl => exact .inl rfl
    | tail _ hstep ih =>
      obtain ⟨rfl, rfl⟩ := Prod.mk.inj (List.mem_singleton.1 hstep)
      exact .inr ⟨ih.elim Eq.symm And.left, rfl⟩
  · rintro (rfl | ⟨rfl, rfl⟩)
    · exact .refl
    · exact .single (List.mem_singleton_self _)

/-- A target or a loader that is not in lower case is not found in all four places. -/
theorem lower_of_agree (h : ∀ parents, (forLoader parents x).Agree loader) (hx : x ≠ "any") :
    lower x = x ∧ lower loader = loader := by
  have hnone := (h []).of_forLoader hx
  have hone := (h [(lower loader, x)]).of_forLoader hx
  simp only [ancestors_eq, mem_family_nil, mem_family_singleton, true_and] at hnone hone
  have hlower : lower x = x := by
    by_contra hne
    have hparent := (hone.2.1 (.inr trivial)).resolve_right hne
    exact hne (hparent.trans (hnone.2.2 hparent).symm)
  rw [hlower] at hnone hone
  refine ⟨hlower, ?_⟩
  rcases hone.1.2 (.inr rfl) with rfl | ⟨heq, -⟩
  · exact hlower
  · exact heq.symm

end ForLoader

theorem not_agree_forge :
    (forLoader [] "forge").Integrity ∧ ¬ (forLoader [] "forge").Agree "Forge" := by
  refine ⟨forLoader_integrity, fun h => ?_⟩
  have hnone := (h.of_forLoader (by decide)).1
  rw [ancestors_eq, mem_family_nil, mem_family_nil] at hnone
  exact absurd (hnone.2 (by decide)) (by decide)

/-- The four places agree over all registries with certain targets if and only if these and the
    loader are in lower case. -/
theorem agree_iff {targets : Set String} :
    (∀ t : Catalog, t.Integrity → (∀ target ∈ t.targets, target.2 ∈ targets) → t.Agree loader) ↔
      Plain loader targets := by
  constructor
  · intro h
    have hfor : ∀ x ∈ targets, ∀ parents, (forLoader parents x).Agree loader := by
      intro x hx parents
      refine h _ forLoader_integrity fun target htarget => ?_
      rw [List.mem_singleton.1 htarget]
      exact hx
    refine ⟨fun x hx hany => lower_of_agree (hfor x hx) hany, fun hany hlower => ?_⟩
    -- What is for any loader is also for the one that is called so.
    have hagree := hfor "any" hany []
    have hv : (1, ⟨1, "1.0", "a", none, [], none, .modrinth⟩) ∈
        (forLoader [] "any").versions.rows := List.mem_singleton_self _
    have htarget : (1, "any") ∈ (forLoader [] "any").targets := List.mem_singleton_self _
    obtain ⟨e, he, hsha1⟩ := (hagree.chained _ hv).2 ⟨_, htarget, rfl, .inl rfl⟩
    have hzero : e.specificity = 0 :=
      (hagree.own _ hv e he hsha1).2 ⟨_, htarget, rfl, lower_any.trans hlower.symm⟩
    have htwo : e.specificity = 2 := (hagree.forAny _ hv e he hsha1).2 fun target h _ _ => by
      rw [List.mem_singleton.1 h]
    rw [hzero] at htwo
    cases htwo
  · exact fun hplain t ht htargets => agree_of_plain hplain htargets ht

end Catalog

end Registry

end Smrt
