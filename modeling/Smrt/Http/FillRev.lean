import Smrt.Http.SecondSave

/-!
# What a fill does to the revision

The revision of a config does not look at what the server manages, so that a fill should not be an
edit. It leaves out the rows that the fill pulls and drops. But of a declared row it looks at
everything, and this includes the requirements, which the fill overwrites.

* `projected_fillDependencies`: what the revision sees of a fill are the requirements of the
  declared rows, if the fill gets that far;
* `editRev_fillDependencies_iff`: so the revision stays if and only if these record already what the
  plan says.
-/

namespace Smrt

/-- The plan that the requirements are overwritten from, if the fill gets that far. -/
def finalPlan (answers : ℕ → Answers) (cfg : PackConfig) : Option DepFillPlan :=
  let s := fillPasses answers maxPasses 0 cfg
  if s.2 then fillPlan (answers maxPasses) s.1 else none

/-- The requirements that a row has: none without a display block. -/
def recordedRequires (m : DeclaredMod) : List Requirement :=
  m.display.elim [] fun d => d.requires

/-- Every declared row has the requirements that the plan gives it. -/
def Recorded (answers : ℕ → Answers) (cfg : PackConfig) : Prop :=
  ∀ plan, finalPlan answers cfg = some plan → ∀ m ∈ cfg.mods, m.pulled = false →
    recordedRequires m = (depsFrom plan.requires m.filename).map requirementOf

section Rows

variable {answers : ℕ → Answers} {cfg : PackConfig}

/-- Overwriting requirements changes nothing if and only if they are there. -/
theorem requiring_eq_self_iff {m : DeclaredMod} {deps : List String} :
    requiring m deps = m ↔ recordedRequires m = deps.map requirementOf := by
  rw [requiring, recordedRequires]
  by_cases hdeps : deps = []
  · rw [if_pos hdeps, hdeps]
    rcases m with ⟨filename, enabled, source, _ | d, slug, pulled⟩
    · simp
    · simp only [Option.map_some, Option.elim_some, List.map_nil, DeclaredMod.mk.injEq,
        Option.some.injEq, true_and, and_true]
      exact ⟨fun h => (congrArg Display.requires h).symm, fun h => by rw [← h]⟩
  · rw [if_neg hdeps]
    rcases m with ⟨filename, enabled, source, _ | d, slug, pulled⟩
    · simpa using fun h : [] = deps => hdeps h.symm
    · simp only [Option.getD_some, Option.elim_some, DeclaredMod.mk.injEq, Option.some.injEq,
        true_and, and_true]
      exact ⟨fun h => (congrArg Display.requires h).symm, fun h => by rw [← h]⟩

/-- The passes keep what is declared: they append pulled rows at most. -/
theorem projected_fillPasses :
    (fillPasses answers maxPasses 0 cfg).1.projected = cfg.projected := by
  refine fillPasses_induction (P := fun c => c.projected = cfg.projected) answers ?_ _ _ rfl
  intro c d hc hd _
  have hrow : [d].filter (fun m => !m.pulled) = [] := by simp [hd.pulled]
  rw [← hc, PackConfig.projected, PackConfig.projected, List.filter_append, hrow, List.append_nil]

theorem projected_pruneOrphanedPulled : (pruneOrphanedPulled cfg).projected = cfg.projected := by
  rw [PackConfig.projected, PackConfig.projected, pruneOrphanedPulled, List.filter_filter]
  congr 1
  refine List.filter_congr fun m _ => ?_
  cases m.pulled <;> simp

theorem projected_applyRequires {requires : List (String × String)} :
    (applyRequires cfg requires).projected = applyRequires cfg.projected requires := by
  have hrows : (cfg.mods.map fun m => requiring m (depsFrom requires m.filename)).filter
      (fun m => !m.pulled) = (cfg.mods.filter fun m => !m.pulled).map
        fun m => requiring m (depsFrom requires m.filename) := by
    simp only [List.filter_map, Function.comp_def, pulled_requiring]
  rw [applyRequires, PackConfig.projected, hrows]
  rfl

/-- What the revision sees of a fill. -/
theorem projected_fillDependencies : (fillDependencies answers cfg).1.projected =
    (finalPlan answers cfg).elim cfg.projected
      fun plan => applyRequires cfg.projected plan.requires := by
  have hpasses : (fillPasses answers maxPasses 0 cfg).1.projected = cfg.projected :=
    projected_fillPasses
  rw [fillDependencies, finalPlan]
  by_cases hok : (fillPasses answers maxPasses 0 cfg).2
  · simp only [if_pos hok]
    rcases fillPlan (answers maxPasses) (fillPasses answers maxPasses 0 cfg).1 with _ | plan
    · exact hpasses
    · calc (pruneOrphanedPulled (applyRequires (fillPasses answers maxPasses 0 cfg).1
            plan.requires)).projected =
          applyRequires (fillPasses answers maxPasses 0 cfg).1.projected plan.requires := by
            rw [projected_pruneOrphanedPulled, projected_applyRequires]
        _ = applyRequires cfg.projected plan.requires := by rw [hpasses]
  · simp only [if_neg hok]
    exact hpasses

theorem applyRequires_eq_self_iff {requires : List (String × String)} :
    applyRequires cfg requires = cfg ↔
      ∀ m ∈ cfg.mods, recordedRequires m = (depsFrom requires m.filename).map requirementOf := by
  have hrows : applyRequires cfg requires = cfg ↔
      (cfg.mods.map fun m => requiring m (depsFrom requires m.filename)) = cfg.mods :=
    ⟨fun h => congrArg PackConfig.mods h, fun h => by rw [applyRequires, h]⟩
  rw [hrows]
  nth_rewrite 2 [← List.map_id cfg.mods]
  rw [List.map_inj_left]
  exact forall₂_congr fun m _ => requiring_eq_self_iff

/-- What is declared stays as it is if and only if the requirements are recorded. -/
theorem projected_fillDependencies_eq_iff :
    (fillDependencies answers cfg).1.projected = cfg.projected ↔ Recorded answers cfg := by
  rw [projected_fillDependencies, Recorded]
  rcases finalPlan answers cfg with _ | plan
  · simp
  · simp only [Option.elim_some, applyRequires_eq_self_iff, declared_of_mem_projected,
      Option.some.injEq, forall_eq', and_imp]

end Rows

/-- The revision after a fill is the one before it if and only if the declared rows record what they
    require. -/
theorem editRev_fillDependencies_iff (X : Outside) (answers : ℕ → Answers) (cfg : PackConfig)
    -- The digests of the two configs do not collide.
    (hdigest : editRev X (fillDependencies answers cfg).1 = editRev X cfg →
      (fillDependencies answers cfg).1.projected = cfg.projected) :
    editRev X (fillDependencies answers cfg).1 = editRev X cfg ↔ Recorded answers cfg := by
  rw [← projected_fillDependencies_eq_iff]
  exact ⟨hdigest, fun h => by rw [editRev, editRev, h]⟩

/-- A mirror whose digest tells the requirements of the rows. -/
def Outside.requiresDigest : Outside :=
  { Outside.none with
    digest := fun c => String.join (c.mods.flatMap fun m =>
      (recordedRequires m).map fun r => r.filename) }

/-- A registry that knows what `withLibrary` needs its library for. -/
def knowsLibrary : Answers :=
  { Answers.down with plan := fun _ => some ⟨[], [("ae2.jar", "lib.jar")]⟩ }

theorem finalPlan_knowsLibrary (cfg : PackConfig) :
    finalPlan (fun _ => knowsLibrary) cfg = some ⟨[], [("ae2.jar", "lib.jar")]⟩ := rfl

/-- The fill records the library that was pulled for a mod, and this changes the revision. -/
theorem editRev_fillDependencies_ne :
    editRev .requiresDigest (fillDependencies (fun _ => knowsLibrary) withLibrary).1 ≠
      editRev .requiresDigest withLibrary := by
  rw [editRev, projected_fillDependencies, finalPlan_knowsLibrary]
  decide

/-- The same config, with the library recorded. -/
def withRecorded : PackConfig := applyRequires withLibrary [("ae2.jar", "lib.jar")]

/-- Once the library is recorded, another fill leaves the revision as it is. -/
theorem editRev_fillDependencies_recorded :
    editRev .requiresDigest (fillDependencies (fun _ => knowsLibrary) withRecorded).1 =
        editRev .requiresDigest withRecorded ↔ Recorded (fun _ => knowsLibrary) withRecorded := by
  refine editRev_fillDependencies_iff _ _ _ fun _ => ?_
  rw [projected_fillDependencies, finalPlan_knowsLibrary]
  decide

end Smrt
