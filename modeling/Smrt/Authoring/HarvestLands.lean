import Smrt.Authoring.HarvestNames
import Smrt.Authoring.HarvestRuns

/-!
# When a harvest lands

The references of the jars, and their dependencies on files, are written late, under the ids that
the mods of the jars had when these were read. A mod that is folded away meanwhile is not there any
more, and the harvest fails. It lands if no mod that something waits for is folded away
(`Settled`); in every run of the registry whose harvests are so, all of them land
(`writeScan_lands`).
-/

namespace Smrt

namespace Harvest

open Registry Registry.Tables Txn

/-! ## What waits -/

/-- No mod is folded away while something waits for it: the mod of a jar whose references come to
something not by a jar behind it, and that of a jar which depends on a file neither by a jar behind
it nor by the reconciliation. -/
def Settled (plan : Plan) (t : Tables) (scan : ScanData) : Prop :=
  ∀ w ∈ waiting (bare t) scan.jars,
    (w.jar.derives → (∃ pkg ∈ w.jar.hardRefs ++ w.jar.optionalRefs,
        (resolveEdgeTarget (putAllDown (bare t) scan.jars) pkg w.modId).isSome) →
      w.modId ∉ w.gone) ∧
    (w.jar.externalDeps ≠ [] →
      w.modId ∉ w.gone ++ (reconciled plan (putAllDown (bare t) scan.jars)).2)

instance (plan : Plan) (t : Tables) (scan : ScanData) : Decidable (Settled plan t scan) :=
  inferInstanceAs (Decidable (∀ w ∈ waiting (bare t) scan.jars, _ ∧ _))

/-- The files that something is put off for. -/
def Later.files (later : Later) : List ℕ :=
  later.derivations.map Derivation.versionId ++ later.externalDeps.map ExternalDep.versionId

/-- What is put off is put off for jars of the list. -/
structure Later.Of (ws : List Waiting) (later : Later) : Prop where
  derivations : ∀ d ∈ later.derivations, ∃ w ∈ ws, d.modId = w.modId ∧ d.jar = w.jar ∧
    w.jar.derives
  externalDeps : ∀ d ∈ later.externalDeps, ∃ w ∈ ws, d.modId = w.modId ∧ w.jar.externalDeps ≠ []

theorem Later.Of.none {ws : List Waiting} : Later.none.Of ws where
  derivations _ hd := absurd hd List.not_mem_nil
  externalDeps _ hd := absurd hd List.not_mem_nil

theorem Later.Of.append {ws ws' : List Waiting} {l l' : Later} (h : l.Of ws) (h' : l'.Of ws') :
    (l.append l').Of (ws ++ ws') where
  derivations d hd := by
    rcases List.mem_append.1 hd with hd | hd
    · obtain ⟨w, hw, he⟩ := h.derivations d hd
      exact ⟨w, List.mem_append_left _ hw, he⟩
    · obtain ⟨w, hw, he⟩ := h'.derivations d hd
      exact ⟨w, List.mem_append_right _ hw, he⟩
  externalDeps d hd := by
    rcases List.mem_append.1 hd with hd | hd
    · obtain ⟨w, hw, he⟩ := h.externalDeps d hd
      exact ⟨w, List.mem_append_left _ hw, he⟩
    · obtain ⟨w, hw, he⟩ := h'.externalDeps d hd
      exact ⟨w, List.mem_append_right _ hw, he⟩

theorem JarSeed.later_of (jar : JarSeed) (modId versionId : ℕ) (gone : List ℕ) :
    (jar.later modId versionId).Of [⟨modId, jar, gone⟩] where
  derivations d hd := by
    rw [later] at hd
    split_ifs at hd with hderives
    · obtain rfl := List.mem_singleton.1 hd
      exact ⟨_, List.mem_singleton_self _, rfl, rfl, hderives⟩
    · cases hd
  externalDeps d hd := by
    obtain ⟨e, he, rfl⟩ := List.mem_map.1 hd
    exact ⟨_, List.mem_singleton_self _, rfl, List.ne_nil_of_mem he⟩

theorem JarSeed.eq_of_mem_files {jar : JarSeed} {modId versionId v : ℕ}
    (h : v ∈ (jar.later modId versionId).files) : v = versionId := by
  rcases List.mem_append.1 h with h | h
  · obtain ⟨d, hd, rfl⟩ := List.mem_map.1 h
    rw [later] at hd
    split_ifs at hd
    · rw [List.mem_singleton.1 hd]
    · cases hd
  · obtain ⟨d, hd, rfl⟩ := List.mem_map.1 h
    obtain ⟨e, -, rfl⟩ := List.mem_map.1 hd
    rfl

/-! ## The parts land -/

section Lands

variable {t : Tables} {mods versions : List ℕ}

theorem has_subset {l : List ℕ} (h : t.Has mods versions) (hsub : ∀ v ∈ l, v ∈ versions) :
    t.Has mods l := ⟨h.1, fun v hv => h.2 v (hsub v hv)⟩

/-- The packages of a mod are added to those there are. -/
theorem lands_setModPackages {modId : ℕ} (hmod : modId ∈ mods) (prefixes : List String) :
    Lands (fun t' => Same names t t' ∧ t'.Has mods versions) (setModPackages modId prefixes)
      fun _ t' => Same names { t with packages := putPackages modId prefixes t.packages } t' ∧
        t'.Has mods versions := by
  induction prefixes generalizing t with
  | nil => exact Lands.pure fun _ _ h => h
  | cons pkg prefixes ih =>
    refine Lands.bind (lands_execute fun t' ht' h => ?_) fun _ =>
      ih (t := { t with packages := t.packages.insert (modId, pkg) })
    obtain ⟨hsame, hhas⟩ := h
    refine ⟨ht'.of_packages (forall_mem_insert ht'.packageMod (hhas.1 modId hmod))
      ht'.packageKey.insert, ?_, hhas⟩
    obtain ⟨hmods, haliases, hpackages⟩ := same_names_iff.1 hsame
    exact same_names_iff.2 ⟨hmods, haliases, congrArg (List.insert (modId, pkg)) hpackages⟩

/-- What keeps the mods and the files, and leaves the names alone. -/
theorem Keeps.names {α : Type} {m : Conn α} (h : Registry.Keeps mods versions m)
    (hnames : Along (Same names) m) : Lands (fun t' => Same names t t' ∧ t'.Has mods versions) m
      fun _ t' => Same Harvest.names t t' ∧ t'.Has mods versions :=
  (h.along hnames t).imp (fun _ _ h => ⟨h.2, h.1⟩) fun _ _ _ h => ⟨h.2, h.1⟩

theorem lands_writeFacts {modId versionId : ℕ} (hmod : modId ∈ mods) (hversion : versionId ∈ versions)
    (jar : JarSeed) : Lands (fun t' => Same names t t' ∧ t'.Has mods versions)
      (writeFacts modId versionId jar) fun _ t' =>
        Same names { t with packages := putPackages modId jar.ownedPackages t.packages } t' ∧
          t'.Has mods versions := by
  refine Lands.bind (Keeps.names (keeps_filterRelations _)
    (along_execute (by intro _; rfl))) fun _ => ?_
  refine Lands.bind (Keeps.names (keeps_writeNeeds hversion jar)
    ((along_writeNeeds _ _).same_of names)) fun _ => ?_
  refine Lands.bind (Keeps.names (keeps_writeDeclared hmod hversion jar)
    ((along_writeDeclared relating_butRelations _ _ _).same_of names)) fun _ => ?_
  refine Lands.bind (lands_setModPackages hmod jar.ownedPackages) fun _ => ?_
  refine Lands.bind (Keeps.names (keeps_writeBridge hmod hversion jar)
    ((along_writeBridge relating_butRelations _ _ _).same_of names)) fun _ => ?_
  refine Lands.bind (Keeps.names (keeps_writeRuntimes hmod hversion jar)
    ((along_writeRuntimes relating_butRelations _ _ _).same_of names)) fun _ => ?_
  exact Keeps.names (keeps_writeModrinthDeps hmod hversion jar)
    ((along_writeModrinthDeps relating_butRelations _ _ _).same_of names)

/-- A jar is put down to its mod, and what is put off is put off under the id of that. -/
theorem lands_readJar (jar : JarSeed) (gone : List ℕ) :
    Lands (fun t' => Same names t t' ∧ t'.Has [] versions) (readJar jar) fun later t' =>
      later.Of (if jar.aliases = [] then [] else [⟨t.aliasMod jar.aliases, jar, gone⟩]) ∧
        Same names (putDown t jar) t' ∧ t'.Has [] (later.files ++ versions) := by
  refine Lands.bind (Keeps.names (keeps_writeJarClass jar)
    ((along_writeJarClass jar).same_of names)) fun _ => ?_
  by_cases haliases : jar.aliases = []
  · rw [if_pos haliases, if_pos haliases, putDown, if_pos haliases]
    exact Lands.pure fun _ _ h => ⟨.none, h.1, h.2⟩
  rw [if_neg haliases, if_neg haliases, putDown, if_neg haliases]
  refine Lands.of_eq fun t₁ ht₁ hp => ?_
  obtain ⟨hsame, hhas⟩ := hp
  -- The mod is the one that the names alone give.
  refine Lands.bind (lands_upsertModByAlias ht₁ jar.aliases) fun modId =>
    Lands.of_forall fun hmodId => ?_
  have hmod := ht₁.hasMod_collapsed jar.aliases
  rw [same_aliasMod hsame] at hmod hmodId
  subst hmodId
  have hcollapsed := same_collapsed hsame jar.aliases
  refine Lands.bind (Q := fun _ t' => Same names { t.collapsed jar.aliases with
      mods := (t.collapsed jar.aliases).mods.modify (t.aliasMod jar.aliases) (describe jar) } t' ∧
        t'.Has [t.aliasMod jar.aliases] versions) ?_ fun _ => ?_
  · rw [setModMeta]
    refine lands_execute fun t₂ ht₂ he => ?_
    subst he
    obtain ⟨hmods, hrest⟩ := same_names_iff.1 hcollapsed
    refine ⟨ht₂.of_mods fun _ hid => Table.isSome_get?_modify.trans hid, ?_, ?_, ?_⟩
    · exact same_names_iff.2 ⟨congrArg (Table.modify · _ (describe jar)) hmods, hrest⟩
    · exact List.forall_mem_singleton.2 (Table.isSome_get?_modify.trans hmod)
    · exact fun v hv => hasVersion_collapsed.2 (hhas.2 v hv)
  refine Lands.bind (((lands_writeFile List.mem_cons_self jar).along
    ((along_writeFile _ jar).same_of names) _).of_pre fun _ _ h => ⟨h.2, h.1⟩) fun versionId => ?_
  refine Lands.bind ((lands_writeFacts List.mem_cons_self List.mem_cons_self jar).of_pre
    fun _ _ h => ⟨h.2, h.1⟩) fun _ => Lands.pure fun t' _ h => ⟨jar.later_of _ _ gone, h.1, List.forall_mem_nil _, ?_⟩
  intro v hv
  refine h.2.2 v ?_
  rcases List.mem_append.1 hv with hv | hv
  · exact List.mem_cons.2 (.inl (jar.eq_of_mem_files hv))
  · exact List.mem_cons_of_mem _ hv

/-- All jars are put down to their mods. -/
theorem lands_readJars (jars : List JarSeed) :
    Lands (fun t' => Same names t t' ∧ t'.Has [] versions) (readJars jars) fun later t' =>
      later.Of (waiting t jars) ∧ Same names (putAllDown t jars) t' ∧
        t'.Has [] (later.files ++ versions) := by
  induction jars generalizing t versions with
  | nil => exact Lands.pure fun _ _ h => ⟨.none, h.1, h.2⟩
  | cons jar jars ih =>
    refine Lands.bind (lands_readJar jar (goneIn (putDown t jar) jars)) fun later =>
      Lands.of_forall fun hlater => ?_
    refine Lands.bind (ih (t := putDown t jar)) fun rest =>
      Lands.pure fun t' _ ⟨hrest, hsame, hhas⟩ => ⟨hlater.append hrest, hsame, has_subset hhas ?_⟩
    intro v hv
    simp only [Later.files, Later.append, List.map_append, List.mem_append] at hv ⊢
    tauto

/-- A reference that comes to something is of a mod that is there. -/
theorem lands_hardRef {modId versionId : ℕ} {pkg : String} (seen : Seen)
    (hversion : versionId ∈ versions)
    (hmod : (resolveEdgeTarget t pkg modId).isSome → modId ∈ mods) :
    Lands (fun t' => Same names t t' ∧ t'.Has mods versions) (hardRef modId versionId seen pkg)
      fun _ t' => Same names t t' ∧ t'.Has mods versions := by
  refine Lands.read_bind fun t₁ _ hp => ?_
  rw [same_resolveEdgeTarget hp.1]
  rcases htarget : resolveEdgeTarget t pkg modId with _ | target
  · exact Lands.pure fun _ _ he => he ▸ hp
  have hmem : modId ∈ mods := hmod (htarget ▸ rfl)
  have hwrite : ∀ (kind : RelKind) (seen : Seen), Lands (fun t' => t' = t₁)
      (do writeRef kind modId versionId target; pure seen)
        fun _ t' => Same names t t' ∧ t'.Has mods versions := fun kind seen =>
    Lands.bind ((Keeps.names (keeps_edge hmem hversion _)
      ((along_upsertRelation relating_butRelations _ _ _).same_of names)).of_pre fun _ _ he => he ▸ hp)
        fun _ => Lands.pure fun _ _ h => h
  dsimp only
  split_ifs
  · exact Lands.pure fun _ _ he => he ▸ hp
  · exact hwrite _ _
  · exact Lands.pure fun _ _ he => he ▸ hp
  · exact hwrite _ _

theorem lands_optionalRef {modId versionId : ℕ} {pkg : String} (seen : Seen)
    (hversion : versionId ∈ versions)
    (hmod : (resolveEdgeTarget t pkg modId).isSome → modId ∈ mods) :
    Lands (fun t' => Same names t t' ∧ t'.Has mods versions) (optionalRef modId versionId seen pkg)
      fun _ t' => Same names t t' ∧ t'.Has mods versions := by
  refine Lands.read_bind fun t₁ _ hp => ?_
  rw [same_resolveEdgeTarget hp.1]
  rcases htarget : resolveEdgeTarget t pkg modId with _ | target
  · exact Lands.pure fun _ _ he => he ▸ hp
  have hmem : modId ∈ mods := hmod (htarget ▸ rfl)
  dsimp only
  split_ifs
  · exact Lands.pure fun _ _ he => he ▸ hp
  · exact Lands.bind ((Keeps.names (keeps_edge hmem hversion _)
      ((along_upsertRelation relating_butRelations _ _ _).same_of names)).of_pre fun _ _ he => he ▸ hp)
        fun _ => Lands.pure fun _ _ h => h

/-- The references of the files are resolved, those that come to something for mods that are
    there. -/
theorem lands_derive {derivations : List Derivation}
    (h : ∀ d ∈ derivations, d.versionId ∈ versions ∧
      ∀ pkg ∈ d.jar.hardRefs ++ d.jar.optionalRefs, (resolveEdgeTarget t pkg d.modId).isSome →
        d.modId ∈ mods) :
    Lands (fun t' => Same names t t' ∧ t'.Has mods versions) (derive derivations)
      fun _ t' => Same names t t' ∧ t'.Has mods versions := by
  refine Lands.bind (Lands.foldlM fun d hd seen => Lands.foldlM fun pkg hpkg seen => ?_)
    fun _ => Lands.bind (Lands.foldlM fun d hd seen => Lands.foldlM fun pkg hpkg seen => ?_)
      fun _ => Lands.pure fun _ _ h => h
  · exact lands_hardRef seen (h d hd).1 ((h d hd).2 pkg (List.mem_append_left _ hpkg))
  · exact lands_optionalRef seen (h d hd).1 ((h d hd).2 pkg (List.mem_append_right _ hpkg))

/-- A pair is reconciled as the names alone tell. -/
theorem lands_reconcilePair {acc : Tables × List ℕ} {pair : ℕ × ℕ} {pairs : List (ℕ × ℕ)}
    (hacc : Reconciling (pair :: pairs) acc) :
    Lands (fun t' => Same names acc.1 t' ∧ t'.Has [] versions) (reconcilePair acc.2 pair)
      fun consumed t' => consumed = (reconcileStep acc pair).2 ∧
        Same names (reconcileStep acc pair).1 t' ∧ t'.Has [] versions := by
  obtain ⟨hne, h₁, h₂⟩ := hacc.pairs pair List.mem_cons_self
  rw [reconcilePair, reconcileStep]
  split_ifs with hgone
  · exact Lands.pure fun _ _ h => ⟨rfl, h⟩
  rw [not_or] at hgone
  refine Lands.of_eq fun t₁ ht₁ hp => ?_
  obtain ⟨hsame, hhas⟩ := hp
  have hmods : ∀ id ∈ [pair.1, pair.2], acc.1.HasMod id := by
    simpa using ⟨h₁ hgone.1, h₂ hgone.2⟩
  refine Lands.bind (lands_mergeCollidedMods (fun id hid => (same_hasMod hsame id).2 (hmods id hid))
    (List.cons_ne_nil _ _) ht₁) fun survivor => Lands.of_forall fun hsurvivor => ?_
  have hsame' := same_merged hsame [pair.1, pair.2]
  refine Lands.read_bind fun t₂ _ he => Lands.pure fun t₃ _ he' => ?_
  subst he' he
  refine ⟨?_, hsame', List.forall_mem_nil _, fun v hv => hasVersion_merged.2 (hhas.2 v hv)⟩
  -- The other one of the two is gone, or both are precious and stay.
  rw [← same_foldedAway hsame, hsurvivor]
  have hloser : t₁.HasMod (if t₁.survivor [pair.1, pair.2] = pair.1 then pair.2 else pair.1) := by
    rw [same_hasMod hsame]
    split_ifs
    · exact h₂ hgone.2
    · exact h₁ hgone.1
  rcases foldedAway_pair (t := t₁) hne with hf | hf
  · rw [if_pos (hasMod_merged.2 ⟨hloser, by rw [hf]; exact List.not_mem_nil⟩), hf, List.nil_append]
  · rw [if_neg fun h => (hasMod_merged.1 h).2 (by rw [hf]; exact List.mem_singleton_self _), hf]
    rfl

theorem lands_reconcile (plan : Plan) (ht : t.Integrity) :
    Lands (fun t' => Same names t t' ∧ t'.Has [] versions) (reconcile plan) fun _ t' =>
      Same names (reconciled plan t).1 t' ∧ t'.Has [] versions := by
  have hall : ∀ (pairs : List (ℕ × ℕ)) (acc : Tables × List ℕ), Reconciling pairs acc →
      Lands (fun t' => Same names acc.1 t' ∧ t'.Has [] versions) (pairs.foldlM reconcilePair acc.2)
        fun _ t' => Same names (pairs.foldl reconcileStep acc).1 t' ∧ t'.Has [] versions := by
    intro pairs
    induction pairs with
    | nil => exact fun acc _ => Lands.pure fun _ _ h => h
    | cons pair pairs ih =>
      intro acc hacc
      refine Lands.bind (lands_reconcilePair hacc) fun consumed => Lands.of_forall fun he => ?_
      exact he ▸ ih _ hacc.step
  refine Lands.read_bind fun t₁ _ hp => ?_
  rw [same_splitPairs hp.1]
  have hpairs : Reconciling (plan.order (splitPairs t)) (t, []) := by
    refine ⟨ht, fun pair hpair => ?_⟩
    obtain ⟨hne, h₁, h₂⟩ := splitPairs_spec ht ((plan.perm _).mem_iff.1 hpair)
    exact ⟨hne, fun _ => h₁, fun _ => h₂⟩
  exact Lands.bind ((hall _ _ hpairs).of_pre fun _ _ he => he ▸ hp) fun _ =>
    Lands.pure fun _ _ h => h

/-- A project is attached to a mod that is there, as the names alone tell. -/
theorem lands_linkSelfHosted (project : String × String) :
    Lands (fun t' => Same names t t' ∧ t'.Has [] versions) (linkSelfHosted project)
      fun _ t' => Same names (linkStep t project) t' ∧ t'.Has [] versions := by
  refine Lands.read_bind fun t₁ ht₁ hp => ?_
  have hstep : Same names (linkStep t project) (linkStep t₁ project) :=
    same_linkStep hp.1 project
  rw [linkStep.eq_def t₁] at hstep
  rcases hnone : t₁.modIdForAlias .modrinth project.1 with _ | id
  · rcases hmod : t₁.modIdForSelector project.2 with _ | modId <;> rw [hnone, hmod] at hstep
    · exact Lands.pure fun _ _ he => he ▸ ⟨hstep, hp.2⟩
    · exact (lands_attach ht₁ (ht₁.hasMod_of_selector hmod) _).of_post fun _ t' _ he =>
        he ▸ ⟨hstep, hp.2⟩
  · rw [hnone] at hstep
    exact Lands.pure fun _ _ he => he ▸ ⟨hstep, hp.2⟩

theorem lands_linkAll (projects : List (String × String)) :
    Lands (fun t' => Same names t t' ∧ t'.Has [] versions) (projects.forM linkSelfHosted)
      fun _ t' => Same names (projects.foldl linkStep t) t' ∧ t'.Has [] versions := by
  induction projects generalizing t with
  | nil => exact Lands.pure fun _ _ h => h
  | cons project projects ih => exact Lands.bind (lands_linkSelfHosted project) fun _ => ih

theorem lands_wipe (ht : t.Integrity) (modrinthLegOk : Bool) :
    Lands (fun t' => t' = t) (wipe modrinthLegOk) fun _ t' =>
      Same names (bare t) t' ∧ t'.Has [] [] := by
  refine Lands.bind (Q := fun _ t' => Same names (bare t) t' ∧ t'.Has [] [])
    (lands_execute fun t' ht' he => ?_) fun _ => Keeps.names (keeps_filterRelations _)
      (along_execute (by intro _; rfl))
  subst he
  exact ⟨ht.of_packages nofun .nil, rfl, nofun, nofun⟩

end Lands

/-- What a harvest does to the names is told by the jars alone. -/
theorem ensures_writeScan {plan : Plan} {t : Tables} {scan : ScanData} (ht : t.Integrity) :
    Ensures (fun t' => t' = t) (writeScan plan scan) fun _ t' =>
      Same names (namesAfter plan t scan) t' := by
  have hbare : (bare t).Integrity := ht.of_packages nofun .nil
  have hdown : (putAllDown (bare t) scan.jars).Integrity := integrity_putAllDown hbare _
  refine Ensures.bind (lands_wipe ht scan.modrinthLegOk).ensures fun _ => ?_
  refine Ensures.bind (lands_readJars scan.jars).ensures fun later => ?_
  refine Ensures.bind ((((along_derive relating_butRelations _).same_of names).ensures _).imp (fun _ h => h.2.1)
    fun _ _ h => h) fun _ => ?_
  refine Ensures.bind (((Along.forM fun pack _ =>
    (along_writePack scan.jars pack).same_of names)).ensures _) fun _ => ?_
  refine Ensures.bind ((lands_reconcile plan hdown).ensures.imp
    (fun _ h => ⟨h, nofun, fun _ (hv : _ ∈ []) => nomatch hv⟩) fun _ _ h => h) fun _ => ?_
  refine Ensures.bind (lands_linkAll scan.depProjectSlugs).ensures fun _ => ?_
  refine Ensures.bind ((((Along.forM fun d _ =>
    (along_writeExternalDep relating_butRelations d).same_of names)).ensures _).imp (fun _ h => h.1) fun _ _ h => h)
      fun _ => ?_
  exact (along_pruneEmptyReleases.same_of names).ensures _

/-- The ids of the mods. -/
def ids (t : Tables) : List ℕ := t.mods.rows.map Prod.fst

theorem mem_ids {t : Tables} {id : ℕ} : id ∈ ids t ↔ t.HasMod id := by
  rw [ids, List.mem_map, HasMod, Option.isSome_iff_exists]
  constructor
  · rintro ⟨x, hx, rfl⟩
    exact ⟨x.2, Table.get?_eq_some.2 hx⟩
  · rintro ⟨m, hm⟩
    exact ⟨(id, m), Table.get?_eq_some.1 hm, rfl⟩

/-- The mods are those of the tables that have the same ones. -/
theorem has_ids {t t' : Tables} {versions : List ℕ} (h : t'.mods = t.mods)
    (hhas : t'.Has [] versions) : t'.Has (ids t) versions := by
  refine ⟨fun id hid => ?_, hhas.2⟩
  rw [HasMod, h]
  exact mem_ids.1 hid

/-- A harvest lands if no mod is folded away that something waits for. -/
theorem lands_writeScan {plan : Plan} {t : Tables} {scan : ScanData} (ht : t.Integrity)
    (h : Settled plan t scan) :
    Lands (fun t' => t' = t) (writeScan plan scan) fun _ _ => True := by
  have hbare : (bare t).Integrity := ht.of_packages nofun .nil
  refine Lands.bind (lands_wipe ht scan.modrinthLegOk) fun _ => ?_
  refine Lands.bind (lands_readJars scan.jars) fun later => Lands.of_forall fun hlater => ?_
  have hderive : ∀ d ∈ later.derivations, d.versionId ∈ later.files ++ [] ∧
      ∀ pkg ∈ d.jar.hardRefs ++ d.jar.optionalRefs,
        (resolveEdgeTarget (putAllDown (bare t) scan.jars) pkg d.modId).isSome →
          d.modId ∈ ids (putAllDown (bare t) scan.jars) := by
    intro d hd
    refine ⟨List.mem_append_left _ (List.mem_append_left _ (List.mem_map_of_mem hd)), ?_⟩
    intro pkg hpkg htarget
    obtain ⟨w, hw, hmod, hjar, hderives⟩ := hlater.derivations d hd
    rw [hmod] at htarget ⊢
    rw [hjar] at hpkg
    exact mem_ids.2 (hasMod_of_waiting hbare hw ((h w hw).1 hderives ⟨pkg, hpkg, htarget⟩))
  refine Lands.bind ((lands_derive hderive).of_pre fun t' _ hp =>
    ⟨hp.1, has_ids (same_names_iff.1 hp.1).1 hp.2⟩) fun _ => ?_
  refine Lands.bind (Keeps.names (keeps_forM fun pack _ => keeps_writePack scan.jars pack)
    (Along.forM fun pack _ => (along_writePack scan.jars pack).same_of names)) fun _ => ?_
  have hdown : (putAllDown (bare t) scan.jars).Integrity := integrity_putAllDown hbare _
  refine Lands.bind ((lands_reconcile plan hdown).of_pre fun t' _ hp => ⟨hp.1, nofun, hp.2.2⟩)
    fun _ => ?_
  refine Lands.bind (lands_linkAll scan.depProjectSlugs) fun _ => ?_
  have hexternal : ∀ d ∈ later.externalDeps,
      d.modId ∈ ids (reconciled plan (putAllDown (bare t) scan.jars)).1 := by
    intro d hd
    obtain ⟨w, hw, hmod, hdeps⟩ := hlater.externalDeps d hd
    have hgone := (h w hw).2 hdeps
    rw [List.mem_append, not_or] at hgone
    rw [hmod]
    exact mem_ids.2 (hasMod_reconcileAll (hasMod_of_waiting hbare hw hgone.1) hgone.2)
  refine Lands.bind (Lands.of_pre (keeps_forM fun d hd => keeps_writeExternalDep (hexternal d hd)
    (List.mem_append_left _ (List.mem_append_right _ (List.mem_map_of_mem hd))) rfl rfl)
      fun t' _ hp => has_ids ((same_names_iff.1 hp.1).1.trans (mods_linkAll _)) hp.2) fun _ => ?_
  exact keeps_pruneEmptyReleases.of_post fun _ _ _ _ => trivial

/-! ## The runs -/

/-- A harvest for whose mods nothing waits that is folded away meanwhile. -/
def settled (s : Stored Integrity) : Write → Prop
  | .harvest plan scan => Settled plan s.1 scan
  | .decide _ => True

/-- In every run of which all harvests are settled, they land. -/
theorem writeScan_lands : ∀ s, registry.Reach settled s → ∀ plan scan,
    settled s (.harvest plan scan) → ∃ s', writeScan plan scan s = .ok ((), s') := by
  intro s _ plan scan hs
  obtain ⟨⟨⟩, s', hrun, -⟩ := lands_writeScan s.2 hs s rfl
  exact ⟨s', hrun⟩

/-- A file of a project. -/
def projectJar : JarSeed := { JarSeed.ofSha1 "1" with projectId := some "P" }

/-- A file of a mod that refers to a package. -/
def referringJar : JarSeed :=
  { JarSeed.ofSha1 "2" with modid := some "a", hardRefs := ["pkg"] }

/-- A file of the mod that defines the package. -/
def definingJar : JarSeed :=
  { JarSeed.ofSha1 "3" with modid := some "b", ownedPackages := ["pkg"] }

/-- A file of the project that has the name of the mod. -/
def bridgingJar : JarSeed :=
  { JarSeed.ofSha1 "4" with modid := some "a", projectId := some "P" }

/-- A file of another project with the slug `b`, which depends on a file outside of the projects. -/
def externalJar : JarSeed :=
  { JarSeed.ofSha1 "5" with
    projectId := some "Q"
    slug := some "B"
    modrinthDeps := [⟨none, "required", none, some "lib.jar"⟩] }

theorem writeScan_lands_three : ∃ s',
    writeScan inOrder (.ofJars [projectJar, referringJar, definingJar]) fresh = .ok ((), s') :=
  writeScan_lands fresh reachable_fresh inOrder _ (by
    show Settled inOrder Tables.empty _
    decide +kernel)

/-- A jar folds away the mod of one before it, or the reconciliation does, and the harvest fails. -/
theorem writeScan_fails : ∃ s, registry.Reachable s ∧
    (∀ s', writeScan inOrder (.ofJars [projectJar, referringJar, definingJar, bridgingJar]) s ≠
      .ok ((), s')) ∧
    ∀ s', writeScan inOrder (.ofJars [definingJar, externalJar]) s ≠ .ok ((), s') := by
  refine ⟨fresh, reachable_fresh, fun s' hs => ?_, fun s' hs => ?_⟩
  · have hfails : (writeScan inOrder
        (.ofJars [projectJar, referringJar, definingJar, bridgingJar]) fresh).isOk = false := by
      decide +kernel
    rw [hs] at hfails
    cases hfails
  · have hfails : (writeScan inOrder (.ofJars [definingJar, externalJar]) fresh).isOk = false := by
      decide +kernel
    rw [hs] at hfails
    cases hfails

end Harvest

end Smrt
