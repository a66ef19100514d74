import Smrt.Authoring.DepFill
import Smrt.Authoring.Missing

/-!
# What the fill pulls, and what the report lacks

The fill is told what to pull by a walk of its own over the rows and their edges
(`dependencyFillPlan`), which looks at the first edge of each kind and target (`planned`), where the
report looks at the first one of each target. It judges an edge by the newest file of its target,
and not by the one that the pack ships, and it does not ask what the rows provide.

* `mem_selectors`, `mem_planRequires`: what the plan says, in terms of these edges;
* `agrees_iff_shared`: it agrees with the report if and only if the edges that it goes by are ones
  that the report goes by too, and no row provides what it lacks.
-/

namespace Smrt

namespace Resolve

open Registry

/-! ## The plan -/

/-- What the fill is told, and what it might suggest. -/
structure FillPlan extends DepFillPlan where
  suggested : List String

/-- What an edge of a row comes to. -/
inductive Fate
  | skipped
  | suggested
  /-- The row that is required. -/
  | met (b : Present)
  | unmet

/-- What was planned so far. -/
structure Planning where
  missing : List (String × Option String)
  requires : List (String × String)
  suggested : List String

section Plan

variable (s : Registry.Shelf) (classify : ℕ → Option String → Classification) (cfg : PackConfig)

/-- The edges of a row that the plan goes by: of each kind and target the first one. -/
def planned (a : Present) : List RelationRow :=
  firsts (fun e => (e.kind, e.target)) [] (s.relationsForArtifact a.versionId a.modId)

/-- The edges that the plan goes by, with their rows. -/
def plannedEdges (present : List Present) : List (Present × RelationRow) :=
  present.flatMap fun a => (planned s a).map fun e => (a, e)

/-- The loader answers for a target, or what bridges it does. -/
def Bridged (target : String) : Prop :=
  Semver.upTo '@' target ∈ s.loaderProvidedCapabilities cfg.loader.name ∨
    Semver.upTo '@' target ∈ bridgedApiProvided s (presentMods s cfg.mods)

instance : DecidablePred (Bridged s cfg) := fun _ => inferInstanceAs (Decidable (_ ∨ _))

def fate (e : RelationRow) : Fate :=
  let placed := placeMods s cfg.mods
  let row := (s.modIdForSelector e.target).bind (byModId placed.present)
  match e.kind with
  | .recommends => if row.isNone ∧ !isLoaderDep e.target then .suggested else .skipped
  | .requires =>
    if isLoaderDep e.target then .skipped
    else if Bridged s cfg e.target then .skipped
    else if (s.modIdForSelector e.target).any fun id =>
        inferredEdgeDowngraded e.source (classify id (s.newestSha1ForMod id)) then .skipped
    else match row with
      | some (b, _) => .met b
      | none =>
        if (stripPrefix e.target "modrinth:").any fun pid =>
          Semver.upTo '@' pid ∈ placed.pinnedProjects then .skipped
        else .unmet
  | _ => .skipped

/-- What an edge adds to the plan. Of those that lack a target the first one's window counts. -/
def planEdge (p : Planning) (q : Present × RelationRow) : Planning :=
  match fate s classify cfg q.2 with
  | .skipped => p
  | .suggested => { p with suggested := q.2.target :: p.suggested }
  | .met b => { p with requires := p.requires ++ [(q.1.filename, b.filename)] }
  | .unmet =>
    { p with
      missing := put q.2.target ((p.missing.lookup q.2.target).getD q.2.range) p.missing }

def dependencyFillPlan : FillPlan :=
  let p := (plannedEdges s (placeMods s cfg.mods).present).foldl (planEdge s classify cfg)
    ⟨[], [], []⟩
  { missing := p.missing.map fun m =>
      { selector := m.1, versionRange := m.2, pinnedVersion := none }
    requires := p.requires
    suggested := sortedSet p.suggested }

end Plan

/-! ## What the plan says -/

section Spec

variable {s : Registry.Shelf} {classify : ℕ → Option String → Classification} {cfg : PackConfig}
  {e : RelationRow}

theorem mem_plannedEdges {present : List Present} {q : Present × RelationRow} :
    q ∈ plannedEdges s present ↔ q.1 ∈ present ∧ q.2 ∈ planned s q.1 := by
  rw [plannedEdges, List.mem_flatMap]
  constructor
  · rintro ⟨a, ha, hq⟩
    obtain ⟨e, he, rfl⟩ := List.mem_map.1 hq
    exact ⟨ha, he⟩
  · rintro ⟨ha, he⟩
    exact ⟨q.1, ha, List.mem_map.2 ⟨q.2, he, rfl⟩⟩

/-- A hard edge is about the row that is its target, or lacks it, if it is not downgraded for the
newest file of the target, and nothing else answers for this. -/
theorem fate_of_requires (he : e.kind = .requires) : fate s classify cfg e =
    if Binds s classify [] e ∧ isLoaderDep e.target = false ∧ ¬ Bridged s cfg e.target then
      (rowFor s (presentMods s cfg.mods) e.target).elim
        (if Open s (presentMods s cfg.mods) (placeMods s cfg.mods).pinnedProjects e.target
          then .unmet else .skipped) .met
    else .skipped := by
  have hnewest : Binds s classify [] e ↔ ¬ ((s.modIdForSelector e.target).any fun id =>
      inferredEdgeDowngraded e.source (classify id (s.newestSha1ForMod id))) = true :=
    and_iff_right he
  have hpresent : (placeMods s cfg.mods).present = presentMods s cfg.mods := rfl
  rw [fate, he]
  dsimp only
  by_cases hloader : isLoaderDep e.target = true
  · rw [if_pos hloader, if_neg]
    exact fun h => Bool.true_eq_false_eq_False (hloader.symm.trans h.2.1)
  rw [if_neg hloader]
  by_cases hbridged : Bridged s cfg e.target
  · rw [if_pos hbridged, if_neg fun h => h.2.2 hbridged]
  rw [if_neg hbridged]
  by_cases hbinds : Binds s classify [] e
  · have hgo : Binds s classify [] e ∧ isLoaderDep e.target = false ∧ ¬ Bridged s cfg e.target :=
      ⟨hbinds, Bool.eq_false_iff.2 hloader, hbridged⟩
    rw [if_neg (hnewest.1 hbinds), if_pos hgo]
    rcases hrow : (s.modIdForSelector e.target).bind (byModId (presentMods s cfg.mods)) with
      _ | ⟨b, i⟩
    · have hfor : rowFor s (presentMods s cfg.mods) e.target = none := by
        rw [rowFor, hrow, Option.map_none]
      have hopen : Open s (presentMods s cfg.mods) (placeMods s cfg.mods).pinnedProjects e.target ↔
          ¬ ((stripPrefix e.target "modrinth:").any fun pid =>
            Semver.upTo '@' pid ∈ (placeMods s cfg.mods).pinnedProjects) = true :=
        (and_iff_right hfor).trans (and_iff_right (Bool.eq_false_iff.2 hloader))
      rw [hfor, Option.elim_none, hpresent, hrow]
      dsimp only
      by_cases hpin : ((stripPrefix e.target "modrinth:").any fun pid =>
          Semver.upTo '@' pid ∈ (placeMods s cfg.mods).pinnedProjects) = true
      · rw [if_pos hpin, if_neg fun h => hopen.1 h hpin]
      · rw [if_neg hpin, if_pos (hopen.2 hpin)]
    · have hfor : rowFor s (presentMods s cfg.mods) e.target = some b := by
        rw [rowFor, hrow, Option.map_some]
      rw [hfor, Option.elim_some, hpresent, hrow]
  · rw [if_pos (not_not.1 fun h => hbinds (hnewest.2 h)), if_neg fun h => hbinds h.1]

/-- Other edges are neither met nor unmet. -/
theorem fate_of_ne (he : e.kind ≠ .requires) :
    fate s classify cfg e = .skipped ∨ fate s classify cfg e = .suggested := by
  rw [fate]
  rcases hkind : e.kind with _ | _ | _ | _ | _
  · exact absurd hkind he
  · exact .inl rfl
  · exact .inl rfl
  · exact .inl rfl
  · dsimp only
    split_ifs
    · exact .inr rfl
    · exact .inl rfl

theorem fate_eq_unmet : fate s classify cfg e = .unmet ↔ Binds s classify [] e ∧
    Open s (presentMods s cfg.mods) (placeMods s cfg.mods).pinnedProjects e.target ∧
    ¬ Bridged s cfg e.target := by
  by_cases he : e.kind = .requires
  · rw [fate_of_requires he]
    rcases hrow : rowFor s (presentMods s cfg.mods) e.target with _ | b
    · rw [Option.elim_none]
      split_ifs with hgo hopen
      · exact iff_of_true rfl ⟨hgo.1, hopen, hgo.2.2⟩
      · exact iff_of_false nofun fun h => hopen h.2.1
      · exact iff_of_false nofun fun h => hgo ⟨h.1, h.2.1.2.1, h.2.2⟩
    · have hno : ¬ Open s (presentMods s cfg.mods) (placeMods s cfg.mods).pinnedProjects e.target :=
        fun h => Option.some_ne_none b (hrow.symm.trans h.1)
      refine iff_of_false ?_ fun h => hno h.2.1
      split_ifs <;> exact nofun
  · refine iff_of_false (fun h => ?_) fun h => he h.1.1
    rcases (fate_of_ne he : fate s classify cfg e = .skipped ∨ _) with h' | h' <;>
      exact Fate.noConfusion (h'.symm.trans h)

theorem fate_eq_met {b : Present} : fate s classify cfg e = .met b ↔ Binds s classify [] e ∧
    isLoaderDep e.target = false ∧ ¬ Bridged s cfg e.target ∧
    rowFor s (presentMods s cfg.mods) e.target = some b := by
  by_cases he : e.kind = .requires
  · rw [fate_of_requires he]
    by_cases hgo : Binds s classify [] e ∧ isLoaderDep e.target = false ∧ ¬ Bridged s cfg e.target
    · rw [if_pos hgo]
      rcases rowFor s (presentMods s cfg.mods) e.target with _ | b'
      · rw [Option.elim_none]
        refine iff_of_false ?_ fun h => Option.some_ne_none b h.2.2.2.symm
        split_ifs <;> exact not_false
      · rw [Option.elim_some, Option.some_inj]
        exact ⟨fun h => ⟨hgo.1, hgo.2.1, hgo.2.2, Fate.met.inj h⟩, fun h => congrArg _ h.2.2.2⟩
    · rw [if_neg hgo]
      exact iff_of_false Fate.noConfusion fun h => hgo ⟨h.1, h.2.1, h.2.2.1⟩
  · refine iff_of_false (fun h => ?_) fun h => he h.1.1
    rcases (fate_of_ne he : fate s classify cfg e = .skipped ∨ _) with h' | h' <;>
      exact Fate.noConfusion (h'.symm.trans h)

/-- What the edges of a list add to a plan. -/
theorem foldl_planEdge (l : List (Present × RelationRow)) (p : Planning) :
    (∀ target, target ∈ (l.foldl (planEdge s classify cfg) p).missing.map Prod.fst ↔
      target ∈ p.missing.map Prod.fst ∨
        ∃ q ∈ l, fate s classify cfg q.2 = .unmet ∧ q.2.target = target) ∧
    ∀ f g, (f, g) ∈ (l.foldl (planEdge s classify cfg) p).requires ↔ (f, g) ∈ p.requires ∨
      ∃ q ∈ l, ∃ b, fate s classify cfg q.2 = .met b ∧ q.1.filename = f ∧ b.filename = g := by
  induction l generalizing p with
  | nil => simp
  | cons q l ih =>
    rw [List.foldl_cons]
    obtain ⟨hmissing, hrequires⟩ := ih (planEdge s classify cfg p q)
    constructor
    · intro target
      rw [hmissing, List.exists_mem_cons_iff, ← or_assoc]
      refine or_congr_left ?_
      rw [planEdge]
      rcases fate s classify cfg q.2 with _ | _ | b | _
      · simp
      · simp
      · simp
      · rw [mem_map_fst_put, and_iff_right rfl]
    · intro f g
      rw [hrequires, List.exists_mem_cons_iff, ← or_assoc]
      refine or_congr_left ?_
      rw [planEdge]
      rcases fate s classify cfg q.2 with _ | _ | b | _
      · simp
      · simp
      · simp [eq_comm]
      · simp

/-- The selectors of the targets that a plan lacks. -/
def FillPlan.selectors (p : FillPlan) : List String := p.missing.map MissingTarget.selector

/-- The plan lacks the targets of the first hard edges that nothing answers for. -/
theorem mem_selectors {target : String} :
    target ∈ (dependencyFillPlan s classify cfg).selectors ↔
      ∃ q ∈ plannedEdges s (presentMods s cfg.mods),
        fate s classify cfg q.2 = .unmet ∧ q.2.target = target := by
  rw [FillPlan.selectors, dependencyFillPlan, List.map_map]
  refine ((foldl_planEdge _ _).1 target).trans (or_iff_right ?_)
  exact List.not_mem_nil

theorem mem_planRequires {f g : String} : (f, g) ∈ (dependencyFillPlan s classify cfg).requires ↔
    ∃ q ∈ plannedEdges s (presentMods s cfg.mods), ∃ b,
      fate s classify cfg q.2 = .met b ∧ q.1.filename = f ∧ b.filename = g :=
  ((foldl_planEdge _ _).2 f g).trans (or_iff_right List.not_mem_nil)

end Spec

/-! ## The plan and the report -/

section Agree

variable (s : Registry.Shelf) (classify : ℕ → Option String → Classification) (cfg : PackConfig)

/-- The report goes by a hard edge of a row with one name, the target of which is there in a row
with the other. -/
def Satisfied (f g : String) : Prop :=
  ∃ q ∈ edges s (presentMods s cfg.mods), Binds s classify (presentMods s cfg.mods) q.2 ∧
    q.1.filename = f ∧ ∃ b, rowFor s (presentMods s cfg.mods) q.2.target = some b ∧ b.filename = g

/-- The plan lacks what the report lacks, and has edges that are satisfied there. -/
structure Agrees : Prop where
  missing : ∀ target, target ∈ (dependencyFillPlan s classify cfg).selectors ↔
    target ∈ (resolvePack s classify cfg).missing.map Prod.fst
  requires : ∀ f g, (f, g) ∈ (dependencyFillPlan s classify cfg).requires →
    Satisfied s classify cfg f g

/-- Where the plan goes by an edge, the report goes by one too. -/
structure Shared : Prop where
  /-- A target that is lacking is provided by no row, and a hard edge is the first one for it. -/
  unmet : ∀ q ∈ plannedEdges s (presentMods s cfg.mods), Binds s classify [] q.2 →
    Open s (presentMods s cfg.mods) (placeMods s cfg.mods).pinnedProjects q.2.target →
    ¬ Bridged s cfg q.2.target →
    (¬ ∃ p ∈ edges s (presentMods s cfg.mods), p.2.kind = .provides ∧ p.2.target = q.2.target) ∧
      ∃ p ∈ edges s (presentMods s cfg.mods), p.2.target = q.2.target ∧ Binds s classify [] p.2
  /-- To a target that is there a hard edge leads that is the first one for its target, and is not
  downgraded for the file that the pack ships. -/
  met : ∀ q ∈ plannedEdges s (presentMods s cfg.mods), Binds s classify [] q.2 →
    isLoaderDep q.2.target = false → ¬ Bridged s cfg q.2.target →
    ∀ b, rowFor s (presentMods s cfg.mods) q.2.target = some b →
      ∃ p ∈ edges s (presentMods s cfg.mods), p.1.filename = q.1.filename ∧
        Binds s classify (presentMods s cfg.mods) p.2 ∧
        ∃ b', rowFor s (presentMods s cfg.mods) p.2.target = some b' ∧ b'.filename = b.filename

end Agree

section Iff

variable {s : Registry.Shelf} {classify : ℕ → Option String → Classification} {cfg : PackConfig}

/-- The first edge for a target is the first one of its kind for it. -/
theorem planned_of_judged {a : Present} {e : RelationRow} (he : e ∈ judged s a) :
    e ∈ planned s a := by
  obtain ⟨-, before, after, hl, hfirst⟩ := mem_firsts.1 he
  refine mem_firsts.2 ⟨List.not_mem_nil, before, after, hl, fun d hd hkey => ?_⟩
  exact hfirst d hd (congrArg Prod.snd hkey)

/-- What the report lacks, the plan lacks. -/
theorem mem_selectors_of_missing {target : String}
    (h : target ∈ (resolvePack s classify cfg).missing.map Prod.fst) :
    target ∈ (dependencyFillPlan s classify cfg).selectors := by
  obtain ⟨⟨_, d⟩, hd, rfl⟩ := List.mem_map.1 h
  obtain ⟨hanswered, found, hfound, -⟩ := mem_missing_resolvePack.1 hd
  obtain ⟨q, hq, -⟩ := Option.map_eq_some_iff.1 hfound
  obtain ⟨hmem, hbinds, hopen, rfl⟩ := mem_lackingOf.1 (List.mem_of_mem_head? hq)
  obtain ⟨hrow, he⟩ := mem_edges.1 hmem
  refine mem_selectors.2 ⟨q, mem_plannedEdges.2 ⟨hrow, planned_of_judged he⟩, ?_, rfl⟩
  exact fate_eq_unmet.2 ⟨(binds_iff_of_open hopen).1 hbinds, hopen, fun h => hanswered (.inr h)⟩

/-- A target that no row provides, and a hard edge lacks, is missing. -/
theorem mem_missing_of_edge {target : String} {p : Present × RelationRow}
    (hp : p ∈ edges s (presentMods s cfg.mods)) (htarget : p.2.target = target)
    (hbinds : Binds s classify [] p.2)
    (hopen : Open s (presentMods s cfg.mods) (placeMods s cfg.mods).pinnedProjects target)
    (hanswered : ¬ Answered s cfg target) :
    target ∈ (resolvePack s classify cfg).missing.map Prod.fst := by
  subst htarget
  have hmem : p ∈ lackingOf s classify cfg p.2.target :=
    mem_lackingOf.2 ⟨hp, (binds_iff_of_open hopen).2 hbinds, hopen, rfl⟩
  obtain ⟨q, hq⟩ := Option.isSome_iff_exists.1 (List.isSome_head?.2 (List.ne_nil_of_mem hmem))
  obtain ⟨d, hd, -⟩ := exists_mem_missing.2 ⟨hanswered, q, hq, rfl⟩
  exact List.mem_map_of_mem hd

/-- The plan and the report agree if and only if they go by edges that they share. -/
theorem agrees_iff_shared (s : Registry.Shelf) (classify : ℕ → Option String → Classification)
    (cfg : PackConfig) : Agrees s classify cfg ↔ Shared s classify cfg := by
  constructor
  · rintro ⟨hmissing, hrequires⟩
    constructor
    · intro q hq hbinds hopen hbridged
      have hsel := mem_selectors.2 ⟨q, hq, fate_eq_unmet.2 ⟨hbinds, hopen, hbridged⟩, rfl⟩
      obtain ⟨⟨_, d⟩, hd, htarget⟩ := List.mem_map.1 ((hmissing _).1 hsel)
      obtain rfl := htarget
      obtain ⟨hanswered, found, hfound, -⟩ := mem_missing_resolvePack.1 hd
      obtain ⟨p, hp, -⟩ := Option.map_eq_some_iff.1 hfound
      obtain ⟨hmem, hbinds, hopen, htarget⟩ := mem_lackingOf.1 (List.mem_of_mem_head? hp)
      refine ⟨fun h => hanswered (.inl h), p, hmem, htarget, ?_⟩
      exact (binds_iff_of_open (htarget.symm ▸ hopen)).1 hbinds
    · intro q hq hbinds hloader hbridged b hb
      have hfate := fate_eq_met.2 ⟨hbinds, hloader, hbridged, hb⟩
      obtain ⟨p, hp, hleads, hf, b', hb', hg⟩ :=
        hrequires _ _ (mem_planRequires.2 ⟨q, hq, b, hfate, rfl, rfl⟩)
      exact ⟨p, hp, hf, hleads, b', hb', hg⟩
  · rintro ⟨hunmet, hmet⟩
    constructor
    · refine fun target => ⟨fun h => ?_, mem_selectors_of_missing⟩
      obtain ⟨q, hq, hfate, rfl⟩ := mem_selectors.1 h
      obtain ⟨hbinds, hopen, hbridged⟩ := fate_eq_unmet.1 hfate
      obtain ⟨hprovided, p, hp, htarget, hleads⟩ := hunmet q hq hbinds hopen hbridged
      refine mem_missing_of_edge hp htarget hleads hopen ?_
      rintro (h | h)
      · exact hprovided h
      · exact hbridged h
    · intro f g h
      obtain ⟨q, hq, b, hfate, rfl, rfl⟩ := mem_planRequires.1 h
      obtain ⟨hbinds, hloader, hbridged, hb⟩ := fate_eq_met.1 hfate
      obtain ⟨p, hp, hf, hleads, b', hb', hg⟩ := hmet q hq hbinds hloader hbridged b hb
      exact ⟨p, hp, hleads, hf, b', hb', hg⟩

end Iff

/-! ## A dependency that is made optional -/

/-- A mod whose jar declares that it needs a library, which was put down as optional by hand. -/
def optionalShelf : Registry.Shelf :=
  let edge (kind : RelKind) (source : Registry.Source) (confidence : ℕ) : RelationRow :=
    { fromModId := 1
      fromVersionId := some 1
      target := "somelib"
      range := none
      kind
      severity := none
      source
      confidence }
  { Tables.empty with
    mods := (Table.empty.insert ⟨some "machine", none, .jarMeta⟩).insert
      ⟨some "somelib", none, .jarMeta⟩
    aliases := [⟨2, .modid, "somelib"⟩]
    versions := Table.empty.insert
      { modId := 1, version := "1.0", sha1 := "000000000000000000000000000000000000000a"
        filename := none, mcVersions := [], releaseId := none, source := .jarMeta }
    relations := [edge .optionalDep .authored 90, edge .requires .jarMeta 60]
    loaderParents := []
    loaderProvides := []
    modrinthVersionId := fun _ => none
    classDigest := fun _ => .absent }

/-- A pack with the mod. -/
def optionalPack : PackConfig :=
  { PackConfig.empty "machines" with
    mods := [{ filename := "machine.jar", defaultEnabled := true,
               source := .smrtCache "000000000000000000000000000000000000000a", display := none,
               slug := none, pulled := false }] }

/-- The library is optional to the report, and pulled by the fill. -/
theorem not_agrees_optionalPack : ¬ Agrees optionalShelf unclassified optionalPack := by
  intro h
  have hplan : "somelib" ∈
      (dependencyFillPlan optionalShelf unclassified optionalPack).selectors := by decide +kernel
  have hreport : "somelib" ∉
      (resolvePack optionalShelf unclassified optionalPack).missing.map Prod.fst := by
    decide +kernel
  exact hreport ((h.missing _).1 hplan)

end Resolve

end Smrt
