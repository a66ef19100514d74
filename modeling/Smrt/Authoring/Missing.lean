import Smrt.Authoring.Resolve

/-!
# What a pack lacks

The report of a pack is made by one walk over its rows and their edges. Each part of what is found
depends on the edges that are looked at only (`edges`), and can be read off them:

* `lookup_missing`: a target is missing if a hard edge has it that is not downgraded, and nothing
  satisfies it (`lacking`); the first one of these is shown;
* `provides_walk`: what the rows provide;
* `versionIssues_walk`: which rows are of a version that is out of a window.
-/

namespace Smrt

namespace Resolve

open Registry

section Edges

variable (s : Registry.Shelf) (classify : ℕ → Option String → Classification)
  (present : List Present) (pinned : List String)

/-- The edges that are looked at, with their rows. -/
def edges : List (Present × RelationRow) :=
  present.flatMap fun a => (judged s a).map fun e => (a, e)

/-- The row that a target stands for. -/
def rowFor (target : String) : Option Present :=
  ((s.modIdForSelector target).bind (byModId present)).map Prod.fst

/-- A hard edge that is not downgraded. -/
def Binds (e : RelationRow) : Prop :=
  e.kind = .requires ∧ ¬ (s.modIdForSelector e.target).any fun id =>
    inferredEdgeDowngraded e.source (classOf s classify present id)

/-- No row is the target, and neither the loader nor a pin is. -/
def Open (target : String) : Prop :=
  rowFor s present target = none ∧ isLoaderDep target = false ∧
    ¬ (stripPrefix target "modrinth:").any fun pid => Semver.upTo '@' pid ∈ pinned

instance : DecidablePred (Binds s classify present) := fun _ => inferInstanceAs (Decidable (_ ∧ _))

instance : DecidablePred (Open s present pinned) := fun _ => inferInstanceAs (Decidable (_ ∧ _))

/-- The edges that lack their target, in the order in which they are found. -/
def lacking : List (Present × RelationRow) :=
  (edges s present).filter fun q => Binds s classify present q.2 ∧ Open s present pinned q.2.target

/-- One more edge that lacks its target. -/
def lackIn (missing : List (String × MissingDep)) (q : Present × RelationRow) :
    List (String × MissingDep) :=
  (Findings.lack { Findings.none with missing } q.1 q.2).missing

/-- What is required of a version, if the version of a row is not in it. -/
def outside (b : Present) (q : Present × RelationRow) : Option VersionIssue :=
  q.2.range.bind fun range =>
    if (b.version.bind fun v => Semver.inRange v range) = some false then
      some
        { target := q.2.target
          filename := b.filename
          presentVersion := b.version.getD ""
          requiredRange := range
          neededBy := q.1.filename }
    else none

/-- What is wrong about the version of the row that an edge requires. -/
def versionIssue? (q : Present × RelationRow) : Option VersionIssue :=
  if Binds s classify present q.2 then (rowFor s present q.2.target).bind fun b => outside b q
  else none

end Edges

section Walk

variable {s : Registry.Shelf} {classify : ℕ → Option String → Classification}
  {present : List Present} {pinned : List String}

theorem mem_edges {q : Present × RelationRow} :
    q ∈ edges s present ↔ q.1 ∈ present ∧ q.2 ∈ judged s q.1 := by
  rw [edges, List.mem_flatMap]
  constructor
  · rintro ⟨a, ha, hq⟩
    obtain ⟨e, he, rfl⟩ := List.mem_map.1 hq
    exact ⟨ha, he⟩
  · rintro ⟨ha, he⟩
    exact ⟨q.1, ha, List.mem_map.2 ⟨q.2, he, rfl⟩⟩

/-- A part of what is found that an edge changes in its own way is what the edges make of it. -/
theorem walk_part {β : Type*} (part : Findings → β) (step : β → Present × RelationRow → β)
    (h : ∀ (ai : ℕ) (a : Present) (f : Findings) (e : RelationRow),
      part (judge s classify present pinned ai a f e) = step (part f) (a, e)) :
    part (walk s classify present pinned) = (edges s present).foldl step (part .none) := by
  have hrow : ∀ (ai : ℕ) (a : Present) (es : List RelationRow) (f : Findings),
      part (es.foldl (judge s classify present pinned ai a) f) =
        (es.map fun e => (a, e)).foldl step (part f) := by
    intro ai a es
    induction es with
    | nil => exact fun _ => rfl
    | cons e es ih =>
      intro f
      rw [List.foldl_cons, ih, h, List.map_cons, List.foldl_cons]
  have hrows : ∀ (l : List Present) (n : ℕ) (f : Findings),
      part ((l.zipIdx n).foldl
          (fun f a => (judged s a.1).foldl (judge s classify present pinned a.2 a.1) f) f) =
        (edges s l).foldl step (part f) := by
    intro l
    induction l with
    | nil => exact fun _ _ => rfl
    | cons a l ih =>
      intro n f
      rw [List.zipIdx_cons, List.foldl_cons, ih, hrow, edges, edges, List.flatMap_cons,
        List.foldl_append]
  exact hrows present 0 .none

/-- What is found about the row that an edge requires. -/
def meet (s : Registry.Shelf) (classify : ℕ → Option String → Classification)
    (present : List Present) (a b : Present) (f : Findings) (e : RelationRow) : Findings :=
  let f := if e.source ≠ .inferred ∧ (classOf s classify present b.modId).side = some .client ∧
      (classOf s classify present a.modId).side ≠ some .client then f.force a b e.source else f
  match e.range with
  | none => f
  | some range =>
    match b.version.bind fun v => Semver.inRange v range with
    | some true => f
    | some false =>
      { f with
        versionIssues := f.versionIssues ++
          [{ target := e.target
             filename := b.filename
             presentVersion := b.version.getD ""
             requiredRange := range
             neededBy := a.filename }] }
    | none => { f with unchecked := f.unchecked + 1 }

/-- An edge that binds is about the row that is its target, or lacks it. -/
theorem judgeRequires_eq (a : Present) (f : Findings) {e : RelationRow} (he : e.kind = .requires) :
    judgeRequires s classify present pinned a f e =
      if Binds s classify present e then
        (rowFor s present e.target).elim (if Open s present pinned e.target then f.lack a e else f)
          fun b => meet s classify present a b f e
      else f := by
  rw [judgeRequires]
  dsimp only
  by_cases hguess : ((s.modIdForSelector e.target).any fun id =>
      inferredEdgeDowngraded e.source (classOf s classify present id)) = true
  · have hno : ¬ Binds s classify present e := fun h => h.2 hguess
    rw [if_pos hguess, if_neg hno]
  · have hbinds : Binds s classify present e := ⟨he, hguess⟩
    rw [if_neg hguess, if_pos hbinds]
    rcases hrow : (s.modIdForSelector e.target).bind (byModId present) with _ | ⟨b, i⟩
    · have hfor : rowFor s present e.target = none := by rw [rowFor, hrow, Option.map_none]
      rw [hfor, Option.elim_none]
      dsimp only
      by_cases hloader : isLoaderDep e.target = true
      · have hno : ¬ Open s present pinned e.target :=
          fun h => Bool.true_eq_false_eq_False (hloader.symm.trans h.2.1)
        rw [if_pos hloader, if_neg hno]
      · rw [if_neg hloader]
        by_cases hpin : ((stripPrefix e.target "modrinth:").any fun pid =>
            Semver.upTo '@' pid ∈ pinned) = true
        · have hno : ¬ Open s present pinned e.target := fun h => h.2.2 hpin
          rw [if_pos hpin, if_neg hno]
        · have hopen : Open s present pinned e.target := ⟨hfor, Bool.eq_false_iff.2 hloader, hpin⟩
          rw [if_neg hpin, if_pos hopen]
    · have hfor : rowFor s present e.target = some b := by rw [rowFor, hrow, Option.map_some]
      rw [hfor, Option.elim_some]
      rfl

/-- About a row that is there, only its version can be wrong. -/
theorem meet_parts (a b : Present) (f : Findings) (e : RelationRow) :
    (meet s classify present a b f e).missing = f.missing ∧
      (meet s classify present a b f e).provides = f.provides ∧
      (meet s classify present a b f e).versionIssues =
        f.versionIssues ++ (outside b (a, e)).toList := by
  rw [meet, outside]
  have hforce : ∀ c : Prop, [Decidable c] →
      (if c then f.force a b e.source else f).missing = f.missing ∧
        (if c then f.force a b e.source else f).provides = f.provides ∧
        (if c then f.force a b e.source else f).versionIssues = f.versionIssues := by
    intro c _
    split_ifs <;> exact ⟨rfl, rfl, rfl⟩
  dsimp only
  obtain ⟨hmissing, hprovides, hissues⟩ :=
    hforce (e.source ≠ .inferred ∧ (classOf s classify present b.modId).side = some .client ∧
      (classOf s classify present a.modId).side ≠ some .client)
  rcases e.range with _ | range
  · exact ⟨hmissing, hprovides, hissues.trans (List.append_nil _).symm⟩
  · rw [Option.bind_some]
    dsimp only
    rcases b.version.bind fun v => Semver.inRange v range with _ | _ | _
    · exact ⟨hmissing, hprovides, hissues.trans (List.append_nil _).symm⟩
    · exact ⟨hmissing, hprovides, congrArg (· ++ _) hissues⟩
    · exact ⟨hmissing, hprovides, hissues.trans (List.append_nil _).symm⟩

theorem judge_of_ne (ai : ℕ) (a : Present) (f : Findings) {e : RelationRow}
    (he : e.kind ≠ .requires) :
    (judge s classify present pinned ai a f e).missing = f.missing ∧
      (judge s classify present pinned ai a f e).versionIssues = f.versionIssues := by
  rw [judge]
  rcases hkind : e.kind with _ | _ | _ | _ | _
  · exact absurd hkind he
  · dsimp only
    rw [judgeConflicts]
    rcases (s.modIdForSelector e.target).bind (byModId present) with _ | ⟨b, bi⟩
    · exact ⟨rfl, rfl⟩
    · dsimp only
      split_ifs <;> exact ⟨rfl, rfl⟩
  · exact ⟨rfl, rfl⟩
  · exact ⟨rfl, rfl⟩
  · dsimp only
    split_ifs <;> exact ⟨rfl, rfl⟩

theorem missing_judge (ai : ℕ) (a : Present) (f : Findings) (e : RelationRow) :
    (judge s classify present pinned ai a f e).missing =
      if Binds s classify present e ∧ Open s present pinned e.target then lackIn f.missing (a, e)
      else f.missing := by
  by_cases he : e.kind = .requires
  · have hjudge : judge s classify present pinned ai a f e =
        judgeRequires s classify present pinned a f e := by rw [judge, he]
    rw [hjudge, judgeRequires_eq a f he]
    by_cases hbinds : Binds s classify present e
    · rw [if_pos hbinds]
      rcases hfor : rowFor s present e.target with _ | b
      · rw [Option.elim_none]
        by_cases hopen : Open s present pinned e.target
        · rw [if_pos hopen, if_pos ⟨hbinds, hopen⟩]
          rfl
        · rw [if_neg hopen, if_neg fun h => hopen h.2]
      · rw [Option.elim_some, (meet_parts a b f e).1, if_neg]
        exact fun h => Option.some_ne_none b (hfor.symm.trans h.2.1)
    · rw [if_neg hbinds, if_neg fun h => hbinds h.1]
  · rw [(judge_of_ne ai a f he).1, if_neg fun h => he h.1.1]

/-- A target is missing for the edges that lack it, one after the other. -/
theorem missing_walk : (walk s classify present pinned).missing =
    (lacking s classify present pinned).foldl lackIn [] := by
  have hstep := walk_part Findings.missing (fun missing q =>
    if Binds s classify present q.2 ∧ Open s present pinned q.2.target then lackIn missing q
    else missing) fun ai a f e => missing_judge ai a f e
  rw [hstep, lacking, List.foldl_filter]
  simp only [decide_eq_true_eq]
  rfl

/-- What is said of a target that some edges lack, of which the first one is shown. -/
def entry (target : String) (lacking : List (Present × RelationRow)) : Option MissingDep :=
  lacking.head?.map fun q =>
    { neededBy := lacking.map fun q => q.1.filename
      range := q.2.range
      source := q.2.source
      external := (stripPrefix target "external:").isSome }

theorem lookup_foldl_lackIn (target : String) (l : List (Present × RelationRow)) :
    (l.foldl lackIn []).lookup target = entry target (l.filter fun q => q.2.target = target) := by
  induction l using List.reverseRecOn with
  | nil => rfl
  | append_singleton l q ih =>
    rw [List.foldl_append, List.foldl_cons, List.foldl_nil, lackIn, Findings.lack]
    dsimp only
    rw [lookup_put, List.filter_append]
    by_cases htarget : target = q.2.target
    · subst htarget
      rw [if_pos rfl, ih, List.filter_cons_of_pos (a := q) (l := []) (decide_eq_true rfl),
        List.filter_nil]
      generalize l.filter _ = ps
      rcases ps with _ | ⟨p, ps⟩
      · rfl
      · rw [entry, entry, List.map_append]
        rfl
    · rw [if_neg htarget, ih, List.filter_cons_of_neg (a := q) (l := []), List.filter_nil,
        List.append_nil]
      rw [decide_eq_true_eq]
      exact Ne.symm htarget

theorem increasing_foldl_lackIn (l : List (Present × RelationRow)) :
    Increasing (l.foldl lackIn []) := by
  induction l using List.reverseRecOn with
  | nil => exact List.Pairwise.nil
  | append_singleton l q ih =>
    rw [List.foldl_append]
    exact ih.put

/-- A target is missing if an edge lacks it; of the edges that do, the first one is shown. -/
theorem mem_missing {target : String} {d : MissingDep} :
    (target, d) ∈ (walk s classify present pinned).missing ↔
      entry target ((lacking s classify present pinned).filter fun q => q.2.target = target) =
        some d := by
  rw [missing_walk, ← lookup_foldl_lackIn]
  exact ⟨(increasing_foldl_lackIn _).lookup, mem_of_lookup⟩

/-! ## What is provided, and what is outside -/

/-- The same, if what an edge finds is appended. -/
theorem walk_append {β : Type*} (part : Findings → List β) (add : Present × RelationRow → List β)
    (h : ∀ (ai : ℕ) (a : Present) (f : Findings) (e : RelationRow),
      part (judge s classify present pinned ai a f e) = part f ++ add (a, e))
    (hnone : part .none = []) :
    part (walk s classify present pinned) = (edges s present).flatMap add := by
  rw [walk_part part (fun found q => found ++ add q) h, hnone, List.flatMap_eq_foldl]

theorem provides_judge (ai : ℕ) (a : Present) (f : Findings) (e : RelationRow) :
    (judge s classify present pinned ai a f e).provides =
      f.provides ++ if e.kind = .provides then [(e.target, a.filename)] else [] := by
  rw [judge]
  rcases hkind : e.kind with _ | _ | _ | _ | _
  · refine Eq.trans ?_ (List.append_nil _).symm
    dsimp only
    rw [judgeRequires_eq a f hkind]
    by_cases hbinds : Binds s classify present e
    · rw [if_pos hbinds]
      rcases rowFor s present e.target with _ | b
      · rw [Option.elim_none]
        split_ifs <;> rfl
      · exact (meet_parts a b f e).2.1
    · rw [if_neg hbinds]
  · refine Eq.trans ?_ (List.append_nil _).symm
    dsimp only
    rw [judgeConflicts]
    rcases (s.modIdForSelector e.target).bind (byModId present) with _ | ⟨b, bi⟩
    · rfl
    · dsimp only
      split_ifs <;> rfl
  · exact (List.append_nil _).symm
  · rfl
  · refine Eq.trans ?_ (List.append_nil _).symm
    dsimp only
    split_ifs <;> rfl

/-- A capability is provided if an edge that is looked at says so. -/
theorem mem_provides {capability : String} :
    capability ∈ (walk s classify present pinned).provides.map Prod.fst ↔
      ∃ q ∈ edges s present, q.2.kind = .provides ∧ q.2.target = capability := by
  rw [walk_append Findings.provides
    (fun q => if q.2.kind = .provides then [(q.2.target, q.1.filename)] else [])
    (fun ai a f e => provides_judge ai a f e) rfl, List.mem_map]
  constructor
  · rintro ⟨p, hp, rfl⟩
    obtain ⟨q, hq, hp⟩ := List.mem_flatMap.1 hp
    by_cases hkind : q.2.kind = .provides
    · rw [if_pos hkind] at hp
      obtain rfl := List.mem_singleton.1 hp
      exact ⟨q, hq, hkind, rfl⟩
    · rw [if_neg hkind] at hp
      exact absurd hp List.not_mem_nil
  · rintro ⟨q, hq, hkind, rfl⟩
    refine ⟨(q.2.target, q.1.filename), List.mem_flatMap.2 ⟨q, hq, ?_⟩, rfl⟩
    rw [if_pos hkind]
    exact List.mem_singleton_self _

theorem versionIssues_judge (ai : ℕ) (a : Present) (f : Findings) (e : RelationRow) :
    (judge s classify present pinned ai a f e).versionIssues =
      f.versionIssues ++ (versionIssue? s classify present (a, e)).toList := by
  rw [versionIssue?]
  by_cases he : e.kind = .requires
  · have hjudge : judge s classify present pinned ai a f e =
        judgeRequires s classify present pinned a f e := by rw [judge, he]
    rw [hjudge, judgeRequires_eq a f he]
    by_cases hbinds : Binds s classify present e
    · rw [if_pos hbinds, if_pos hbinds]
      rcases rowFor s present e.target with _ | b
      · rw [Option.elim_none, Option.bind_none]
        refine Eq.trans ?_ (List.append_nil _).symm
        split_ifs <;> rfl
      · exact (meet_parts a b f e).2.2
    · rw [if_neg hbinds, if_neg hbinds]
      exact (List.append_nil _).symm
  · rw [(judge_of_ne ai a f he).2, if_neg fun h => he h.1]
    exact (List.append_nil _).symm

/-- Which rows are of a version that is outside of what is required. -/
theorem versionIssues_walk : (walk s classify present pinned).versionIssues =
    (edges s present).filterMap (versionIssue? s classify present) := by
  rw [walk_append Findings.versionIssues (fun q => (versionIssue? s classify present q).toList)
    (fun ai a f e => versionIssues_judge ai a f e) rfl]
  exact (List.filterMap_eq_flatMap_toList ..).symm

end Walk

/-! ## In any order -/

section Perm

variable {s : Registry.Shelf} {classify : ℕ → Option String → Classification}
  {present present' : List Present} {pinned pinned' : List String}

/-- The row of a mod is the first one. -/
theorem fst_byModId {id : ℕ} :
    (byModId present id).map Prod.fst = present.find? fun p => p.modId = id := by
  conv_rhs => rw [← List.zipIdx_map_fst 0 present, List.find?_map]
  rfl

theorem byModId_eq_none {id : ℕ} : byModId present id = none ↔ ∀ p ∈ present, p.modId ≠ id := by
  rw [← Option.map_eq_none_iff (f := Prod.fst), fst_byModId, List.find?_eq_none]
  simp only [decide_eq_true_eq, ne_eq]

theorem rowFor_eq_none {target : String} : rowFor s present target = none ↔
    ∀ id, s.modIdForSelector target = some id → ∀ p ∈ present, p.modId ≠ id := by
  rw [rowFor, Option.map_eq_none_iff, Option.bind_eq_none_iff]
  exact forall₂_congr fun id _ => byModId_eq_none

/-- Of a target that is lacking no row is read: only its newest file counts. -/
theorem binds_iff_of_open {e : RelationRow} (hopen : Open s present pinned e.target) :
    Binds s classify present e ↔ Binds s classify [] e := by
  refine and_congr_right fun _ => not_congr ?_
  rcases hid : s.modIdForSelector e.target with _ | id
  · exact Iff.rfl
  · have hnone := byModId_eq_none.2 (rowFor_eq_none.1 hopen.1 id hid)
    rw [Option.any_some, Option.any_some, classOf, hnone]
    rfl

theorem open_congr (hp : present'.Perm present) (hpins : pinned'.Perm pinned) {target : String} :
    Open s present' pinned' target ↔ Open s present pinned target := by
  rw [Open, Open, rowFor_eq_none, rowFor_eq_none]
  simp only [hp.mem_iff, hpins.mem_iff]

theorem edges_perm (hp : present'.Perm present) : (edges s present').Perm (edges s present) :=
  hp.flatMap_right _

/-- What is lacking is the same in any order. -/
theorem lacking_perm (hp : present'.Perm present) (hpins : pinned'.Perm pinned) :
    (lacking s classify present' pinned').Perm (lacking s classify present pinned) := by
  rw [lacking, lacking]
  refine ((edges_perm hp).filter _).trans (List.Perm.of_eq (List.filter_congr fun q _ => ?_))
  refine decide_eq_decide.2 ⟨fun ⟨hbinds, hopen⟩ => ?_, fun ⟨hbinds, hopen⟩ => ?_⟩
  · have hopen' := (open_congr hp hpins).1 hopen
    exact ⟨(binds_iff_of_open hopen').2 ((binds_iff_of_open hopen).1 hbinds), hopen'⟩
  · have hopen' := (open_congr hp hpins).2 hopen
    exact ⟨(binds_iff_of_open hopen').2 ((binds_iff_of_open hopen).1 hbinds), hopen'⟩

end Perm

/-! ## The report -/

section Report

variable (s : Registry.Shelf) (classify : ℕ → Option String → Classification) (cfg : PackConfig)

/-- What no row is needed for: a row provides it, or the loader does, or what answers for an API. -/
def Answered (target : String) : Prop :=
  (∃ q ∈ edges s (presentMods s cfg.mods), q.2.kind = .provides ∧ q.2.target = target) ∨
    Semver.upTo '@' target ∈ s.loaderProvidedCapabilities cfg.loader.name ∨
    Semver.upTo '@' target ∈ bridgedApiProvided s (presentMods s cfg.mods)

instance : DecidablePred (Answered s cfg) := fun _ => inferInstanceAs (Decidable (_ ∨ _))

/-- The edges that lack their target in a pack. -/
def packLacking : List (Present × RelationRow) :=
  lacking s classify (presentMods s cfg.mods) (placeMods s cfg.mods).pinnedProjects

/-- The edges that lack a target. -/
def lackingOf (target : String) : List (Present × RelationRow) :=
  (packLacking s classify cfg).filter fun q => q.2.target = target

variable {s classify cfg}

theorem mem_lackingOf {target : String} {q : Present × RelationRow} :
    q ∈ lackingOf s classify cfg target ↔ q ∈ edges s (presentMods s cfg.mods) ∧
      Binds s classify (presentMods s cfg.mods) q.2 ∧
      Open s (presentMods s cfg.mods) (placeMods s cfg.mods).pinnedProjects target ∧
      q.2.target = target := by
  rw [lackingOf, List.mem_filter, packLacking, lacking, List.mem_filter]
  simp only [decide_eq_true_eq]
  constructor
  · rintro ⟨⟨hq, hbinds, hopen⟩, rfl⟩
    exact ⟨hq, hbinds, hopen, rfl⟩
  · rintro ⟨hq, hbinds, hopen, rfl⟩
    exact ⟨⟨hq, hbinds, hopen⟩, rfl⟩

theorem mem_missing_resolvePack {target : String} {d : MissingDep} :
    (target, d) ∈ (resolvePack s classify cfg).missing ↔ ¬ Answered s cfg target ∧
      ∃ found, entry target (lackingOf s classify cfg target) = some found ∧
        d = { found with neededBy := found.neededBy.insertionSort (· ≤ ·) } := by
  rw [resolvePack, List.mem_map]
  constructor
  · rintro ⟨⟨target', found⟩, hmem, he⟩
    obtain ⟨rfl, rfl⟩ := Prod.mk.inj he
    obtain ⟨hfound, hneed⟩ := List.mem_filter.1 hmem
    obtain ⟨hprovided, hloader, hbridged⟩ := of_decide_eq_true hneed
    refine ⟨?_, found, mem_missing.1 hfound, rfl⟩
    rintro (h | h | h)
    · exact hprovided (mem_provides.2 h)
    · exact hloader h
    · exact hbridged h
  · rintro ⟨hopen, found, hfound, rfl⟩
    refine ⟨(target, found), List.mem_filter.2 ⟨mem_missing.2 hfound, decide_eq_true ?_⟩, rfl⟩
    exact ⟨fun h => hopen (.inl (mem_provides.1 h)), fun h => hopen (.inr (.inl h)),
      fun h => hopen (.inr (.inr h))⟩

/-- The first one of the edges that lack a target is where the report has it from. -/
theorem exists_mem_missing {target : String} {source : Registry.Source} :
    (∃ d, (target, d) ∈ (resolvePack s classify cfg).missing ∧ d.source = source) ↔
      ¬ Answered s cfg target ∧
        ∃ q, (lackingOf s classify cfg target).head? = some q ∧ q.2.source = source := by
  constructor
  · rintro ⟨d, hd, rfl⟩
    obtain ⟨hopen, found, hfound, rfl⟩ := mem_missing_resolvePack.1 hd
    obtain ⟨q, hq, rfl⟩ := Option.map_eq_some_iff.1 hfound
    exact ⟨hopen, q, hq, rfl⟩
  · rintro ⟨hopen, q, hq, rfl⟩
    exact ⟨_, mem_missing_resolvePack.2 ⟨hopen, _, Option.map_eq_some_iff.2 ⟨q, hq, rfl⟩, rfl⟩, rfl⟩

variable {mods : List DeclaredMod} (hm : mods.Perm cfg.mods)

include hm

theorem packLacking_perm :
    (packLacking s classify { cfg with mods }).Perm (packLacking s classify cfg) :=
  lacking_perm (hm.filterMap _) (hm.filterMap _)

theorem bridgedApiProvided_perm : bridgedApiProvided s (presentMods s mods) =
    bridgedApiProvided s (presentMods s cfg.mods) := by
  rw [bridgedApiProvided, bridgedApiProvided]
  have hnone : ∀ id, byModId (presentMods s mods) id = none ↔
      byModId (presentMods s cfg.mods) id = none := by
    intro id
    have hrow : ∀ p, p ∈ presentMods s mods ↔ p ∈ presentMods s cfg.mods :=
      fun _ => (hm.filterMap _).mem_iff
    rw [byModId_eq_none, byModId_eq_none]
    simp only [hrow]
  have hsome : ∀ sel, ((s.modIdForSelector sel).bind (byModId (presentMods s mods))).isSome =
      ((s.modIdForSelector sel).bind (byModId (presentMods s cfg.mods))).isSome := by
    intro sel
    rw [Bool.eq_iff_iff, ← not_iff_not, Option.not_isSome_iff_eq_none,
      Option.not_isSome_iff_eq_none]
    simp only [Option.bind_eq_none_iff, hnone]
  simp only [hsome]

theorem answered_perm {target : String} :
    Answered s { cfg with mods } target ↔ Answered s cfg target := by
  rw [Answered, Answered, bridgedApiProvided_perm hm]
  refine or_congr (exists_congr fun q => and_congr_left fun _ => ?_) Iff.rfl
  exact (edges_perm (hm.filterMap _)).mem_iff

end Report

end Resolve

end Smrt
