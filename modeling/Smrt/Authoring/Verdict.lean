import Smrt.Authoring.Gate
import Smrt.Authoring.MixinGaps
import Smrt.Authoring.PackConflicts

/-!
# The order of the rows and the verdict

A target that a row needs (`Needed`: the edge was declared) and nothing satisfies (`Unmet`) blocks
a build if the first edge that lacks it was declared, whatever the others say (`blocks_iff`). The
rows can be put in the order in which any of these edges is the first one. So a needed target blocks
in every order just when no edge that lacks it was derived.

Apart from that the order matters where a pack has several rows of a mod: its version is the one of
the first row, and its classes are those of the last one (`Faulted`).
-/

namespace Smrt

namespace Resolve

open Registry

variable (X : Smrt.Shelf) (s : Registry.Shelf) (classify : ℕ → Option String → Classification)
  (known : String → Option (List (String × String))) (cfg : PackConfig)

/-! ## What is said of a pack -/

/-- No row is the target, and nothing else satisfies it. -/
def Unmet (target : String) : Prop :=
  Open s (presentMods s cfg.mods) (placeMods s cfg.mods).pinnedProjects target ∧
    ¬ Answered s cfg target

/-- The first edge of a row for the target is a hard one, and was declared. -/
def Needed (target : String) : Prop :=
  ∃ q ∈ edges s (presentMods s cfg.mods), q.2.target = target ∧ q.2.kind = .requires ∧
    declared q.2.source.asStr

instance : DecidablePred (Unmet s cfg) := fun _ => inferInstanceAs (Decidable (_ ∧ _))

instance : DecidablePred (Needed s cfg) := fun _ => inferInstanceAs (Decidable (∃ q ∈ _, _))

/-- A line of the verdict is about the target. -/
def GateReport.Blocks (r : GateReport) (target : String) : Prop :=
  ∃ d, Blocking.missing target d ∈ r.blocking

/-- In every order of the rows, a needed target that is unmet blocks, and the build fails; and
    the verdict is the same one. -/
def Steadfast : Prop :=
  ∀ mods, mods.Perm cfg.mods →
    (∀ target, Unmet s { cfg with mods } target → Needed s { cfg with mods } target →
      (gateReport s classify known { cfg with mods }).Blocks target ∧
        ∃ e, checkBuild X s classify known false false { cfg with mods } = .error e) ∧
    ((check (gateReport s classify known { cfg with mods })).blocking = [] ↔
      (check (gateReport s classify known cfg)).blocking = [])

/-! ## The condition -/

/-- Of a target that is needed and unmet no edge that lacks it was derived. -/
def Uniform : Prop :=
  ∀ target, Unmet s cfg target → Needed s cfg target →
    ∀ q ∈ lackingOf s classify cfg target, declared q.2.source.asStr

/-- Something is found that no order of the rows changes. -/
def Firm : Prop :=
  (∃ target, Unmet s cfg target ∧ Needed s cfg target) ∨
    (gateReport s classify known cfg).loaderMismatch ≠ [] ∨
    (gateReport s classify known cfg).loaderVersionIssues ≠ []

/-- A row is of a version that an edge for its mod does not admit. -/
def Behind (present : List Present) (b : Present) : Prop :=
  ∃ q ∈ edges s present, q.2.kind = .requires ∧ s.modIdForSelector q.2.target = some b.modId ∧
    ¬ inferredEdgeDowngraded q.2.source (classify b.modId b.sha1) ∧ (outside b q).isSome

/-- A row does not have a class that a mixin needs of its mod. -/
def Torn (present : List Present) (b : Present) : Prop :=
  ∃ m needed, Asks s present m needed b.modId ∧ LacksClass s needed b

/-- Rows of a mod, in an order in which the first one or the last one blocks. -/
def Faulted (present rows : List Present) : Prop :=
  (∃ b, rows.head? = some b ∧ Behind s classify present b) ∨
    ∃ b, rows.getLast? = some b ∧ Torn s present b

def rowsOf (present : List Present) (id : ℕ) : List Present := present.filter fun p => p.modId = id

/-- The rows of a mod that there are several of do not change the verdict: something else blocks, or
    none of the rows does wherever it stands, or those of some mod do in every order. -/
def Settled : Prop :=
  Firm s classify known cfg ∨
    (∀ b ∈ presentMods s cfg.mods, ¬ Behind s classify (presentMods s cfg.mods) b ∧
      ¬ Torn s (presentMods s cfg.mods) b) ∨
    ∃ id, ∀ rows, rows.Perm (rowsOf (presentMods s cfg.mods) id) →
      Faulted s classify (presentMods s cfg.mods) rows

variable {X s classify known cfg}

/-! ## The verdict -/

theorem blocking_eq_nil {r : GateReport} : (check r).blocking = [] ↔
    (∀ target, ¬ r.Blocks target) ∧ r.loaderMismatch = [] ∧ r.mixinGaps = [] ∧
      r.versionIssues = [] ∧ r.loaderVersionIssues = [] := by
  have hmissing : ((r.missing.filter fun m => declared m.2.source.asStr).map
      fun m => Blocking.missing m.1 m.2) = [] ↔ ∀ target, ¬ r.Blocks target := by
    constructor
    · rintro h target ⟨d, hd⟩
      rw [GateReport.blocking, h] at hd
      simp at hd
    · intro h
      refine List.eq_nil_iff_forall_not_mem.2 fun b hb => ?_
      obtain ⟨m, -, rfl⟩ := List.mem_map.1 hb
      refine h m.1 ⟨m.2, ?_⟩
      rw [GateReport.blocking]
      simp only [List.mem_append]
      exact .inl (.inl (.inl (.inl hb)))
  rw [check, List.map_eq_nil_iff, GateReport.blocking]
  simp only [List.append_eq_nil_iff, List.map_eq_nil_iff (l := r.loaderMismatch),
    List.map_eq_nil_iff (l := r.mixinGaps), List.map_eq_nil_iff (l := r.versionIssues),
    List.map_eq_nil_iff (l := r.loaderVersionIssues), hmissing, and_assoc]

/-- A target blocks if the first edge that lacks it was declared. -/
theorem blocks_iff {target : String} : (gateReport s classify known cfg).Blocks target ↔
    ¬ Answered s cfg target ∧ ∃ q, (lackingOf s classify cfg target).head? = some q ∧
      declared q.2.source.asStr := by
  constructor
  · rintro ⟨d, hd⟩
    have hmem : (target, d) ∈ (gateReport s classify known cfg).missing ∧
        declared d.source.asStr = true := by
      rw [GateReport.blocking] at hd
      simpa using hd
    obtain ⟨hopen, q, hq, hsource⟩ := exists_mem_missing.1 ⟨d, hmem.1, rfl⟩
    exact ⟨hopen, q, hq, hsource ▸ hmem.2⟩
  · rintro ⟨hopen, q, hq, hdeclared⟩
    obtain ⟨d, hd, hsource⟩ := exists_mem_missing.2 ⟨hopen, q, hq, rfl⟩
    refine ⟨d, ?_⟩
    rw [GateReport.blocking]
    simp only [List.mem_append]
    refine .inl (.inl (.inl (.inl (List.mem_map.2 ⟨(target, d), List.mem_filter.2 ⟨hd, ?_⟩, rfl⟩))))
    rw [hsource]
    exact hdeclared

/-- What was declared binds. -/
theorem binds_of_declared {present : List Present} {e : RelationRow} (he : e.kind = .requires)
    (hdeclared : declared e.source.asStr) : Binds s classify present e := by
  refine ⟨he, fun h => ?_⟩
  obtain ⟨id, -, hdown⟩ := (Option.any_eq_true _ _).1 h
  obtain ⟨hguess, -⟩ := of_decide_eq_true hdown
  rw [hguess] at hdeclared
  exact absurd hdeclared (by decide)

/-- An edge that needs a target is one of those that lack it. -/
theorem Unmet.mem_lackingOf {target : String} (h : Unmet s cfg target) {q : Present × RelationRow}
    (hq : q ∈ edges s (presentMods s cfg.mods)) (htarget : q.2.target = target)
    (hkind : q.2.kind = .requires) (hdeclared : declared q.2.source.asStr) :
    q ∈ lackingOf s classify cfg target :=
  Resolve.mem_lackingOf.2 ⟨hq, binds_of_declared hkind hdeclared, h.1, htarget⟩

/-- What blocks is needed, and unmet. -/
theorem GateReport.Blocks.needed {target : String}
    (h : (gateReport s classify known cfg).Blocks target) :
    Unmet s cfg target ∧ Needed s cfg target := by
  obtain ⟨hanswered, q, hq, hdeclared⟩ := blocks_iff.1 h
  obtain ⟨hmem, hbinds, hopen, htarget⟩ := Resolve.mem_lackingOf.1 (List.mem_of_mem_head? hq)
  exact ⟨⟨hopen, hanswered⟩, q, hmem, htarget, hbinds.1, hdeclared⟩

/-- If no edge that lacks it was derived, a target that is needed blocks. -/
theorem Uniform.blocks (h : Uniform s classify cfg) {target : String} (hunmet : Unmet s cfg target)
    (hneeded : Needed s cfg target) : (gateReport s classify known cfg).Blocks target := by
  obtain ⟨q, hq, htarget, hkind, hdeclared⟩ := hneeded
  have hmem : q ∈ lackingOf s classify cfg target :=
    hunmet.mem_lackingOf hq htarget hkind hdeclared
  obtain ⟨q', hq'⟩ := Option.isSome_iff_exists.1 (List.isSome_head?.2 (List.ne_nil_of_mem hmem))
  refine blocks_iff.2 ⟨hunmet.2, q', hq', ?_⟩
  exact h target hunmet ⟨q, hq, htarget, hkind, hdeclared⟩ q' (List.mem_of_mem_head? hq')

/-! ## Rows of one mod -/

theorem byModId_of_head? {present : List Present} {b : Present}
    (h : (rowsOf present b.modId).head? = some b) : ∃ i, byModId present b.modId = some (b, i) := by
  rw [rowsOf, List.head?_filter, ← fst_byModId, Option.map_eq_some_iff] at h
  obtain ⟨⟨_, i⟩, hb, rfl⟩ := h
  exact ⟨i, hb⟩

theorem modId_of_head? {present : List Present} {b : Present} {id : ℕ}
    (h : (rowsOf present id).head? = some b) : b.modId = id :=
  of_decide_eq_true (List.mem_filter.1 (List.mem_of_mem_head? h)).2

/-- The row of a target is the first one of its mod. -/
theorem rowFor_eq_some {present : List Present} {target : String} {b : Present} :
    rowFor s present target = some b ↔
      s.modIdForSelector target = some b.modId ∧ (rowsOf present b.modId).head? = some b := by
  rw [rowFor, Option.map_bind, Option.bind_eq_some_iff]
  constructor
  · rintro ⟨id, hid, hb⟩
    have hhead : (rowsOf present id).head? = some b := by
      rw [rowsOf, List.head?_filter, ← fst_byModId]
      exact hb
    obtain rfl := modId_of_head? hhead
    exact ⟨hid, hhead⟩
  · rintro ⟨hid, hhead⟩
    obtain ⟨i, hi⟩ := byModId_of_head? hhead
    exact ⟨b.modId, hid, Option.map_eq_some_iff.2 ⟨_, hi, rfl⟩⟩

/-- An edge says that the version of a row is wrong if the row is the first one of its mod. -/
theorem exists_versionIssue {present : List Present} :
    (∃ q ∈ edges s present, (versionIssue? s classify present q).isSome) ↔
      ∃ b, (rowsOf present b.modId).head? = some b ∧ Behind s classify present b := by
  have hbinds : ∀ {e : RelationRow} {b : Present}, s.modIdForSelector e.target = some b.modId →
      (rowsOf present b.modId).head? = some b → (Binds s classify present e ↔
        e.kind = .requires ∧ ¬ inferredEdgeDowngraded e.source (classify b.modId b.sha1)) := by
    intro e b hid hhead
    obtain ⟨i, hi⟩ := byModId_of_head? hhead
    rw [Binds, hid, Option.any_some, classOf, hi]
  constructor
  · rintro ⟨q, hq, hissue⟩
    rw [versionIssue?] at hissue
    split_ifs at hissue with hb
    · rcases hrow : rowFor s present q.2.target with _ | b
      · rw [hrow] at hissue
        exact absurd hissue Bool.false_ne_true
      · obtain ⟨hid, hhead⟩ := rowFor_eq_some.1 hrow
        obtain ⟨hkind, hdown⟩ := (hbinds hid hhead).1 hb
        rw [hrow] at hissue
        exact ⟨b, hhead, q, hq, hkind, hid, hdown, hissue⟩
    · exact absurd hissue Bool.false_ne_true
  · rintro ⟨b, hhead, q, hq, hkind, hid, hdown, hissue⟩
    refine ⟨q, hq, ?_⟩
    rw [versionIssue?, if_pos ((hbinds hid hhead).2 ⟨hkind, hdown⟩), rowFor_eq_some.2 ⟨hid, hhead⟩]
    exact hissue

theorem versionIssues_eq_nil : (gateReport s classify known cfg).versionIssues = [] ↔
    ¬ ∃ b, (rowsOf (presentMods s cfg.mods) b.modId).head? = some b ∧
      Behind s classify (presentMods s cfg.mods) b := by
  have hnil : (gateReport s classify known cfg).versionIssues = [] ↔
      (walk s classify (presentMods s cfg.mods)
        (placeMods s cfg.mods).pinnedProjects).versionIssues = [] :=
    eq_nil_iff_of_perm (List.perm_insertionSort ..)
  rw [hnil, versionIssues_walk, List.filterMap_eq_nil_iff, ← exists_versionIssue]
  push Not
  simp only [Option.isSome_iff_ne_none, ne_eq, not_not]

/-- The rows of which a class is missing are the last ones of their mods. -/
theorem mixinGaps_eq_nil : (gateReport s classify known cfg).mixinGaps = [] ↔
    ¬ ∃ b, (rowsOf (presentMods s cfg.mods) b.modId).getLast? = some b ∧
      Torn s (presentMods s cfg.mods) b := by
  have hlast : ∀ id, lastOf (presentMods s cfg.mods) id =
      (rowsOf (presentMods s cfg.mods) id).getLast? := by
    intro id
    rw [lastOf, rowsOf, ← List.head?_reverse, ← List.filter_reverse, List.head?_filter]
  have hgap : (∃ g, g ∈ (gateReport s classify known cfg).mixinGaps) ↔
      ∃ m needed, ∃ g, (m, g) ∈ mixinGaps s (presentMods s cfg.mods) ∧ g.needed = needed := by
    constructor
    · rintro ⟨⟨m, g⟩, hg⟩
      exact ⟨m, g.needed, g, hg, rfl⟩
    · rintro ⟨m, needed, g, hg, -⟩
      exact ⟨(m, g), hg⟩
  rw [List.eq_nil_iff_forall_not_mem, ← not_exists, hgap]
  simp only [reports_iff, hlast]
  refine not_congr ⟨?_, ?_⟩
  · rintro ⟨m, needed, owner, b, hasks, hb, hlacks⟩
    have hid : b.modId = owner :=
      of_decide_eq_true (List.mem_filter.1 (List.mem_of_mem_getLast? hb)).2
    subst hid
    exact ⟨b, hb, m, needed, hasks, hlacks⟩
  · rintro ⟨b, hb, m, needed, hasks, hlacks⟩
    exact ⟨m, needed, b.modId, b, hasks, hb, hlacks⟩

/-- If no needed target has a derived edge, the rows of each mod decide where nothing firm does. -/
theorem Uniform.blocking_eq_nil (h : Uniform s classify cfg) :
    (check (gateReport s classify known cfg)).blocking = [] ↔
      ¬ Firm s classify known cfg ∧ ∀ id, ¬ Faulted s classify (presentMods s cfg.mods)
        (rowsOf (presentMods s cfg.mods) id) := by
  have hblocks : (∀ target, ¬ (gateReport s classify known cfg).Blocks target) ↔
      ¬ ∃ target, Unmet s cfg target ∧ Needed s cfg target := by
    rw [not_exists]
    exact forall_congr' fun target => not_congr
      ⟨GateReport.Blocks.needed, fun hneeded => h.blocks hneeded.1 hneeded.2⟩
  have hrows : (∀ id, ¬ Faulted s classify (presentMods s cfg.mods)
        (rowsOf (presentMods s cfg.mods) id)) ↔
      (gateReport s classify known cfg).mixinGaps = [] ∧
        (gateReport s classify known cfg).versionIssues = [] := by
    rw [mixinGaps_eq_nil, versionIssues_eq_nil]
    constructor
    · intro hno
      exact ⟨fun ⟨b, hb, htorn⟩ => hno b.modId (.inr ⟨b, hb, htorn⟩),
        fun ⟨b, hb, hbehind⟩ => hno b.modId (.inl ⟨b, hb, hbehind⟩)⟩
    · rintro ⟨htorn, hbehind⟩ id (⟨b, hb, hrow⟩ | ⟨b, hb, hrow⟩)
      · obtain rfl := modId_of_head? hb
        exact hbehind ⟨b, hb, hrow⟩
      · obtain rfl := of_decide_eq_true (List.mem_filter.1 (List.mem_of_mem_getLast? hb)).2
        exact htorn ⟨b, hb, hrow⟩
  rw [Resolve.blocking_eq_nil, hblocks, hrows, Firm, not_or, not_or, not_ne_iff, not_ne_iff]
  constructor
  · rintro ⟨hno, hloader, hgaps, hissues, hwindows⟩
    exact ⟨⟨hno, hloader, hwindows⟩, hgaps, hissues⟩
  · rintro ⟨⟨hno, hloader, hwindows⟩, hgaps, hissues⟩
    exact ⟨hno, hloader, hgaps, hissues, hwindows⟩

/-! ## In any order -/

section Perm

variable {mods : List DeclaredMod} (hm : mods.Perm cfg.mods)

include hm

theorem unmet_perm {target : String} :
    Unmet s { cfg with mods } target ↔ Unmet s cfg target :=
  and_congr (open_congr (hm.filterMap _) (hm.filterMap _)) (not_congr (answered_perm hm))

theorem needed_perm {target : String} :
    Needed s { cfg with mods } target ↔ Needed s cfg target :=
  exists_congr fun _ => and_congr_left fun _ => (edges_perm (hm.filterMap _)).mem_iff

theorem uniform_perm (h : Uniform s classify cfg) : Uniform s classify { cfg with mods } := by
  intro target hunmet hneeded q hq
  refine h target ((unmet_perm hm).1 hunmet) ((needed_perm hm).1 hneeded) q ?_
  exact ((packLacking_perm hm).filter _).mem_iff.1 hq

theorem loaderMismatch_perm :
    (gateReport s classify known { cfg with mods }).loaderMismatch = [] ↔
      (gateReport s classify known cfg).loaderMismatch = [] := by
  have hnil : ∀ c : PackConfig, (gateReport s classify known c).loaderMismatch = [] ↔
      ∀ a ∈ presentMods s c.mods, mismatch s c.loader.name ((walk s classify (presentMods s c.mods)
        (placeMods s c.mods).pinnedProjects).provides.map Prod.fst) a = none := by
    intro c
    rw [← List.filterMap_eq_nil_iff]
    exact eq_nil_iff_of_perm (List.perm_insertionSort ..)
  have hprovided : ∀ capability, capability ∈ (walk s classify (presentMods s mods)
        (placeMods s mods).pinnedProjects).provides.map Prod.fst ↔
      capability ∈ (walk s classify (presentMods s cfg.mods)
        (placeMods s cfg.mods).pinnedProjects).provides.map Prod.fst := by
    intro capability
    rw [mem_provides, mem_provides]
    exact exists_congr fun _ => and_congr_left fun _ => (edges_perm (hm.filterMap _)).mem_iff
  have hrow : ∀ a, a ∈ presentMods s mods ↔ a ∈ presentMods s cfg.mods :=
    fun _ => (hm.filterMap _).mem_iff
  rw [hnil, hnil]
  simp only [mismatch, hprovided, hrow]

theorem loaderVersionIssues_perm :
    (gateReport s classify known { cfg with mods }).loaderVersionIssues = [] ↔
      (gateReport s classify known cfg).loaderVersionIssues = [] := by
  refine eq_nil_iff_of_perm ?_
  refine (List.perm_insertionSort ..).trans (List.Perm.trans ?_ (List.perm_insertionSort ..).symm)
  exact hm.flatMap_right _

theorem firm_perm : Firm s classify known { cfg with mods } ↔ Firm s classify known cfg := by
  refine or_congr (exists_congr fun target => ?_) (or_congr ?_ ?_)
  · exact and_congr (unmet_perm hm) (needed_perm hm)
  · exact not_congr (loaderMismatch_perm hm)
  · exact not_congr (loaderVersionIssues_perm hm)

theorem faulted_perm {rows : List Present} :
    Faulted s classify (presentMods s mods) rows ↔
      Faulted s classify (presentMods s cfg.mods) rows := by
  have hp : (presentMods s mods).Perm (presentMods s cfg.mods) := hm.filterMap _
  have hasks : ∀ {m needed owner}, Asks s (presentMods s mods) m needed owner ↔
      Asks s (presentMods s cfg.mods) m needed owner :=
    ⟨fun h => h.of_perm hp.symm, fun h => h.of_perm hp⟩
  simp only [Faulted, Behind, Torn, (edges_perm hp).mem_iff, hasks]

end Perm

/-! ## What a build reads -/

/-- What of a row the registry is asked for. -/
def bareRow (m : DeclaredMod) : DeclaredMod :=
  { m with display := none, slug := none, pulled := false }

theorem gateReport_bareRow : gateReport s classify known { cfg with mods := cfg.mods.map bareRow } =
    gateReport s classify known cfg := by
  have hplaced : placeMods s (cfg.mods.map bareRow) = placeMods s cfg.mods := by
    rw [placeMods, placeMods, presentMods, presentMods, List.filterMap_map, List.filterMap_map,
      List.filterMap_map, List.filterMap_map]
    rfl
  have hwindows : loaderWindows known { cfg with mods := cfg.mods.map bareRow } =
      loaderWindows known cfg := by
    rw [loaderWindows, loaderWindows]
    simp only [List.flatMap_map, List.map_map]
    rfl
  rw [gateReport, gateReport, resolvePack, resolvePack, hwindows]
  dsimp only
  rw [hplaced, List.length_map]

/-- What the jars add is not read. -/
theorem gateReport_prepare {cfg' : PackConfig} (h : prepare X cfg = .ok cfg') :
    gateReport s classify known cfg' = gateReport s classify known cfg := by
  obtain ⟨l, -, hcfg, hread⟩ := prepare_spec h
  have hbare : cfg'.mods.map bareRow = cfg.mods.map bareRow := by
    have hof := congrArg (List.map fun r : String × SourceDecl × Bool × List Requirement =>
      ({ filename := r.1, source := r.2.1, defaultEnabled := r.2.2.1, display := none, slug := none
         pulled := false } : DeclaredMod)) hread
    rw [List.map_map, List.map_map, List.map_map] at hof
    exact hof
  rw [← gateReport_bareRow, hbare, hcfg]
  exact gateReport_bareRow

/-- A build that is blocked fails. -/
theorem checkBuild_error (h : (check (gateReport s classify known cfg)).blocking ≠ []) :
    ∃ e, checkBuild X s classify known false false cfg = .error e := by
  rcases hprepare : prepare X cfg with e | cfg'
  · refine ⟨e, ?_⟩
    rw [checkBuild, hprepare]
    rfl
  · have hblocked : ¬ ((check (gateReport s classify known cfg)).blocking = [] ∨ false = true) := by
      rintro (hno | hno)
      · exact h hno
      · exact Bool.false_ne_true hno
    have hgate : checkBuild X s classify known false false cfg =
        gateBuild false false (check (gateReport s classify known cfg')) := by
      rw [checkBuild, hprepare]
      rfl
    rw [gateReport_prepare hprepare, gateBuild, if_neg hblocked, if_neg Bool.false_ne_true] at hgate
    exact ⟨_, hgate⟩

/-! ## The condition is needed -/

/-- Of the rows of a list, the only one that is looked for at its beginning is found first. -/
theorem head?_filter_append {α : Type} {l l' : List α} {p q : α → Bool} {a : α} (ha : a ∈ l)
    (hp : p a) (hq : q a) (hone : ∀ b ∈ l, q b → b = a) :
    (((l ++ l').filter p).filter q).head? = some a := by
  have hfound : ((l.filter p).filter q).head? = some a := by
    have hmem : a ∈ (l.filter p).filter q := List.mem_filter.2 ⟨List.mem_filter.2 ⟨ha, hp⟩, hq⟩
    obtain ⟨b, hb⟩ := Option.isSome_iff_exists.1 (List.isSome_head?.2 (List.ne_nil_of_mem hmem))
    obtain ⟨hbp, hbq⟩ := List.mem_filter.1 (List.mem_of_mem_head? hb)
    rw [hb, hone b (List.mem_of_mem_filter hbp) hbq]
  rw [List.filter_append, List.filter_append, List.head?_append, hfound, Option.some_or]

theorem Steadfast.uniform (h : Steadfast X s classify known cfg) : Uniform s classify cfg := by
  intro target hunmet hneeded q hq
  obtain ⟨hmem, -, -, htarget⟩ := mem_lackingOf.1 hq
  obtain ⟨hrow, he⟩ := mem_edges.1 hmem
  -- In the order in which its row comes first, the edge is the one that the verdict is about.
  obtain ⟨mods, rest, hm, hfirst⟩ := exists_perm_cons hrow
  have hq' : q ∈ lackingOf s classify { cfg with mods } target :=
    ((packLacking_perm hm).filter _).mem_iff.2 hq
  obtain ⟨hblocks, -⟩ :=
    (h mods hm).1 target ((unmet_perm hm).2 hunmet) ((needed_perm hm).2 hneeded)
  obtain ⟨-, q', hhead, hdeclared⟩ := blocks_iff.1 hblocks
  have hedges : edges s (presentMods s mods) =
      (judged s q.1).map (fun e => (q.1, e)) ++ edges s rest := by
    rw [hfirst, edges, List.flatMap_cons]
    rfl
  rw [lackingOf, List.mem_filter, packLacking, lacking, List.mem_filter] at hq'
  rw [lackingOf, packLacking, lacking] at hhead
  dsimp only at hq' hhead
  have hone : ∀ p ∈ (judged s q.1).map (fun e => (q.1, e)),
      decide (p.2.target = target) → p = q := by
    intro p hp hptarget
    obtain ⟨e, hejudged, rfl⟩ := List.mem_map.1 hp
    obtain rfl := eq_of_mem_firsts hejudged he ((of_decide_eq_true hptarget).trans htarget.symm)
    rfl
  rw [hedges, head?_filter_append (List.mem_map.2 ⟨q.2, he, rfl⟩) hq'.1.2 hq'.2 hone,
    Option.some_inj] at hhead
  subst hhead
  exact hdeclared

/-- Any order of the rows that are placed is one of the rows. -/
theorem exists_perm_presentMods {present : List Present}
    (h : (presentMods s cfg.mods).Perm present) :
    ∃ mods : List DeclaredMod, mods.Perm cfg.mods ∧ presentMods s mods = present :=
  exists_perm_filterMap h

/-- If the verdict is the same one in every order, the rows of a mod do not change it. -/
theorem Steadfast.settled (h : Steadfast X s classify known cfg) :
    Settled s classify known cfg := by
  have hverdict : ∀ present : List Present, (presentMods s cfg.mods).Perm present →
      ¬ Firm s classify known cfg →
      ((∀ id, ¬ Faulted s classify (presentMods s cfg.mods) (rowsOf present id)) ↔
        (check (gateReport s classify known cfg)).blocking = []) := by
    intro present hperm hfirm
    obtain ⟨mods, hm, rfl⟩ := exists_perm_presentMods hperm
    rw [← (h mods hm).2, (uniform_perm hm h.uniform).blocking_eq_nil, firm_perm hm]
    simp only [faulted_perm hm, hfirm, not_false_iff, true_and]
  by_cases hfirm : Firm s classify known cfg
  · exact .inl hfirm
  by_cases hclean : ∀ b ∈ presentMods s cfg.mods,
      ¬ Behind s classify (presentMods s cfg.mods) b ∧ ¬ Torn s (presentMods s cfg.mods) b
  · exact .inr (.inl hclean)
  refine .inr (.inr ?_)
  by_contra hevery
  push Not at hclean hevery
  -- The rows of every mod can be put in an order in which they do not block.
  choose rows hrows hnot using hevery
  obtain ⟨present, hperm, hfilter⟩ := exists_perm_filter_eq Present.modId hrows
  have hpass : (check (gateReport s classify known cfg)).blocking = [] := by
    refine (hverdict present hperm.symm hfirm).1 fun id => ?_
    rw [rowsOf, hfilter]
    exact hnot id
  -- And a row that is at fault can be put first, or last.
  obtain ⟨b, hb, hfault⟩ := hclean
  by_cases hbehind : Behind s classify (presentMods s cfg.mods) b
  · obtain ⟨before, after, hsplit⟩ := List.append_of_mem hb
    have hfront : (presentMods s cfg.mods).Perm (b :: (before ++ after)) :=
      hsplit ▸ List.perm_middle
    refine (hverdict _ hfront hfirm).2 hpass b.modId (.inl ⟨b, ?_, hbehind⟩)
    rw [rowsOf, List.filter_cons_of_pos (a := b) (decide_eq_true rfl), List.head?_cons]
  · obtain ⟨before, after, hsplit⟩ := List.append_of_mem hb
    have hback : (presentMods s cfg.mods).Perm (before ++ after ++ [b]) :=
      (hsplit ▸ List.perm_middle).trans (List.perm_append_singleton b (before ++ after)).symm
    refine (hverdict _ hback hfirm).2 hpass b.modId (.inr ⟨b, ?_, hfault hbehind⟩)
    rw [rowsOf, List.filter_append, List.filter_cons_of_pos (a := b) (decide_eq_true rfl),
      List.filter_nil, List.getLast?_concat]

/-- The rows of a pack that has every mod once settle nothing. -/
theorem settled_of_nodup (hn : ((presentMods s cfg.mods).map Present.modId).Nodup) :
    Settled s classify known cfg := by
  by_cases hclean : ∀ b ∈ presentMods s cfg.mods,
      ¬ Behind s classify (presentMods s cfg.mods) b ∧ ¬ Torn s (presentMods s cfg.mods) b
  · exact .inr (.inl hclean)
  push Not at hclean
  obtain ⟨b, hb, hfault⟩ := hclean
  have hone : ∀ p ∈ rowsOf (presentMods s cfg.mods) b.modId, p = b := by
    intro p hp
    obtain ⟨hmem, hid⟩ := List.mem_filter.1 hp
    exact eq_of_modId_eq hn hmem hb (of_decide_eq_true hid)
  refine .inr (.inr ⟨b.modId, fun rows hrows => ?_⟩)
  have hmem : b ∈ rows := hrows.mem_iff.2 (List.mem_filter.2 ⟨hb, decide_eq_true rfl⟩)
  have hhead : rows.head? = some b := by
    obtain ⟨p, hp⟩ := Option.isSome_iff_exists.1 (List.isSome_head?.2 (List.ne_nil_of_mem hmem))
    rw [hp, hone p (hrows.mem_iff.1 (List.mem_of_mem_head? hp))]
  have hlast : rows.getLast? = some b := by
    obtain ⟨p, hp⟩ := Option.isSome_iff_exists.1 (List.getLast?_isSome.2 (List.ne_nil_of_mem hmem))
    rw [hp, hone p (hrows.mem_iff.1 (List.mem_of_mem_getLast? hp))]
  by_cases hbehind : Behind s classify (presentMods s cfg.mods) b
  · exact .inl ⟨b, hhead, hbehind⟩
  · exact .inr ⟨b, hlast, hfault hbehind⟩

/-! ## The condition is enough -/

theorem Uniform.steadfast (h : Uniform s classify cfg) (hsettled : Settled s classify known cfg) :
    Steadfast X s classify known cfg := by
  intro mods hm
  have hmods := uniform_perm hm h
  constructor
  · intro target hunmet hneeded
    have hblocks : (gateReport s classify known { cfg with mods }).Blocks target :=
      hmods.blocks hunmet hneeded
    refine ⟨hblocks, checkBuild_error fun hnil => ?_⟩
    exact (Resolve.blocking_eq_nil.1 hnil).1 target hblocks
  · have hrows : ∀ id, (rowsOf (presentMods s mods) id).Perm (rowsOf (presentMods s cfg.mods) id) :=
      fun _ => (hm.filterMap _).filter _
    rw [hmods.blocking_eq_nil, h.blocking_eq_nil, firm_perm hm]
    simp only [faulted_perm hm]
    rcases hsettled with hfirm | hclean | ⟨id, hid⟩
    · exact iff_of_false (fun hno => hno.1 hfirm) fun hno => hno.1 hfirm
    · -- No row is at fault, so none is in any order.
      have hno : ∀ rows : List Present, (∀ b ∈ rows, b ∈ presentMods s cfg.mods) →
          ¬ Faulted s classify (presentMods s cfg.mods) rows := by
        rintro rows hsub (⟨b, hb, hbehind⟩ | ⟨b, hb, htorn⟩)
        · exact (hclean b (hsub b (List.mem_of_mem_head? hb))).1 hbehind
        · exact (hclean b (hsub b (List.mem_of_mem_getLast? hb))).2 htorn
      refine and_congr_right fun _ => iff_of_true (fun id => hno _ fun b hb => ?_)
        fun id => hno _ fun b hb => List.mem_of_mem_filter hb
      exact List.mem_of_mem_filter ((hrows id).mem_iff.1 hb)
    · exact iff_of_false (fun hno => hno.2 id (hid _ (hrows id)))
        fun hno => hno.2 id (hid _ (List.Perm.refl _))

/-- In every order of its rows a pack that needs what it does not have is stopped, and the verdict
is the same one, if and only if no edge that lacks a needed target was derived, and the rows of mods
that it has several of settle nothing. -/
theorem steadfast_iff (X : Smrt.Shelf) (s : Registry.Shelf)
    (classify : ℕ → Option String → Classification)
    (known : String → Option (List (String × String))) (cfg : PackConfig) :
    Steadfast X s classify known cfg ↔ Uniform s classify cfg ∧ Settled s classify known cfg :=
  ⟨fun h => ⟨h.uniform, h.settled⟩, fun h => h.1.steadfast h.2⟩

/-! ## A dependency that one mod declares and another one seems to have -/

/-- A library, and two mods of which the first one refers to it, and the second one declares that it
needs it. -/
def librarylessShelf : Registry.Shelf :=
  let row (modId : ℕ) (sha1 : String) : VersionRow :=
    { modId, version := "1.0", sha1, filename := none, mcVersions := [], releaseId := none
      source := .jarMeta }
  let edge (modId : ℕ) (source : Registry.Source) (confidence : ℕ) : RelationRow :=
    { fromModId := modId
      fromVersionId := some modId
      target := "somelib"
      range := none
      kind := .requires
      severity := none
      source
      confidence }
  { Tables.empty with
    mods := ((Table.empty.insert ⟨some "addon", none, .jarMeta⟩).insert
      ⟨some "machine", none, .jarMeta⟩).insert ⟨some "somelib", none, .jarMeta⟩
    aliases := [⟨3, .modid, "somelib"⟩]
    versions := (Table.empty.insert (row 1 "000000000000000000000000000000000000000a")).insert
      (row 2 "000000000000000000000000000000000000000b")
    relations := [edge 1 .inferred 40, edge 2 .jarMeta 60]
    loaderParents := []
    loaderProvides := []
    modrinthVersionId := fun _ => none
    classDigest := fun _ => .absent }

/-- A pack with the two mods, the one that only refers to the library first. -/
def librarylessPack : PackConfig :=
  let row (filename sha1 : String) : DeclaredMod :=
    { filename
      defaultEnabled := true
      source := .smrtCache sha1
      display := none
      slug := none
      pulled := false }
  { PackConfig.empty "machines" with
    mods := [row "addon.jar" "000000000000000000000000000000000000000a",
      row "machine.jar" "000000000000000000000000000000000000000b"] }

/-- A mirror that holds no jar. -/
def noJars : Smrt.Shelf where
  storage := "data"
  modrinth _ _ := .error "no such version"
  registry _ := none
  cacheJar _ := .error "no such jar"
  staticFile _ _ := .error "no such file"
  sha1Hex _ := ""
  mcmodInfo _ := none
  placed _ := none
  bare _ := unclassified 0 none

/-- The library is needed and is not there, and nothing blocks. -/
theorem not_steadfast_librarylessPack :
    ¬ Steadfast noJars librarylessShelf unclassified (fun _ => none) librarylessPack := by
  intro h
  have hunmet : Unmet librarylessShelf librarylessPack "somelib" := by decide +kernel
  have hneeded : Needed librarylessShelf librarylessPack "somelib" := by decide +kernel
  have hnone : (gateReport librarylessShelf unclassified (fun _ => none)
      librarylessPack).blocking = [] := by decide +kernel
  obtain ⟨⟨d, hd⟩, -⟩ := (h librarylessPack.mods (List.Perm.refl _)).1 "somelib" hunmet hneeded
  exact absurd (hnone ▸ hd : _ ∈ []) List.not_mem_nil

end Resolve

end Smrt
