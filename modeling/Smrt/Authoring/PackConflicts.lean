import Smrt.Authoring.Resolve

/-!
# Conflicts of a pack

Two rows of a pack clash if one of them has a conflicts edge that names the other one, and whose
window, as far as it can be read, its version is in (`Clashes`). What is reported is something else:
of each row and target the first edge is looked at, whatever it says, and no window is
(`mem_reported`). Both agree, in every order of the rows and of the edges, under conditions on the
edges that lead (`Sound`; `conflicts_iff`).
-/

namespace Smrt

namespace Resolve

open Registry

/-! ## What is reported -/

/-- An edge that says that two rows of the pack do not go together, with their places. -/
structure Raised where
  a : Present
  ai : ℕ
  edge : RelationRow
  b : Present
  bi : ℕ

namespace Raised

def places (r : Raised) : ℕ × ℕ := placePair r.ai r.bi

def conflict (r : Raised) : ActiveConflict where
  a := r.a
  b := r.b
  hard := r.edge.severity ≠ some .soft
  source := r.edge.source

end Raised

/-- Both rows are installed by default. -/
def ActiveConflict.live (c : ActiveConflict) : Bool := c.a.defaultEnabled ∧ c.b.defaultEnabled

/-- A conflict is between two rows, whichever said so. -/
def ActiveConflict.Between (c : ActiveConflict) (a b : Present) : Prop :=
  c.a = a ∧ c.b = b ∨ c.a = b ∧ c.b = a

section Walk

variable (s : Registry.Shelf) (classify : ℕ → Option String → Classification) (present : List Present)
  (pinned : List String)

def raise? (ai : ℕ) (a : Present) (e : RelationRow) : Option Raised :=
  match e.kind with
  | .conflicts =>
    ((s.modIdForSelector e.target).bind (byModId present)).map fun q => ⟨a, ai, e, q.1, q.2⟩
  | _ => none

/-- What the edges of one row raise. -/
def raisedBy (ai : ℕ) (a : Present) : List Raised := (judged s a).filterMap (raise? s present ai a)

def raised : List Raised := present.zipIdx.flatMap fun a => raisedBy s present a.2 a.1

/-- The conflicts that are reported: of each two rows the one that is raised first. -/
def reported : List ActiveConflict :=
  (firsts Raised.places [] (raised s present)).map Raised.conflict

variable {s classify present pinned}

/-- What the walk keeps of conflicts. -/
def Findings.found (f : Findings) : List (ℕ × ℕ) × List ActiveConflict × List ActiveConflict :=
  (f.conflictSeen, f.conflicts, f.optionalConflicts)

/-- Places are compared as pairs of numbers. -/
local instance lawfulBEq_places : LawfulBEq (ℕ × ℕ) := inferInstance

/-- A conflict that is raised is kept, unless there is one between the two rows. -/
def keep (found : List (ℕ × ℕ) × List ActiveConflict × List ActiveConflict) (r : Raised) :
    List (ℕ × ℕ) × List ActiveConflict × List ActiveConflict :=
  if r.places ∈ found.1 then found
  else if r.conflict.live then (r.places :: found.1, found.2.1 ++ [r.conflict], found.2.2)
  else (r.places :: found.1, found.2.1, found.2.2 ++ [r.conflict])

theorem found_judgeRequires (a : Present) (f : Findings) (e : RelationRow) :
    (judgeRequires s classify present pinned a f e).found = f.found := by
  rw [judgeRequires]
  dsimp only
  by_cases hguess : ((s.modIdForSelector e.target).any fun id =>
      inferredEdgeDowngraded e.source (classOf s classify present id)) = true
  · rw [if_pos hguess]
  · rw [if_neg hguess]
    rcases (s.modIdForSelector e.target).bind (byModId present) with _ | ⟨b, _⟩
    · dsimp only
      split_ifs <;> rfl
    · rcases e.range with _ | range
      · dsimp only
        split_ifs <;> rfl
      · dsimp only
        rcases b.version.bind fun v => Semver.inRange v range with _ | _ | _ <;> dsimp only <;>
          split_ifs <;> rfl

theorem found_judgeConflicts (ai : ℕ) (a : Present) (f : Findings) (e : RelationRow) :
    (judgeConflicts s present ai a f e).found =
      ((((s.modIdForSelector e.target).bind (byModId present)).map fun q =>
        (⟨a, ai, e, q.1, q.2⟩ : Raised)).toList.foldl keep f.found) := by
  rw [judgeConflicts]
  rcases (s.modIdForSelector e.target).bind (byModId present) with _ | ⟨b, bi⟩
  · rfl
  · dsimp only [Option.map_some, Option.toList_some, List.foldl_cons, List.foldl_nil]
    generalize hr : (⟨a, ai, e, b, bi⟩ : Raised) = r
    have hplaces : r.places = placePair ai bi := hr ▸ rfl
    have hlive : r.conflict.live = true ↔ a.defaultEnabled ∧ b.defaultEnabled := hr ▸ decide_eq_true_iff
    rw [keep, hplaces]
    by_cases hseen : placePair ai bi ∈ f.conflictSeen
    · rw [if_pos hseen]
      exact (if_pos hseen).symm
    · rw [if_neg hseen]
      refine Eq.trans ?_ (if_neg hseen).symm
      by_cases hon : a.defaultEnabled ∧ b.defaultEnabled
      · rw [if_pos hon, if_pos (hlive.2 hon), ← hr]
        rfl
      · rw [if_neg hon, if_neg fun h => hon (hlive.1 h), ← hr]
        rfl

/-- Of the edges, those that raise a conflict change what is kept of conflicts. -/
theorem found_judge (ai : ℕ) (a : Present) (f : Findings) (e : RelationRow) :
    (judge s classify present pinned ai a f e).found =
      ((raise? s present ai a e).toList.foldl keep f.found) := by
  rw [judge, raise?]
  rcases e.kind with _ | _ | _ | _ | _
  · exact found_judgeRequires a f e
  · exact found_judgeConflicts ai a f e
  · rfl
  · rfl
  · dsimp only
    split_ifs <;> rfl

theorem found_foldl_judge (ai : ℕ) (a : Present) (f : Findings) (es : List RelationRow) :
    (es.foldl (judge s classify present pinned ai a) f).found =
      (es.filterMap (raise? s present ai a)).foldl keep f.found := by
  induction es generalizing f with
  | nil => rfl
  | cons e es ih =>
    rw [List.foldl_cons, ih, found_judge, List.filterMap_cons]
    rcases raise? s present ai a e with _ | r <;> rfl

variable (s classify present pinned) in
theorem found_walk : (walk s classify present pinned).found =
    (raised s present).foldl keep ([], [], []) := by
  have hrun : ∀ (l : List (Present × ℕ)) (f : Findings),
      (l.foldl (fun f a => (judged s a.1).foldl (judge s classify present pinned a.2 a.1) f) f).found =
        (l.flatMap fun a => raisedBy s present a.2 a.1).foldl keep f.found := by
    intro l
    induction l with
    | nil => exact fun _ => rfl
    | cons a l ih =>
      intro f
      rw [List.foldl_cons, ih, found_foldl_judge, List.flatMap_cons, List.foldl_append]
      rfl
  exact hrun _ _

/-- Of the conflicts between two rows the first one is kept. -/
theorem foldl_keep (l : List Raised) (seen : List (ℕ × ℕ)) (cs os : List ActiveConflict) :
    (l.foldl keep (seen, cs, os)).2 =
      (cs ++ ((firsts Raised.places seen l).map Raised.conflict).filter ActiveConflict.live,
        os ++ ((firsts Raised.places seen l).map Raised.conflict).filter fun c => !c.live) := by
  induction l generalizing seen cs os with
  | nil => rw [firsts, List.map_nil, List.filter_nil, List.filter_nil, List.append_nil,
      List.append_nil, List.foldl_nil]
  | cons r l ih =>
    rw [List.foldl_cons, keep, firsts]
    dsimp only
    split_ifs with hseen hlive
    · exact ih ..
    · rw [ih, List.map_cons, List.filter_cons_of_pos hlive, List.filter_cons_of_neg, List.append_assoc]
      · rfl
      · rw [hlive]
        exact Bool.false_ne_true
    · rw [ih, List.map_cons, List.filter_cons_of_neg hlive, List.filter_cons_of_pos, List.append_assoc]
      · rfl
      · rw [Bool.eq_false_of_not_eq_true hlive]
        rfl

variable (s classify present pinned) in
theorem conflicts_walk : (walk s classify present pinned).conflicts =
    (reported s present).filter ActiveConflict.live := by
  have h := congrArg (fun found => found.2.1) (found_walk s classify present pinned)
  exact h.trans (congrArg Prod.fst (foldl_keep ..))

variable (s classify present pinned) in
theorem optionalConflicts_walk : (walk s classify present pinned).optionalConflicts =
    (reported s present).filter fun c => !c.live := by
  have h := congrArg (fun found => found.2.2) (found_walk s classify present pinned)
  exact h.trans (congrArg Prod.snd (foldl_keep ..))

end Walk

/-! ## The edges that are raised -/

/-- An edge that is looked at says that a row does not go with another one. -/
def Names (s : Registry.Shelf) (a b : Present) (e : RelationRow) : Prop :=
  e ∈ judged s a ∧ e.kind = .conflicts ∧ s.modIdForSelector e.target = some b.modId

theorem placePair_eq_iff {i j k l : ℕ} :
    placePair i j = placePair k l ↔ i = k ∧ j = l ∨ i = l ∧ j = k := by
  rw [placePair, placePair]
  split_ifs <;> rw [Prod.mk.injEq] <;> omega

section Rows

variable {s : Registry.Shelf} {present : List Present}

theorem byModId_eq_some {id : ℕ} {q : Present × ℕ} (h : byModId present id = some q) :
    present[q.2]? = some q.1 ∧ q.1.modId = id :=
  ⟨List.mem_zipIdx_iff_getElem?.1 (List.mem_of_find?_eq_some h),
    of_decide_eq_true (List.find?_some (p := fun q : Present × ℕ => q.1.modId = id) h)⟩

theorem raise?_eq_some {ai : ℕ} {a : Present} {e : RelationRow} {r : Raised} :
    raise? s present ai a e = some r ↔ e.kind = .conflicts ∧
      ∃ q, (s.modIdForSelector e.target).bind (byModId present) = some q ∧ ⟨a, ai, e, q.1, q.2⟩ = r := by
  rw [raise?]
  by_cases hk : e.kind = .conflicts
  · rw [hk]
    exact Option.map_eq_some_iff.trans (and_iff_right rfl).symm
  · refine iff_of_false ?_ fun h => hk h.1
    rcases hk' : e.kind with _ | _ | _ | _ | _ <;> first | exact absurd hk' hk | exact nofun

theorem of_mem_raised {r : Raised} (h : r ∈ raised s present) :
    present[r.ai]? = some r.a ∧ present[r.bi]? = some r.b ∧ Names s r.a r.b r.edge := by
  obtain ⟨⟨a, ai⟩, ha, h⟩ := List.mem_flatMap.1 h
  obtain ⟨e, he, h⟩ := List.mem_filterMap.1 h
  obtain ⟨hkind, q, hq, rfl⟩ := raise?_eq_some.1 h
  obtain ⟨id, hid, hq⟩ := Option.bind_eq_some_iff.1 hq
  obtain ⟨hb, rfl⟩ := byModId_eq_some hq
  exact ⟨List.mem_zipIdx_iff_getElem?.1 ha, hb, he, hkind, hid⟩

theorem mem_of_mem_raised {r : Raised} (h : r ∈ raised s present) : r.a ∈ present ∧ r.b ∈ present := by
  obtain ⟨ha, hb, -⟩ := of_mem_raised h
  exact ⟨List.mem_of_getElem? ha, List.mem_of_getElem? hb⟩

section Once

variable (hn : (present.map Present.modId).Nodup)

include hn

theorem eq_of_modId_eq {a b : Present} (ha : a ∈ present) (hb : b ∈ present)
    (h : a.modId = b.modId) : a = b := List.inj_on_of_nodup_map hn ha hb h

theorem eq_of_getElem? {a : Present} {i j : ℕ} (hi : present[i]? = some a)
    (hj : present[j]? = some a) : i = j := by
  obtain ⟨hi', -⟩ := List.getElem?_eq_some_iff.1 hi
  exact (List.getElem?_inj hi' (List.Nodup.of_map _ hn)).1 (hi.trans hj.symm)

theorem exists_byModId {b : Present} (hb : b ∈ present) :
    ∃ bi, byModId present b.modId = some (b, bi) := by
  obtain ⟨i, hi⟩ := List.mem_iff_getElem?.1 hb
  have hsome : (byModId present b.modId).isSome := by
    rw [byModId, List.find?_isSome]
    exact ⟨(b, i), List.mem_zipIdx_iff_getElem?.2 hi, decide_eq_true rfl⟩
  obtain ⟨⟨b', bi⟩, hq⟩ := Option.isSome_iff_exists.1 hsome
  obtain ⟨hb', hid⟩ := byModId_eq_some hq
  obtain rfl := eq_of_modId_eq hn (List.mem_of_getElem? hb') hb hid
  exact ⟨bi, hq⟩

theorem exists_mem_raised {a b : Present} {e : RelationRow} (ha : a ∈ present) (hb : b ∈ present)
    (h : Names s a b e) : ∃ r ∈ raised s present, r.a = a ∧ r.b = b ∧ r.edge = e := by
  obtain ⟨he, hkind, hid⟩ := h
  obtain ⟨ai, hai⟩ := List.mem_iff_getElem?.1 ha
  obtain ⟨bi, hbi⟩ := exists_byModId hn hb
  refine ⟨⟨a, ai, e, b, bi⟩, List.mem_flatMap.2 ⟨(a, ai), List.mem_zipIdx_iff_getElem?.2 hai,
    List.mem_filterMap.2 ⟨e, he, raise?_eq_some.2 ⟨hkind, (b, bi), ?_, rfl⟩⟩⟩, rfl, rfl, rfl⟩
  rw [hid]
  exact hbi

/-- The places of two rows tell them, whichever is named first. -/
theorem places_eq_iff {r r' : Raised} (h : r ∈ raised s present) (h' : r' ∈ raised s present) :
    r.places = r'.places ↔ r.conflict.Between r'.a r'.b := by
  obtain ⟨ha, hb, -⟩ := of_mem_raised h
  obtain ⟨ha', hb', -⟩ := of_mem_raised h'
  have hplace : ∀ {p q : Present} {i j : ℕ}, present[i]? = some p → present[j]? = some q →
      (i = j ↔ p = q) := by
    intro p q i j hp hq
    constructor
    · rintro rfl
      exact Option.some.inj (hp.symm.trans hq)
    · rintro rfl
      exact eq_of_getElem? hn hp hq
  rw [Raised.places, Raised.places, placePair_eq_iff, hplace ha ha', hplace hb hb', hplace ha hb',
    hplace hb ha']
  rfl

end Once

end Rows

/-! ## Clashes -/

/-- A conflicts edge of a row names another one, and its window does not say that the version of that
one is fine. -/
def Warns (s : Registry.Shelf) (a b : Present) (e : RelationRow) : Prop :=
  e ∈ s.relationsForArtifact a.versionId a.modId ∧ e.kind = .conflicts ∧
    s.modIdForSelector e.target = some b.modId ∧
    (e.range.bind fun range => b.version.bind fun v => Semver.inRange v range) ≠ some false

/-- An edge of one of two rows warns of the other one. -/
def Clashes (s : Registry.Shelf) (a b : Present) (e : RelationRow) : Prop := Warns s a b e ∨ Warns s b a e

theorem Clashes.symm {s : Registry.Shelf} {a b : Present} {e : RelationRow} (h : Clashes s a b e) :
    Clashes s b a e := Or.symm h

/-- What there is to report of the conflicts of a pack, and how. -/
structure Exact (s : Registry.Shelf) (present : List Present) (conflicts optional : List ActiveConflict) :
    Prop where
  rows : ∀ c ∈ conflicts ++ optional, c.a ∈ present ∧ c.b ∈ present
  real : ∀ a ∈ present, ∀ b ∈ present, (∃ c ∈ conflicts ++ optional, c.Between a b) ↔
    a.modId ≠ b.modId ∧ ∃ e, Clashes s a b e
  once : (conflicts ++ optional).Pairwise fun c c' => ¬ c'.Between c.a c.b
  live : ∀ c ∈ conflicts, c.live = true
  notLive : ∀ c ∈ optional, c.live = false
  hard : ∀ c ∈ conflicts ++ optional,
    c.hard = true ↔ ∃ e, Clashes s c.a c.b e ∧ e.severity ≠ some .soft
  /-- Of a target that a row both requires and conflicts with, an edge of either kind is looked at. -/
  both : ∀ a ∈ present, ∀ e ∈ s.relationsForArtifact a.versionId a.modId,
    ∀ e' ∈ s.relationsForArtifact a.versionId a.modId, e.kind = .requires → e'.kind = .conflicts →
      e.target = e'.target → (∃ d ∈ judged s a, d.kind = .requires ∧ d.target = e.target) ∧
        ∃ d ∈ judged s a, d.kind = .conflicts ∧ d.target = e.target

/-- An edge says that a row does not go with this one. -/
def names (s : Registry.Shelf) (b : Present) (e : RelationRow) : Bool :=
  e.kind = .conflicts ∧ s.modIdForSelector e.target = some b.modId

/-- What has to be so of the edges that lead, which are the first ones of their row and target. -/
structure Sound (s : Registry.Shelf) (present : List Present) : Prop where
  /-- No row both requires a target and conflicts with it. -/
  apart : ∀ a ∈ present, ∀ e ∈ s.relationsForArtifact a.versionId a.modId,
    ∀ e' ∈ s.relationsForArtifact a.versionId a.modId, e.kind = .requires → e'.kind = .conflicts →
      e.target ≠ e'.target
  /-- A row that a leading edge names is another one, and clashes with its row. -/
  real : ∀ a ∈ present, ∀ b ∈ present, ∀ e, Names s a b e →
    a.modId ≠ b.modId ∧ ∃ e', Clashes s a b e'
  /-- Of two rows that clash, a leading edge of one names the other. -/
  heard : ∀ a ∈ present, ∀ b ∈ present, a.modId ≠ b.modId → ∀ e, Clashes s a b e →
    ∃ e', Names s a b e' ∨ Names s b a e'
  /-- The first leading edge of a row that names another is soft if all edges are by which they
  clash. -/
  hard : ∀ a ∈ present, ∀ b ∈ present, ∀ e, (judged s a).find? (names s b) = some e →
    (e.severity ≠ some .soft ↔ ∃ e', Clashes s a b e' ∧ e'.severity ≠ some .soft)

theorem names_iff {s : Registry.Shelf} {a b : Present} {e : RelationRow} (he : e ∈ judged s a) :
    names s b e = true ↔ Names s a b e := by
  rw [names, decide_eq_true_iff, Names, and_iff_right he]

section Report

variable {s : Registry.Shelf} {present : List Present} {cs os : List ActiveConflict}

/-- The lists of a report hold what is reported, each conflict in its list. -/
structure Lists (s : Registry.Shelf) (present : List Present) (cs os : List ActiveConflict) : Prop where
  live : cs.Perm ((reported s present).filter ActiveConflict.live)
  notLive : os.Perm ((reported s present).filter fun c => !c.live)

theorem lists_resolvePack (s : Registry.Shelf) (classify : ℕ → Option String → Classification)
    (cfg : PackConfig) : Lists s (presentMods s cfg.mods) (resolvePack s classify cfg).conflicts
      (resolvePack s classify cfg).optionalConflicts where
  live := conflicts_walk s classify (presentMods s cfg.mods) _ ▸ List.perm_insertionSort ..
  notLive := optionalConflicts_walk s classify (presentMods s cfg.mods) _ ▸ List.perm_insertionSort ..

theorem Lists.perm (h : Lists s present cs os) : (cs ++ os).Perm (reported s present) :=
  (h.live.append h.notLive).trans (List.filter_append_perm ..)

theorem Lists.mem_iff (h : Lists s present cs os) {c : ActiveConflict} :
    c ∈ cs ++ os ↔ ∃ r ∈ firsts Raised.places [] (raised s present), r.conflict = c :=
  h.perm.mem_iff.trans List.mem_map

variable (hn : (present.map Present.modId).Nodup)

include hn

/-- Two rows are reported if an edge of either is raised for the other. -/
theorem Lists.exists_between (h : Lists s present cs os) {a b : Present} (ha : a ∈ present)
    (hb : b ∈ present) :
    (∃ c ∈ cs ++ os, c.Between a b) ↔ ∃ e, Names s a b e ∨ Names s b a e := by
  constructor
  · rintro ⟨c, hc, hbetween⟩
    obtain ⟨r, hr, rfl⟩ := h.mem_iff.1 hc
    obtain ⟨-, -, hnames⟩ := of_mem_raised (mem_of_mem_firsts hr)
    rcases hbetween with ⟨rfl, rfl⟩ | ⟨rfl, rfl⟩
    · exact ⟨r.edge, .inl hnames⟩
    · exact ⟨r.edge, .inr hnames⟩
  · rintro ⟨e, he⟩
    obtain ⟨r, hr, hrow⟩ : ∃ r ∈ raised s present, r.a = a ∧ r.b = b ∨ r.a = b ∧ r.b = a := by
      rcases he with he | he
      · obtain ⟨r, hr, hra, hrb, -⟩ := exists_mem_raised hn ha hb he
        exact ⟨r, hr, .inl ⟨hra, hrb⟩⟩
      · obtain ⟨r, hr, hra, hrb, -⟩ := exists_mem_raised hn hb ha he
        exact ⟨r, hr, .inr ⟨hra, hrb⟩⟩
    obtain ⟨r', hr', hplaces⟩ : ∃ r' ∈ firsts Raised.places [] (raised s present),
        r'.places = r.places := exists_mem_firsts hr List.not_mem_nil
    have hbetween := (places_eq_iff hn (mem_of_mem_firsts hr') hr).1 hplaces
    refine ⟨r'.conflict, h.mem_iff.2 ⟨r', hr', rfl⟩, ?_⟩
    rcases hrow with ⟨rfl, rfl⟩ | ⟨rfl, rfl⟩
    · exact hbetween
    · exact Or.symm hbetween

/-- Two rows are reported once. -/
theorem Lists.once (h : Lists s present cs os) :
    (cs ++ os).Pairwise fun c c' => ¬ c'.Between c.a c.b := by
  have hsymm : ∀ {c c' : ActiveConflict}, ¬ c'.Between c.a c.b → ¬ c.Between c'.a c'.b := by
    intro c c' hno hyes
    refine hno ?_
    rcases hyes with ⟨ha, hb⟩ | ⟨ha, hb⟩
    · exact .inl ⟨ha.symm, hb.symm⟩
    · exact .inr ⟨hb.symm, ha.symm⟩
  refine (h.perm.pairwise_iff hsymm).2 (List.pairwise_map.2 ?_)
  refine pairwise_firsts.imp_of_mem fun {r r'} hr hr' hne hbetween => hne ?_
  exact ((places_eq_iff hn (mem_of_mem_firsts hr') (mem_of_mem_firsts hr)).2 hbetween).symm

/-- A conflict that is reported is the first one that its row raises for the other one. -/
theorem find?_of_mem_firsts {r : Raised} (h : r ∈ firsts Raised.places [] (raised s present)) :
    (judged s r.a).find? (names s r.b) = some r.edge := by
  have hmem := mem_of_mem_firsts h
  obtain ⟨-, -, hnames⟩ := of_mem_raised hmem
  obtain ⟨⟨a, ai⟩, hrow, hfirst⟩ := mem_firsts_flatMap h
  obtain ⟨-, before, after, hsplit, hbefore⟩ := mem_firsts.1 hfirst
  obtain ⟨u, v, hjudged, rfl, hv⟩ := List.filterMap_eq_append_iff.1 hsplit
  obtain ⟨w, e, v, rfl, hw, he, -⟩ := List.filterMap_eq_cons_iff.1 hv
  obtain ⟨-, q, -, rfl⟩ := raise?_eq_some.1 he
  refine List.find?_eq_some_iff_append.2 ⟨(names_iff hnames.1).2 hnames, u ++ w, v, ?_, ?_⟩
  · rw [List.append_assoc]
    exact hjudged
  · intro x hx
    rw [Bool.not_eq_true']
    refine Bool.eq_false_of_not_eq_true fun hxb => ?_
    obtain ⟨hkind, hid⟩ := of_decide_eq_true hxb
    -- What comes before and names the same row would have been raised before.
    obtain ⟨bi, hbi⟩ := exists_byModId hn (mem_of_mem_raised hmem).2
    have hraise : raise? s present ai a x = some ⟨a, ai, x, q.1, bi⟩ := by
      refine raise?_eq_some.2 ⟨hkind, (q.1, bi), ?_, rfl⟩
      rw [hid]
      exact hbi
    rcases List.mem_append.1 hx with hx | hx
    · refine hbefore _ (List.mem_filterMap.2 ⟨x, hx, hraise⟩) ?_
      have hx' : (⟨a, ai, x, q.1, bi⟩ : Raised) ∈ raised s present := by
        refine List.mem_flatMap.2 ⟨(a, ai), hrow, List.mem_filterMap.2 ⟨x, ?_, hraise⟩⟩
        rw [hjudged]
        exact List.mem_append_left _ hx
      exact (places_eq_iff hn hx' hmem).2 (.inl ⟨rfl, rfl⟩)
    · exact Option.some_ne_none _ (hraise.symm.trans (hw x hx))

/-- What is reported is exact if the edges that lead are sound. -/
theorem Sound.exact (hsound : Sound s present) (h : Lists s present cs os) :
    Exact s present cs os where
  rows := by
    intro c hc
    obtain ⟨r, hr, rfl⟩ := h.mem_iff.1 hc
    exact mem_of_mem_raised (mem_of_mem_firsts hr)
  real := by
    intro a ha b hb
    rw [h.exists_between hn ha hb]
    constructor
    · rintro ⟨e, he | he⟩
      · exact hsound.real a ha b hb e he
      · obtain ⟨hne, e', he'⟩ := hsound.real b hb a ha e he
        exact ⟨hne.symm, e', he'.symm⟩
    · rintro ⟨hne, e, he⟩
      exact hsound.heard a ha b hb hne e he
  once := h.once hn
  live := fun _ hc => (List.mem_filter.1 (h.live.mem_iff.1 hc)).2
  notLive := fun _ hc => (Bool.not_eq_true' _).mp (List.mem_filter.1 (h.notLive.mem_iff.1 hc)).2
  hard := by
    intro c hc
    obtain ⟨r, hr, rfl⟩ := h.mem_iff.1 hc
    obtain ⟨ha, hb⟩ := mem_of_mem_raised (mem_of_mem_firsts hr)
    exact decide_eq_true_iff.trans
      (hsound.hard r.a ha r.b hb r.edge (find?_of_mem_firsts hn hr))
  both := fun a ha e he e' he' hkind hkind' htarget =>
    absurd htarget (hsound.apart a ha e he e' he' hkind hkind')

end Report

/-- In a report that is exact, how two rows are reported is told by how they clash. -/
theorem Exact.exists_iff {s : Registry.Shelf} {present : List Present} {cs os : List ActiveConflict}
    (h : Exact s present cs os) {a b : Present} {live hard : Bool} :
    (∃ c ∈ cs ++ os, c.Between a b ∧ c.live = live ∧ c.hard = hard) ↔
      (a ∈ present ∧ b ∈ present) ∧ (a.modId ≠ b.modId ∧ ∃ e, Clashes s a b e) ∧
        (decide (a.defaultEnabled ∧ b.defaultEnabled) = live) ∧
        (hard = true ↔ ∃ e, Clashes s a b e ∧ e.severity ≠ some .soft) := by
  have htell : ∀ c ∈ cs ++ os, c.Between a b → (a ∈ present ∧ b ∈ present) ∧
      c.live = decide (a.defaultEnabled ∧ b.defaultEnabled) ∧
      (c.hard = true ↔ ∃ e, Clashes s a b e ∧ e.severity ≠ some .soft) := by
    rintro c hc (⟨rfl, rfl⟩ | ⟨rfl, rfl⟩)
    · exact ⟨h.rows c hc, rfl, h.hard c hc⟩
    · refine ⟨(h.rows c hc).symm, decide_eq_decide.2 and_comm, (h.hard c hc).trans ?_⟩
      exact exists_congr fun e => and_congr_left fun _ => ⟨Clashes.symm, Clashes.symm⟩
  constructor
  · rintro ⟨c, hc, hbetween, rfl, rfl⟩
    obtain ⟨hrows, hlive, hhard⟩ := htell c hc hbetween
    exact ⟨hrows, (h.real a hrows.1 b hrows.2).1 ⟨c, hc, hbetween⟩, hlive.symm, hhard⟩
  · rintro ⟨⟨ha, hb⟩, hclash, rfl, hhard⟩
    obtain ⟨c, hc, hbetween⟩ := (h.real a ha b hb).2 hclash
    obtain ⟨-, hlive, hhard'⟩ := htell c hc hbetween
    exact ⟨c, hc, hbetween, hlive, Bool.eq_iff_iff.2 (hhard'.trans hhard.symm)⟩

/-! ## Every order -/

/-- The registry with its relations in another order. -/
def arranged (s : Registry.Shelf) (relations : List RelationRow) : Registry.Shelf := { s with relations }

theorem presentMods_arranged (s : Registry.Shelf) (relations : List RelationRow) (mods : List DeclaredMod) :
    presentMods (arranged s relations) mods = presentMods s mods := rfl

theorem mem_relationsForArtifact_arranged {s : Registry.Shelf} {relations : List RelationRow}
    (hp : relations.Perm s.relations) {versionId : Option ℕ} {modId : ℕ} {e : RelationRow} :
    e ∈ (arranged s relations).relationsForArtifact versionId modId ↔
      e ∈ s.relationsForArtifact versionId modId := by
  rw [Registry.Shelf.relationsForArtifact, Registry.Shelf.relationsForArtifact, List.mem_insertionSort,
    List.mem_insertionSort]
  exact (hp.filter _).mem_iff

theorem clashes_arranged {s : Registry.Shelf} {relations : List RelationRow}
    (hp : relations.Perm s.relations) {a b : Present} {e : RelationRow} :
    Clashes (arranged s relations) a b e ↔ Clashes s a b e :=
  or_congr (and_congr_left fun _ => mem_relationsForArtifact_arranged hp)
    (and_congr_left fun _ => mem_relationsForArtifact_arranged hp)

theorem Sound.of_perm {s : Registry.Shelf} {present present' : List Present} (hp : present'.Perm present)
    (h : Sound s present) : Sound s present' where
  apart := fun a ha => h.apart a (hp.mem_iff.1 ha)
  real := fun a ha b hb => h.real a (hp.mem_iff.1 ha) b (hp.mem_iff.1 hb)
  heard := fun a ha b hb => h.heard a (hp.mem_iff.1 ha) b (hp.mem_iff.1 hb)
  hard := fun a ha b hb => h.hard a (hp.mem_iff.1 ha) b (hp.mem_iff.1 hb)

/-- The first edge of the first row that names another one is the one that is reported. -/
theorem mem_firsts_of_find? {s : Registry.Shelf} {a b : Present} {rest : List Present} {e : RelationRow}
    (hn : ((a :: rest).map Present.modId).Nodup) (hb : b ∈ a :: rest)
    (h : (judged s a).find? (names s b) = some e) :
    ∃ r ∈ firsts Raised.places [] (raised s (a :: rest)), r.a = a ∧ r.b = b ∧ r.edge = e := by
  obtain ⟨hyes, u, v, hsplit, hu⟩ := List.find?_eq_some_iff_append.1 h
  obtain ⟨hkind, hid⟩ := of_decide_eq_true hyes
  obtain ⟨bi, hbi⟩ := exists_byModId hn hb
  have hraise : raise? s (a :: rest) 0 a e = some ⟨a, 0, e, b, bi⟩ := by
    refine raise?_eq_some.2 ⟨hkind, (b, bi), ?_, rfl⟩
    rw [hid]
    exact hbi
  have hraised : raised s (a :: rest) = (u.filterMap (raise? s (a :: rest) 0 a)) ++
      ⟨a, 0, e, b, bi⟩ :: (v.filterMap (raise? s (a :: rest) 0 a) ++
        (rest.zipIdx 1).flatMap fun q => raisedBy s (a :: rest) q.2 q.1) := by
    rw [raised, List.zipIdx_cons, List.flatMap_cons, raisedBy, hsplit, List.filterMap_append,
      List.filterMap_cons_some hraise, List.append_assoc, List.cons_append]
  refine ⟨_, mem_firsts.2 ⟨List.not_mem_nil, _, _, hraised, fun x hx hplaces => ?_⟩, rfl, rfl, rfl⟩
  have hxr : x ∈ raised s (a :: rest) := hraised ▸ List.mem_append_left _ hx
  have her : (⟨a, 0, e, b, bi⟩ : Raised) ∈ raised s (a :: rest) :=
    hraised ▸ List.mem_append_right _ List.mem_cons_self
  obtain ⟨d, hd, hdx⟩ := List.mem_filterMap.1 hx
  obtain ⟨hdkind, q, hq, rfl⟩ := raise?_eq_some.1 hdx
  -- Both are said by `a`, so that both name `b`.
  have hqb : q.1 = b := by
    rcases (places_eq_iff hn hxr her).1 hplaces with ⟨-, h⟩ | ⟨h, h'⟩
    · exact h
    · exact h'.trans h
  have hdid : s.modIdForSelector d.target = some b.modId := by
    obtain ⟨-, -, -, -, hdid⟩ := of_mem_raised hxr
    rw [← hqb]
    exact hdid
  exact absurd (decide_eq_true ⟨hdkind, hdid⟩) (Bool.eq_false_iff.1 ((Bool.not_eq_true' _).mp (hu d hd)))

/-- Any row comes first in some order. -/
theorem exists_perm_cons {s : Registry.Shelf} {mods : List DeclaredMod} {a : Present}
    (ha : a ∈ presentMods s mods) :
    ∃ mods' rest, mods'.Perm mods ∧ presentMods s mods' = a :: rest := by
  obtain ⟨d, hd, hplace⟩ := List.mem_filterMap.1 ha
  obtain ⟨before, after, rfl⟩ := List.append_of_mem hd
  exact ⟨d :: (before ++ after), _, List.perm_middle.symm, List.filterMap_cons_some hplace⟩

/-- The conflicts of two reports are the same ones. -/
def SameConflicts (r r' : ResolveReport) : Prop :=
  ∀ a b live hard,
    (∃ c ∈ r.conflicts ++ r.optionalConflicts, c.Between a b ∧ c.live = live ∧ c.hard = hard) ↔
      ∃ c ∈ r'.conflicts ++ r'.optionalConflicts, c.Between a b ∧ c.live = live ∧ c.hard = hard

/-- In every order of the rows and of the relations, the conflicts that are reported are those there
are, and the same ones. -/
def Faithful (s : Registry.Shelf) (classify : ℕ → Option String → Classification) (cfg : PackConfig) : Prop :=
  ∀ relations, relations.Perm s.relations → ∀ mods, mods.Perm cfg.mods →
    Exact (arranged s relations) (presentMods s mods)
      (resolvePack (arranged s relations) classify { cfg with mods }).conflicts
      (resolvePack (arranged s relations) classify { cfg with mods }).optionalConflicts ∧
    SameConflicts (resolvePack s classify cfg)
      (resolvePack (arranged s relations) classify { cfg with mods })

section Every

variable {s : Registry.Shelf} {classify : ℕ → Option String → Classification} {cfg : PackConfig}
  {relations : List RelationRow} {mods : List DeclaredMod}

theorem nodup_of_perm (hm : mods.Perm cfg.mods)
    (hn : ((presentMods s cfg.mods).map Present.modId).Nodup) :
    ((presentMods s mods).map Present.modId).Nodup :=
  ((hm.filterMap _).map Present.modId).nodup_iff.2 hn

/-- Reports that are exact are the same, whatever the order. -/
theorem sameConflicts (hp : relations.Perm s.relations) (hm : mods.Perm cfg.mods)
    (h : Exact s (presentMods s cfg.mods) (resolvePack s classify cfg).conflicts
      (resolvePack s classify cfg).optionalConflicts)
    (h' : Exact (arranged s relations) (presentMods s mods)
      (resolvePack (arranged s relations) classify { cfg with mods }).conflicts
      (resolvePack (arranged s relations) classify { cfg with mods }).optionalConflicts) :
    SameConflicts (resolvePack s classify cfg)
      (resolvePack (arranged s relations) classify { cfg with mods }) := by
  intro a b live hard
  have hrow : ∀ a, a ∈ presentMods s mods ↔ a ∈ presentMods s cfg.mods :=
    fun a => (hm.filterMap _).mem_iff
  rw [h.exists_iff, h'.exists_iff]
  simp only [hrow, clashes_arranged hp]

/-- What is exact in every order comes from edges that are sound. -/
theorem Faithful.sound (h : Faithful s classify cfg) (hp : relations.Perm s.relations)
    (hn : ((presentMods s cfg.mods).map Present.modId).Nodup) :
    Sound (arranged s relations) (presentMods s cfg.mods) := by
  obtain ⟨hexact, -⟩ := h relations hp cfg.mods (List.Perm.refl _)
  have hlists := lists_resolvePack (arranged s relations) classify cfg
  rw [presentMods_arranged] at hlists
  constructor
  · intro a ha e he e' he' hkind hkind' htarget
    obtain ⟨⟨d, hd, hdkind, hdt⟩, d', hd', hdkind', hdt'⟩ :=
      hexact.both a ha e he e' he' hkind hkind' htarget
    obtain rfl := eq_of_mem_firsts hd hd' (hdt.trans hdt'.symm)
    exact absurd (hdkind.symm.trans hdkind') (by decide)
  · intro a ha b hb e he
    exact (hexact.real a ha b hb).1 ((hlists.exists_between hn ha hb).2 ⟨e, .inl he⟩)
  · intro a ha b hb hne e he
    exact (hlists.exists_between hn ha hb).1 ((hexact.real a ha b hb).2 ⟨hne, e, he⟩)
  · intro a ha b hb e he
    -- In the order in which `a` comes first its edge is the one that is reported.
    obtain ⟨mods', rest, hm, hrest⟩ := exists_perm_cons ha
    obtain ⟨hexact', -⟩ := h relations hp mods' hm
    have hlists' := lists_resolvePack (arranged s relations) classify { cfg with mods := mods' }
    have hn' := nodup_of_perm hm hn
    have hb' : b ∈ presentMods s mods' := (hm.filterMap _).mem_iff.2 hb
    rw [presentMods_arranged, hrest] at hlists'
    rw [hrest] at hn' hb'
    obtain ⟨r, hr, rfl, rfl, rfl⟩ := mem_firsts_of_find? hn' hb' he
    exact decide_eq_true_iff.symm.trans (hexact'.hard _ (hlists'.mem_iff.2 ⟨r, hr, rfl⟩))

end Every

/-- For a pack that places every mod once: the conflicts that are reported are those there are, in
every order of the rows and of the relations, if and only if the edges that lead are sound in every
order of the relations. -/
theorem conflicts_iff (s : Registry.Shelf) (classify : ℕ → Option String → Classification) (cfg : PackConfig)
    (hn : ((presentMods s cfg.mods).map Present.modId).Nodup) :
    Faithful s classify cfg ↔ ∀ relations, relations.Perm s.relations →
      Sound (arranged s relations) (presentMods s cfg.mods) := by
  constructor
  · exact fun h relations hp => h.sound hp hn
  · intro h
    have hexact : ∀ relations, relations.Perm s.relations → ∀ mods, mods.Perm cfg.mods →
        Exact (arranged s relations) (presentMods s mods)
          (resolvePack (arranged s relations) classify { cfg with mods }).conflicts
          (resolvePack (arranged s relations) classify { cfg with mods }).optionalConflicts := by
      intro relations hp mods hm
      refine ((h relations hp).of_perm (hm.filterMap _)).exact (nodup_of_perm hm hn) ?_
      exact lists_resolvePack (arranged s relations) classify { cfg with mods }
    intro relations hp mods hm
    exact ⟨hexact relations hp mods hm, sameConflicts hp hm
      (hexact s.relations (List.Perm.refl _) cfg.mods (List.Perm.refl _)) (hexact relations hp mods hm)⟩

/-! ## A mod that depends on another one, and breaks with it -/

/-- A mod that depends on any version of another one from 0.5.0 on, and breaks with those before
0.6.0. -/
def irisShelf : Registry.Shelf :=
  let row (modId : ℕ) (version sha1 : String) : VersionRow :=
    { modId, version, sha1, filename := none, mcVersions := [], releaseId := none, source := .jarMeta }
  let edge (kind : RelKind) (severity : Option Severity) (range : String) : RelationRow :=
    { fromModId := 1
      fromVersionId := some 1
      target := "sodium"
      range := some range
      kind
      severity
      source := .jarMeta
      confidence := 60 }
  { Tables.empty with
    mods := (Table.empty.insert ⟨some "iris", none, .jarMeta⟩).insert ⟨some "sodium", none, .jarMeta⟩
    aliases := [⟨1, .modid, "iris"⟩, ⟨2, .modid, "sodium"⟩]
    versions := (Table.empty.insert (row 1 "1.7.0" "000000000000000000000000000000000000000a")).insert
      (row 2 "0.5.3" "000000000000000000000000000000000000000b")
    relations := [edge .requires none ">=0.5.0", edge .conflicts (some .hard) "<0.6.0"]
    loaderParents := []
    loaderProvides := []
    modrinthVersionId := fun _ => none
    classDigest := fun _ => .absent }

def irisPack : PackConfig :=
  let row (filename sha1 : String) : DeclaredMod :=
    { filename
      defaultEnabled := true
      source := .smrtCache sha1
      display := none
      slug := none
      pulled := false }
  { PackConfig.empty "iris" with
    mods := [row "iris-1.7.0.jar" "000000000000000000000000000000000000000a",
      row "sodium-0.5.3.jar" "000000000000000000000000000000000000000b"] }

theorem conflicts_iff_irisPack : Faithful irisShelf unclassified irisPack ↔
    ∀ relations, relations.Perm irisShelf.relations →
      Sound (arranged irisShelf relations) (presentMods irisShelf irisPack.mods) :=
  conflicts_iff irisShelf unclassified irisPack (by decide +kernel)

/-- The two do not go together, and nothing is reported. -/
theorem irisPack_silent : ¬ Faithful irisShelf unclassified irisPack := by
  intro h
  obtain ⟨hexact, -⟩ := h irisShelf.relations (List.Perm.refl _) irisPack.mods (List.Perm.refl _)
  have hwarns : ∃ a ∈ presentMods irisShelf irisPack.mods, ∃ b ∈ presentMods irisShelf irisPack.mods,
      a.modId ≠ b.modId ∧ ∃ e ∈ irisShelf.relationsForArtifact a.versionId a.modId,
        e.kind = .conflicts ∧ irisShelf.modIdForSelector e.target = some b.modId ∧
        (e.range.bind fun range => b.version.bind fun v => Semver.inRange v range) ≠ some false := by
    decide +kernel
  obtain ⟨a, ha, b, hb, hne, e, he⟩ := hwarns
  obtain ⟨c, hc, -⟩ := (hexact.real a ha b hb).2 ⟨hne, e, .inl he⟩
  have hnone : (resolvePack irisShelf unclassified irisPack).conflicts ++
      (resolvePack irisShelf unclassified irisPack).optionalConflicts = [] := by decide +kernel
  exact List.not_mem_nil (hnone ▸ hc)

end Resolve

end Smrt
