import Smrt.Domain.Manifest
import Smrt.Lib.Assoc
import Smrt.Lib.Gather
import Smrt.Lib.Tarjan

/-!
# The preview of a pack

What the panel makes of the mods of a manifest: the edges between them (`resolveDeps`), what is
required and missing, the cycles that the edges close (`findCycles`), and which mods conflict
(`conflictIndex`).

* `resolveDeps_spec`: the search for cycles ends. Each requirement is an edge if the file is in the
  pack, and missing if not; the cycles are the strongly connected components of the files of the
  pack, those of one file that does not require itself apart (`Cyclic`), each of them once;
* `mem_conflictIndex_iff`: two mods conflict if one of them declares it of the other, whichever it is.
-/

namespace Smrt

namespace Preview

open Relation

/-- A requirement of a mod that is in the pack. -/
structure DepEdge where
  source : String
  target : String
  versionRange : Option String
  optional : Bool
  deriving DecidableEq

/-- A requirement that is not in the pack. -/
structure MissingReq where
  source : String
  requires : String
  deriving DecidableEq

structure DepGraph where
  edges : List DepEdge
  missing : List MissingReq
  cycles : List (List String)
  edgesBySource : List (String × List DepEdge)
  missingBySource : List (String × List MissingReq)

def DepGraph.empty : DepGraph := ⟨[], [], [], [], []⟩

/-- What a mod requires. -/
def requiresOf (m : ModEntry) : List Requirement := (m.display.map Display.requires).getD []

/-- What a mod is declared to conflict with. -/
def incompatibleWith (m : ModEntry) : List String :=
  (m.display.map Display.incompatibleWith).getD []

def present (mods : List ModEntry) : List String := mods.map fun m => m.filename

/-! ## The dependencies -/

/-- The successors of the files, each as an edge was met. -/
def adjacency (nodes : List String) (edges : List DepEdge) : List (String × List String) :=
  edges.foldl (fun adj e => Assoc.pushTo adj e.source e.target)
    (nodes.foldl (fun adj n => Assoc.set n [] adj) [])

def selfLoops (edges : List DepEdge) : List String :=
  (edges.filter fun e => e.source = e.target).map fun e => e.source

/-- A component with more than one node, or with one that is its own successor. -/
def isCycle (edges : List DepEdge) (c : List String) : Bool :=
  c.length > 1 ∨ c.length = 1 ∧ ∃ v ∈ c.head?, v ∈ selfLoops edges

/-- The components that are cycles, if the search for them ends. -/
def findCycles (fuel : ℕ) (nodes : List String) (edges : List DepEdge) :
    Option (List (List String)) :=
  (Tarjan.components (fun v => ((adjacency nodes edges).lookup v).getD []) fuel nodes).map fun s =>
    s.sccs.filter (isCycle edges)

/-- One requirement of a mod, in the graph so far. -/
def addRequirement (files : List String) (filename : String) (g : DepGraph) (req : Requirement) :
    DepGraph :=
  if req.filename ∈ files then
    let edge : DepEdge := ⟨filename, req.filename, req.versionRange, req.optional⟩
    { g with
      edges := g.edges ++ [edge]
      edgesBySource := Assoc.pushTo g.edgesBySource filename edge }
  else
    let miss : MissingReq := ⟨filename, req.filename⟩
    { g with
      missing := g.missing ++ [miss]
      missingBySource := Assoc.pushTo g.missingBySource filename miss }

def addMod (files : List String) (g : DepGraph) (m : ModEntry) : DepGraph :=
  (requiresOf m).foldl (addRequirement files m.filename) g

def resolveDeps (fuel : ℕ) (mods : List ModEntry) : Option DepGraph :=
  let g := mods.foldl (addMod (present mods)) .empty
  (findCycles fuel (mods.map fun m => m.filename) g.edges).map fun cycles => { g with cycles }

/-! ## The conflicts -/

/-- A mod is linked to another one. -/
def link (out : List (String × List String)) (a b : String) : List (String × List String) :=
  let set := (out.lookup a).getD []
  Assoc.set a (if b ∈ set then set else set ++ [b]) out

def addConflict (files : List String) (filename : String) (out : List (String × List String))
    (other : String) : List (String × List String) :=
  if other ∉ files then out else link (link out filename other) other filename

/-- The mods of the pack that each one conflicts with. -/
def conflictIndex (mods : List ModEntry) : List (String × List String) :=
  mods.foldl
    (fun out m => (incompatibleWith m).foldl (addConflict (present mods) m.filename) out) []

/-- The index has one mod among those that another one conflicts with. -/
def Conflicts (mods : List ModEntry) (a b : String) : Prop :=
  b ∈ ((conflictIndex mods).lookup a).getD []

/-! ## What is meant -/

/-- A mod of the pack requires a file that is in the pack. -/
def Depends (mods : List ModEntry) (a b : String) : Prop :=
  ∃ m ∈ mods, m.filename = a ∧ (∃ r ∈ requiresOf m, r.filename = b) ∧
    ∃ n ∈ mods, n.filename = b

/-- A strongly connected component that has more than one file, or one that depends on itself. -/
def Cyclic (mods : List ModEntry) (c : Set String) : Prop :=
  (∃ r, ∀ x, x ∈ c ↔ ReflTransGen (Depends mods) r x ∧ ReflTransGen (Depends mods) x r) ∧
    ((∃ x ∈ c, ∃ y ∈ c, x ≠ y) ∨ ∃ x ∈ c, Depends mods x x)

/-- The requirements of all mods, with the file of the mod. -/
def requirements (mods : List ModEntry) : List (String × Requirement) :=
  mods.flatMap fun m => (requiresOf m).map fun r => (m.filename, r)

/-- The graph of a pack. -/
structure Resolved (mods : List ModEntry) (g : DepGraph) : Prop where
  edges : g.edges = ((requirements mods).filter fun q => q.2.filename ∈ present mods).map fun q =>
    ⟨q.1, q.2.filename, q.2.versionRange, q.2.optional⟩
  missing : g.missing =
    ((requirements mods).filter fun q => q.2.filename ∉ present mods).map fun q =>
      ⟨q.1, q.2.filename⟩
  edgesOf : ∀ f, (g.edgesBySource.lookup f).getD [] = g.edges.filter fun e => e.source = f
  missingOf : ∀ f, (g.missingBySource.lookup f).getD [] = g.missing.filter fun e => e.source = f
  cycles : ∀ c : Set String, (∃ l ∈ g.cycles, {x | x ∈ l} = c) ↔ Cyclic mods c
  disjoint : g.cycles.Pairwise List.Disjoint
  nodup : ∀ l ∈ g.cycles, l.Nodup

/-! ## The edges -/

section Edges

variable {mods : List ModEntry}

def edgeOf (q : String × Requirement) : DepEdge :=
  ⟨q.1, q.2.filename, q.2.versionRange, q.2.optional⟩

def missOf (q : String × Requirement) : MissingReq := ⟨q.1, q.2.filename⟩

/-- The requirements one after the other: each is an edge or missing, in its place. -/
theorem foldl_addRequirement (files : List String) (l : List (String × Requirement))
    (g : DepGraph) :
    l.foldl (fun g q => addRequirement files q.1 g q.2) g =
      { g with
        edges := g.edges ++ (l.filter fun q => q.2.filename ∈ files).map edgeOf
        missing := g.missing ++ (l.filter fun q => q.2.filename ∉ files).map missOf
        edgesBySource := ((l.filter fun q => q.2.filename ∈ files).map edgeOf).foldl
          (fun map e => Assoc.pushTo map e.source e) g.edgesBySource
        missingBySource := ((l.filter fun q => q.2.filename ∉ files).map missOf).foldl
          (fun map e => Assoc.pushTo map e.source e) g.missingBySource } := by
  induction l generalizing g with
  | nil => simp
  | cons q l ih =>
    rw [List.foldl_cons, ih, addRequirement]
    by_cases hq : q.2.filename ∈ files
    · simp [hq, edgeOf]
    · simp [hq, missOf]

/-- The graph before the search for cycles. -/
theorem foldl_addMod (mods : List ModEntry) (files : List String) (g : DepGraph) :
    mods.foldl (addMod files) g =
      (requirements mods).foldl (fun g q => addRequirement files q.1 g q.2) g := by
  rw [requirements, List.foldl_flatMap]
  refine congrArg (fun f => List.foldl f g mods) ?_
  funext g m
  rw [addMod, List.foldl_map]

theorem lookup_adjacency (nodes : List String) (edges : List DepEdge) (v : String) :
    ((adjacency nodes edges).lookup v).getD [] =
      (edges.filter fun e => e.source = v).map fun e => e.target := by
  have hnone : ∀ v, ((nodes.foldl (fun adj n => Assoc.set n [] adj)
      ([] : List (String × List String))).lookup v).getD [] = [] := by
    refine foldl_keeps (Q := fun adj : List (String × List String) =>
      ∀ v, (adj.lookup v).getD [] = []) (fun adj n h v => ?_) nodes fun _ => rfl
    rw [Assoc.lookup_set]
    split_ifs
    · rfl
    · exact h v
  rw [adjacency, Assoc.lookup_foldl_pushTo, hnone, List.nil_append]

theorem mem_edgesOf {q : List DepEdge}
    (hq : q = ((requirements mods).filter fun q => q.2.filename ∈ present mods).map edgeOf)
    {a b : String} : (∃ e ∈ q, e.source = a ∧ e.target = b) ↔ Depends mods a b := by
  subst hq
  constructor
  · rintro ⟨e, he, rfl, rfl⟩
    obtain ⟨⟨f, r⟩, hr, rfl⟩ := List.mem_map.1 he
    obtain ⟨hr, hpresent⟩ := List.mem_filter.1 hr
    obtain ⟨m, hm, hr⟩ := List.mem_flatMap.1 hr
    obtain ⟨r', hr', he⟩ := List.mem_map.1 hr
    obtain ⟨rfl, rfl⟩ := Prod.mk.inj he
    obtain ⟨n, hn, hname⟩ := List.mem_map.1 (of_decide_eq_true hpresent)
    exact ⟨m, hm, rfl, ⟨r', hr', rfl⟩, n, hn, hname⟩
  · rintro ⟨m, hm, rfl, ⟨r, hr, rfl⟩, n, hn, hname⟩
    refine ⟨edgeOf (m.filename, r), List.mem_map_of_mem (List.mem_filter.2 ⟨?_, ?_⟩), rfl, rfl⟩
    · exact List.mem_flatMap.2 ⟨m, hm, List.mem_map_of_mem hr⟩
    · exact decide_eq_true (List.mem_map.2 ⟨n, hn, hname⟩)

theorem Depends.present {a b : String} (h : Depends mods a b) :
    a ∈ present mods ∧ b ∈ present mods := by
  obtain ⟨m, hm, ha, -, n, hn, hb⟩ := h
  exact ⟨List.mem_map.2 ⟨m, hm, ha⟩, List.mem_map.2 ⟨n, hn, hb⟩⟩

end Edges

/-! ## The cycles -/

section Cycles

variable {mods : List ModEntry} {edges : List DepEdge}
  (hedges : ∀ a b, (∃ e ∈ edges, e.source = a ∧ e.target = b) ↔ Depends mods a b)

/-- The successors of a file. -/
def successors (mods : List ModEntry) (edges : List DepEdge) (v : String) : List String :=
  ((adjacency (present mods) edges).lookup v).getD []

include hedges

theorem mem_successors {a b : String} : b ∈ successors mods edges a ↔ Depends mods a b := by
  rw [successors, lookup_adjacency, ← hedges, List.mem_map]
  simp only [List.mem_filter, decide_eq_true_eq, and_assoc]

theorem reach_successors :
    Tarjan.Reach (successors mods edges) = ReflTransGen (Depends mods) := by
  rw [Tarjan.Reach]
  congr
  funext a b
  exact propext (mem_successors hedges)

theorem mem_selfLoops {v : String} : v ∈ selfLoops edges ↔ Depends mods v v := by
  rw [selfLoops, ← hedges, List.mem_map]
  constructor
  · rintro ⟨e, he, rfl⟩
    obtain ⟨he, hloop⟩ := List.mem_filter.1 he
    exact ⟨e, he, rfl, (of_decide_eq_true hloop).symm⟩
  · rintro ⟨e, he, hsource, htarget⟩
    exact ⟨e, List.mem_filter.2 ⟨he, decide_eq_true (hsource.trans htarget.symm)⟩, hsource⟩

omit hedges in
/-- A file of a cycle is in the pack, since it requires something. -/
theorem Cyclic.exists_present {c : Set String} (h : Cyclic mods c) : ∃ x ∈ c, x ∈ present mods := by
  obtain ⟨⟨r, hr⟩, ⟨x, hx, y, hy, hne⟩ | ⟨x, hx, hloop⟩⟩ := h
  · have hpath : ReflTransGen (Depends mods) x y := ((hr x).1 hx).2.trans ((hr y).1 hy).1
    rcases ReflTransGen.cases_head hpath with he | ⟨z, hstep, -⟩
    · exact absurd he hne
    · exact ⟨x, hx, hstep.present.1⟩
  · exact ⟨x, hx, hloop.present.1⟩

omit hedges in
/-- A component is that of each of its nodes. -/
theorem component_eq {α : Type*} {R : α → α → Prop} {c d : Set α} {x : α}
    (hc : ∃ r, ∀ y, y ∈ c ↔ ReflTransGen R r y ∧ ReflTransGen R y r)
    (hd : ∃ r, ∀ y, y ∈ d ↔ ReflTransGen R r y ∧ ReflTransGen R y r) (hxc : x ∈ c) (hxd : x ∈ d) :
    c = d := by
  have hof : ∀ {c : Set α}, (∃ r, ∀ y, y ∈ c ↔ ReflTransGen R r y ∧ ReflTransGen R y r) → x ∈ c →
      ∀ y, y ∈ c ↔ ReflTransGen R x y ∧ ReflTransGen R y x := by
    rintro c ⟨r, hr⟩ hx y
    obtain ⟨hrx, hxr⟩ := (hr x).1 hx
    rw [hr]
    exact ⟨fun h => ⟨hxr.trans h.1, h.2.trans hrx⟩, fun h => ⟨hrx.trans h.1, h.2.trans hxr⟩⟩
  ext y
  rw [hof hc hxc, hof hd hxd]

/-- The cycles that are found. -/
theorem findCycles_spec : ∃ cycles,
    (∀ fuel, mods.length ≤ fuel → findCycles fuel (present mods) edges = some cycles) ∧
      (∀ c : Set String, (∃ l ∈ cycles, {x | x ∈ l} = c) ↔ Cyclic mods c) ∧
      cycles.Pairwise List.Disjoint ∧ ∀ l ∈ cycles, l.Nodup := by
  have hclosed : ∀ x ∈ (present mods).toFinset, ∀ y ∈ successors mods edges x,
      y ∈ (present mods).toFinset := fun x _ y hy =>
    List.mem_toFinset.2 ((mem_successors hedges).1 hy).present.2
  obtain ⟨s, hrun, hcomponents, hnodup, hall⟩ :=
    Tarjan.components_spec hclosed (present mods) fun x => List.mem_toFinset.2
  obtain ⟨hnodups, hdisjoint⟩ := List.nodup_flatten.1 hnodup
  have hcomponent : ∀ l ∈ s.sccs, ∃ r, ∀ x, x ∈ {x | x ∈ l} ↔
      ReflTransGen (Depends mods) r x ∧ ReflTransGen (Depends mods) x r := by
    intro l hl
    obtain ⟨r, hr⟩ := hcomponents l hl
    rw [reach_successors hedges] at hr
    exact ⟨r, hr⟩
  have hkept : ∀ l ∈ s.sccs, isCycle edges l = true ↔
      ((∃ x ∈ l, ∃ y ∈ l, x ≠ y) ∨ ∃ x ∈ l, Depends mods x x) := by
    intro l hl
    have hl' := hnodups l hl
    rw [isCycle, decide_eq_true_eq]
    rcases l with _ | ⟨x, _ | ⟨y, l⟩⟩
    · simp
    · simp [mem_selfLoops hedges]
    · have hne : x ≠ y := (List.ne_and_not_mem_of_not_mem_cons (List.nodup_cons.1 hl').1).1
      refine iff_of_true (.inl (by simp)) (.inl ⟨x, List.mem_cons_self, y, ?_, hne⟩)
      exact List.mem_cons_of_mem _ List.mem_cons_self
  refine ⟨s.sccs.filter (isCycle edges), fun fuel hfuel => ?_, fun c => ?_, ?_, ?_⟩
  · have hle := (List.toFinset_card_le (present mods)).trans ((List.length_map _).le.trans hfuel)
    exact congrArg (Option.map _) (hrun fuel hle)
  · constructor
    · rintro ⟨l, hl, rfl⟩
      obtain ⟨hl, hcycle⟩ := List.mem_filter.1 hl
      exact ⟨hcomponent l hl, (hkept l hl).1 hcycle⟩
    · intro hc
      obtain ⟨x, hxc, hpresent⟩ := hc.exists_present
      obtain ⟨l, hl, hxl⟩ := List.mem_flatten.1 (hall x hpresent)
      have he : {x | x ∈ l} = c := component_eq (hcomponent l hl) hc.1 hxl hxc
      refine ⟨l, List.mem_filter.2 ⟨hl, (hkept l hl).2 ?_⟩, he⟩
      rw [← he] at hc
      exact hc.2
  · exact hdisjoint.sublist List.filter_sublist
  · exact fun l hl => hnodups l (List.mem_of_mem_filter hl)

end Cycles

/-- The preview resolves every pack. -/
theorem resolveDeps_spec (mods : List ModEntry) : ∃ g,
    (∀ fuel, mods.length ≤ fuel → resolveDeps fuel mods = some g) ∧ Resolved mods g := by
  have hgraph := (foldl_addMod mods (present mods) .empty).trans
    (foldl_addRequirement (present mods) (requirements mods) _)
  generalize hg : mods.foldl (addMod (present mods)) .empty = g at hgraph
  have hedges : g.edges =
      ((requirements mods).filter fun q => q.2.filename ∈ present mods).map edgeOf :=
    congrArg DepGraph.edges hgraph
  have hmissing : g.missing =
      ((requirements mods).filter fun q => q.2.filename ∉ present mods).map missOf :=
    congrArg DepGraph.missing hgraph
  have hdepends : ∀ a b, (∃ e ∈ g.edges, e.source = a ∧ e.target = b) ↔ Depends mods a b :=
    fun a b => mem_edgesOf hedges
  obtain ⟨cycles, hrun, hcycles, hdisjoint, hnodup⟩ := findCycles_spec hdepends
  refine ⟨{ g with cycles }, fun fuel hfuel => ?_, ?_⟩
  · rw [resolveDeps, hg]
    exact congrArg (Option.map _) (hrun fuel hfuel)
  · constructor
    case edges => exact hedges
    case missing => exact hmissing
    case edgesOf =>
      intro f
      rw [congrArg DepGraph.edgesBySource hgraph, Assoc.lookup_foldl_pushTo, hedges]
      exact List.map_id _
    case missingOf =>
      intro f
      rw [congrArg DepGraph.missingBySource hgraph, Assoc.lookup_foldl_pushTo, hmissing]
      exact List.map_id _
    case cycles => exact hcycles
    case disjoint => exact hdisjoint
    case nodup => exact hnodup

/-! ## The conflicts of two mods -/

section Conflicts

variable {mods : List ModEntry} {a b : String}

theorem mem_link (out : List (String × List String)) (x y : String) :
    b ∈ ((link out x y).lookup a).getD [] ↔
      b ∈ (out.lookup a).getD [] ∨ a = x ∧ b = y := by
  rw [link, Assoc.lookup_set]
  by_cases ha : a = x
  · rw [if_pos ha, Option.getD_some, ha, and_iff_right rfl]
    split_ifs with hy
    · exact (or_iff_left_of_imp fun h => h ▸ hy).symm
    · rw [List.mem_append, List.mem_singleton]
  · rw [if_neg ha, or_iff_left fun h => ha h.1]

/-- A mod declares that it conflicts with another one. -/
def Declares (mods : List ModEntry) (a b : String) : Prop :=
  ∃ m ∈ mods, m.filename = a ∧ b ∈ incompatibleWith m

theorem mem_conflictIndex_iff : Conflicts mods a b ↔
    (a ∈ present mods ∧ b ∈ present mods) ∧ (Declares mods a b ∨ Declares mods b a) := by
  have hadd : ∀ (m : ModEntry) (out : List (String × List String)) (other : String),
      b ∈ ((addConflict (present mods) m.filename out other).lookup a).getD [] ↔
        b ∈ (out.lookup a).getD [] ∨ (other ∈ present mods ∧
          (a = m.filename ∧ b = other ∨ a = other ∧ b = m.filename)) := by
    intro m out other
    rw [addConflict]
    by_cases hpresent : other ∈ present mods
    · rw [if_neg (not_not.2 hpresent), mem_link, mem_link, and_iff_right hpresent, or_assoc]
    · rw [if_pos hpresent, or_iff_left fun h => hpresent h.1]
  have hmod := fun (out : List (String × List String)) (m : ModEntry) =>
    foldl_iff (Q := fun out : List (String × List String) => b ∈ (out.lookup a).getD [])
      (hadd m) (incompatibleWith m) out
  rw [Conflicts, conflictIndex, foldl_iff
    (Q := fun out : List (String × List String) => b ∈ (out.lookup a).getD []) hmod]
  have hnil : b ∉ (([] : List (String × List String)).lookup a).getD [] := List.not_mem_nil
  rw [or_iff_right hnil]
  constructor
  · rintro ⟨m, hm, other, hother, hpresent, ⟨rfl, rfl⟩ | ⟨rfl, rfl⟩⟩
    · exact ⟨⟨List.mem_map_of_mem hm, hpresent⟩, .inl ⟨m, hm, rfl, hother⟩⟩
    · exact ⟨⟨hpresent, List.mem_map_of_mem hm⟩, .inr ⟨m, hm, rfl, hother⟩⟩
  · rintro ⟨⟨ha, hb⟩, ⟨m, hm, rfl, hother⟩ | ⟨m, hm, rfl, hother⟩⟩
    · exact ⟨m, hm, b, hother, hb, .inl ⟨rfl, rfl⟩⟩
    · exact ⟨m, hm, a, hother, ha, .inr ⟨rfl, rfl⟩⟩

theorem Conflicts.symm (h : Conflicts mods a b) : Conflicts mods b a := by
  rw [mem_conflictIndex_iff] at h ⊢
  exact ⟨h.1.symm, h.2.symm⟩

end Conflicts

/-- What the panel shows of the mods of a pack: its graph with the cycles in it, and the
conflicts. -/
theorem preview_spec (mods : List ModEntry) :
    (∃ g, (∀ fuel, mods.length ≤ fuel → resolveDeps fuel mods = some g) ∧ Resolved mods g) ∧
      (∀ a b, Conflicts mods a b ↔ (a ∈ present mods ∧ b ∈ present mods) ∧
        (Declares mods a b ∨ Declares mods b a)) ∧
      ∀ a b, Conflicts mods a b → Conflicts mods b a :=
  ⟨resolveDeps_spec mods, fun _ _ => mem_conflictIndex_iff, fun _ _ => Conflicts.symm⟩

/-- A mod with what it requires. -/
def modRequiring (filename : String) (requires : List String) : ModEntry where
  filename
  sha1 := ""
  sizeBytes := 0
  required := true
  defaultEnabled := true
  source := .smrtCache ""
  display := some { Display.default with requires := requires.map fun r => ⟨r, none, false⟩ }
  slug := none

example : (resolveDeps 5 [modRequiring "a" ["b", "gone"], modRequiring "b" ["c", "d"],
    modRequiring "c" ["a"], modRequiring "d" ["d"], modRequiring "e" ["a"]]).map DepGraph.cycles =
      some [["d"], ["c", "b", "a"]] := by
  decide +kernel

end Preview

end Smrt
