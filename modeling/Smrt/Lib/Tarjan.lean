import Mathlib.Data.Finset.Card
import Mathlib.Data.List.Nodup
import Mathlib.Logic.Relation

/-!
# Strongly connected components

The depth-first search that finds the strongly connected components of a graph, each when the first
node of it that was entered is left.

  connect(v): index[v] = low[v] = counter++; push v;
    for w of succ(v):
      if w has no index { connect(w); low[v] = min(low[v], low[w]) }
      else if w is on the stack { low[v] = min(low[v], index[w]) }
    if low[v] = index[v] { pop down to v: a component }

What holds whenever a node is entered or left is `Inv`, for the path of the nodes that are entered
and not left: the stack is in the order of the indices; each of its nodes reaches a node of the path
that is not above it, and is reached by those of the path that are not above it; what was popped is
closed under the edges, and is the components that were found. While the edges of a node are
followed (`Scan`), its low link is the index of some node it reaches on the stack as it was found,
and not above the ends of the edges from what is over it to below it. So where the two are equal
there are no such edges, and what is over it is its component (`Scan.mem_iff`).

* `connect_spec`: with fuel for the nodes that have no index, the search from a node ends;
* `components_spec`: the search from all nodes ends, and finds the components, each once.
-/

namespace Smrt.Tarjan

open Relation

/-- What the search has in hand. The head of the stack is its top. -/
structure State (α : Type*) where
  index : α → Option ℕ
  low : α → Option ℕ
  onStack : Finset α
  stack : List α
  /-- The components, as they were found. -/
  sccs : List (List α)
  counter : ℕ

variable {α : Type*}

/-- Nothing is entered. -/
def State.empty : State α := ⟨fun _ => none, fun _ => none, ∅, [], [], 0⟩

namespace State

variable (s : State α)

def indexOf (v : α) : ℕ := (s.index v).getD 0

def lowOf (v : α) : ℕ := (s.low v).getD 0

/-- A node that is entered and popped again. -/
def Done (v : α) : Prop := s.index v ≠ none ∧ v ∉ s.stack

variable [DecidableEq α]

def enter (v : α) : State α :=
  { s with
    index := Function.update s.index v (some s.counter)
    low := Function.update s.low v (some s.counter)
    counter := s.counter + 1
    stack := v :: s.stack
    onStack := insert v s.onStack }

/-- The low link of a node is lowered. -/
def lower (v : α) (n : ℕ) : State α :=
  { s with low := Function.update s.low v (some (min (s.lowOf v) n)) }

/-- A component is popped, and the rest of the stack is left. -/
def pop (c rest : List α) : State α :=
  { s with stack := rest, onStack := s.onStack \ c.toFinset, sccs := s.sccs ++ [c] }

end State

section Search

variable [DecidableEq α]

/-- What is popped down to a node, and what is left. With no such node there is no end. -/
def popTo (v : α) : List α → Option (List α × List α)
  | [] => none
  | w :: stack =>
    if w = v then some ([w], stack) else (popTo v stack).map fun p => (w :: p.1, p.2)

/-- A node is left: if it is the first one of its component, that is popped. -/
def leave (v : α) (s : State α) : Option (State α) :=
  if s.lowOf v = s.indexOf v then
    (popTo v s.stack).map fun p => s.pop p.1 p.2
  else some s

/-- An edge is followed. -/
def visit (connect : α → State α → Option (State α)) (v : α) (s : State α) (w : α) :
    Option (State α) :=
  if s.index w = none then (connect w s).map fun s' => s'.lower v (s'.lowOf w)
  else if w ∈ s.onStack then some (s.lower v (s.indexOf w))
  else some s

variable (succ : α → List α)

/-- The search from a node, no deeper than there is fuel. -/
def connect : ℕ → α → State α → Option (State α)
  | 0, _, _ => none
  | fuel + 1, v, s => ((succ v).foldlM (visit (connect fuel) v) (s.enter v)).bind (leave v)

/-- The search from the next of the nodes, unless it has been entered. -/
def root (fuel : ℕ) (s : State α) (v : α) : Option (State α) :=
  if s.index v = none then connect succ fuel v s else some s

def components (fuel : ℕ) (nodes : List α) : Option (State α) :=
  nodes.foldlM (root succ fuel) State.empty

end Search

/-! ## Components -/

variable (succ : α → List α)

/-- There is a path from one node to the other. -/
def Reach : α → α → Prop := ReflTransGen fun x y => y ∈ succ x

/-- The nodes that a node reaches and is reached by. -/
def IsComponent (c : List α) : Prop := ∃ r, ∀ x, x ∈ c ↔ Reach succ r x ∧ Reach succ x r

variable {succ}

/-- Of what is closed under the edges, nothing else is reached. -/
theorem Reach.of_closed {P : α → Prop} (hclosed : ∀ x, P x → ∀ y ∈ succ x, P y) {x y : α}
    (h : Reach succ x y) (hx : P x) : P y := by
  induction h with
  | refl => exact hx
  | tail _ hedge ih => exact hclosed _ ih _ hedge

/-! ## The invariant -/

/-- What holds of the search, with the path of the nodes that are entered and not left. -/
structure Inv (succ : α → List α) (path : List α) (s : State α) : Prop where
  index_lt : ∀ {x i}, s.index x = some i → i < s.counter
  visited : ∀ x ∈ s.stack, s.index x ≠ none
  sorted : s.stack.Pairwise fun x y => s.indexOf y < s.indexOf x
  mem_onStack : ∀ x, x ∈ s.onStack ↔ x ∈ s.stack
  path_subset : ∀ x ∈ path, x ∈ s.stack
  /-- The edges of a node that is left have been followed. -/
  followed : ∀ x, s.index x ≠ none → x ∉ path → ∀ y ∈ succ x, s.index y ≠ none
  closed : ∀ x, s.Done x → ∀ y ∈ succ x, s.Done y
  down : ∀ x ∈ s.stack, ∃ g ∈ path, s.indexOf g ≤ s.indexOf x ∧ Reach succ x g
  up : ∀ g ∈ path, ∀ x ∈ s.stack, s.indexOf g ≤ s.indexOf x → Reach succ g x
  isComponent : ∀ c ∈ s.sccs, IsComponent succ c
  done_iff : ∀ x, s.Done x ↔ x ∈ s.sccs.flatten
  nodup : s.sccs.flatten.Nodup

theorem inv_empty : Inv succ [] (State.empty : State α) where
  index_lt h := absurd h.symm (Option.some_ne_none _)
  visited _ h := absurd h List.not_mem_nil
  sorted := .nil
  mem_onStack _ := iff_of_false (Finset.notMem_empty _) List.not_mem_nil
  path_subset _ h := absurd h List.not_mem_nil
  followed _ h := absurd rfl h
  closed _ h := absurd rfl h.1
  down _ h := absurd h List.not_mem_nil
  up _ h := absurd h List.not_mem_nil
  isComponent _ h := absurd h List.not_mem_nil
  done_iff _ := iff_of_false (fun h => h.1 rfl) List.not_mem_nil
  nodup := .nil

namespace Inv

variable {path : List α} {s : State α} {v w x : α}

theorem nodup_stack (h : Inv succ path s) : s.stack.Nodup :=
  h.sorted.imp fun hlt he => (he ▸ hlt).false

theorem indexOf_lt (h : Inv succ path s) (hx : s.index x ≠ none) : s.indexOf x < s.counter := by
  obtain ⟨i, hi⟩ := Option.ne_none_iff_exists'.1 hx
  rw [State.indexOf, hi]
  exact h.index_lt hi

/-- What is done reaches nothing that is not. -/
theorem done_of_reach (h : Inv succ path s) (hx : s.Done x) (hreach : Reach succ x w) :
    s.Done w := hreach.of_closed h.closed hx

end Inv

/-- One search has gone on from another: the nodes that had been entered are as they were, and those
that are entered since come after. -/
structure Extends (s s' : State α) : Prop where
  index : ∀ x, s.index x ≠ none → s'.index x = s.index x
  low : ∀ x, s.index x ≠ none → s'.low x = s.low x
  fresh : ∀ x i, s.index x = none → s'.index x = some i → s.counter ≤ i

namespace Extends

variable {s s' s'' : State α} {x : α}

theorem refl (s : State α) : Extends s s :=
  ⟨fun _ _ => rfl, fun _ _ => rfl, fun _ _ h h' => absurd (h'.symm.trans h) (Option.some_ne_none _)⟩

theorem visited (h : Extends s s') (hx : s.index x ≠ none) : s'.index x ≠ none := by
  rw [h.index x hx]
  exact hx

theorem indexOf (h : Extends s s') (hx : s.index x ≠ none) : s'.indexOf x = s.indexOf x := by
  rw [State.indexOf, h.index x hx, State.indexOf]

theorem lowOf (h : Extends s s') (hx : s.index x ≠ none) : s'.lowOf x = s.lowOf x := by
  rw [State.lowOf, h.low x hx, State.lowOf]

theorem trans (h : Extends s s') (h' : Extends s' s'') (hle : s.counter ≤ s'.counter) :
    Extends s s'' where
  index x hx := (h'.index x (h.visited hx)).trans (h.index x hx)
  low x hx := (h'.low x (h.visited hx)).trans (h.low x hx)
  fresh x i hx hi := by
    by_cases hx' : s'.index x = none
    · exact hle.trans (h'.fresh x i hx' hi)
    · rw [h'.index x hx'] at hi
      exact h.fresh x i hx hi

end Extends

/-! ## What the search has done -/

variable {path : List α} {s s₀ : State α} {v w : α}

/-- What the search from a node has done when it ends. -/
structure Connected (succ : α → List α) (path : List α) (v : α) (s s' : State α) : Prop where
  inv : Inv succ path s'
  later : Extends s s'
  visited : s'.index v ≠ none
  stack : ∃ new, s'.stack = new ++ s.stack
  /-- The edges from what is new on the stack to what was there before. -/
  cross : ∀ x ∈ s'.stack, x ∉ s.stack → ∀ y ∈ succ x, y ∈ s.stack → s'.lowOf v ≤ s.indexOf y
  /-- Either the low link is that of a node that was on the stack before, or all is popped. -/
  low : (∃ y ∈ s.stack, s.indexOf y = s'.lowOf v ∧ Reach succ v y) ∨
    s'.stack = s.stack ∧ s.counter ≤ s'.lowOf v

/-- What the search from a node has done when some of its edges have been followed. -/
structure Scan (succ : α → List α) (path : List α) (v : α) (s₀ : State α) (seen : List α)
    (s : State α) : Prop where
  inv : Inv succ (v :: path) s
  later : Extends s₀ s
  index : s.index v = some s₀.counter
  stack : ∃ new, s.stack = new ++ v :: s₀.stack
  low_le : s.lowOf v ≤ s₀.counter
  low : ∃ y ∈ v :: s₀.stack, s.indexOf y = s.lowOf v ∧ Reach succ v y
  cross : ∀ x ∈ s.stack, x ∉ v :: s₀.stack → ∀ y ∈ succ x, y ∈ s₀.stack →
    s.lowOf v ≤ s₀.indexOf y
  seen : ∀ x ∈ seen, s.index x ≠ none ∧ (x ∈ s₀.stack → s.lowOf v ≤ s₀.indexOf x)

section Scan

variable {seen : List α}

theorem Scan.counter_lt (h : Scan succ path v s₀ seen s) : s₀.counter < s.counter :=
  h.inv.index_lt h.index

theorem Scan.indexOf_self (h : Scan succ path v s₀ seen s) : s.indexOf v = s₀.counter := by
  rw [State.indexOf, h.index, Option.getD_some]

theorem Scan.mem_of_mem (h : Scan succ path v s₀ seen s) {x : α} (hx : x ∈ v :: s₀.stack) :
    x ∈ s.stack := by
  obtain ⟨new, hnew⟩ := h.stack
  rw [hnew]
  exact List.mem_append_right _ hx

/-- What is no higher on the stack than the node is the node, or was there before. -/
theorem Scan.mem_of_indexOf_le (h : Scan succ path v s₀ seen s) {x : α} (hx : x ∈ s.stack)
    (hle : s.indexOf x ≤ s₀.counter) : x ∈ v :: s₀.stack := by
  obtain ⟨new, hnew⟩ := h.stack
  have hsorted := h.inv.sorted
  rw [hnew] at hx hsorted
  rcases List.mem_append.1 hx with hx | hx
  · have hlt := (List.pairwise_append.1 hsorted).2.2 x hx v List.mem_cons_self
    rw [h.indexOf_self] at hlt
    exact absurd hle hlt.not_ge
  · exact hx

theorem Scan.indexOf_below (h₀ : Inv succ path s₀) (h : Scan succ path v s₀ seen s) {x : α}
    (hx : x ∈ s₀.stack) :
    s.indexOf x = s₀.indexOf x ∧ s₀.indexOf x < s₀.counter :=
  ⟨h.later.indexOf (h₀.visited x hx), h₀.indexOf_lt (h₀.visited x hx)⟩

theorem Scan.not_mem (h₀ : Inv succ path s₀) (h : Scan succ path v s₀ seen s) :
    v ∉ s₀.stack := fun hmem =>
  (h₀.index_lt ((h.later.index v (h₀.visited v hmem)).symm.trans h.index)).false

theorem Scan.self_mem (h : Scan succ path v s₀ seen s) : v ∈ s.stack :=
  h.mem_of_mem List.mem_cons_self

/-- What is on the stack over what was there before, is what is popped down to the node. -/
theorem Scan.mem_append_iff (h : Scan succ path v s₀ seen s) {new : List α}
    (hnew : s.stack = new ++ v :: s₀.stack) {x : α} :
    x ∈ new ++ [v] ↔ x ∈ s.stack ∧ x ∉ s₀.stack := by
  have hnodup := h.inv.nodup_stack
  have hsplit : s.stack = (new ++ [v]) ++ s₀.stack := by
    rw [hnew, List.append_assoc, List.singleton_append]
  rw [hsplit] at hnodup ⊢
  rw [List.mem_append (t := s₀.stack)]
  constructor
  · exact fun hx => ⟨.inl hx, fun hbelow => (List.nodup_append.1 hnodup).2.2 x hx x hbelow rfl⟩
  · exact fun hx => hx.1.resolve_right hx.2

end Scan

/-- How many nodes can still be entered. -/
def unentered (U : Finset α) (s : State α) : ℕ := (U.filter fun x => s.index x = none).card

theorem unentered_lt {U : Finset α} (hv : v ∈ U) (hnew : s₀.index v = none)
    (hentered : s.index v ≠ none) (hlater : Extends s₀ s) : unentered U s < unentered U s₀ := by
  refine Finset.card_lt_card ((Finset.ssubset_iff_of_subset fun x hx => ?_).2 ⟨v, ?_, ?_⟩)
  · obtain ⟨hxU, hx⟩ := Finset.mem_filter.1 hx
    refine Finset.mem_filter.2 ⟨hxU, ?_⟩
    by_contra hvisited
    exact hlater.visited hvisited hx
  · exact Finset.mem_filter.2 ⟨hv, hnew⟩
  · exact fun hmem => hentered (Finset.mem_filter.1 hmem).2

variable [DecidableEq α]

theorem popTo_append {v : α} {new : List α} (hv : v ∉ new) (stack : List α) :
    popTo v (new ++ v :: stack) = some (new ++ [v], stack) := by
  induction new with
  | nil => rw [List.nil_append, popTo, if_pos rfl, List.nil_append]
  | cons w new ih =>
    obtain ⟨hne, hnew⟩ := List.ne_and_not_mem_of_not_mem_cons hv
    rw [List.cons_append, popTo, if_neg hne.symm, ih hnew]
    rfl

theorem foldlM_mono {β γ : Type*} {f g : β → γ → Option β}
    (hle : ∀ b a b', f b a = some b' → g b a = some b') {l : List γ} {b b' : β}
    (h : l.foldlM f b = some b') : l.foldlM g b = some b' := by
  induction l generalizing b with
  | nil => exact h
  | cons a l ih =>
    rw [List.foldlM_cons] at h ⊢
    obtain ⟨b₁, hb₁, hrest⟩ := Option.bind_eq_some_iff.1 h
    exact Option.bind_eq_some_iff.2 ⟨b₁, hle b a b₁ hb₁, ih hrest⟩

/-- More fuel makes no difference to a search that ends. -/
theorem connect_mono {fuel more : ℕ} (hle : fuel ≤ more) {s' : State α}
    (h : connect succ fuel v s = some s') : connect succ more v s = some s' := by
  induction fuel generalizing more v s s' with
  | zero => exact absurd h.symm (Option.some_ne_none s')
  | succ fuel ih =>
    obtain ⟨more, rfl⟩ := Nat.exists_eq_add_of_lt hle
    rw [connect] at h ⊢
    obtain ⟨s₁, hscan, hleave⟩ := Option.bind_eq_some_iff.1 h
    refine Option.bind_eq_some_iff.2 ⟨s₁, foldlM_mono (fun t w t' hvisit => ?_) hscan, hleave⟩
    rw [visit] at hvisit ⊢
    split_ifs at hvisit ⊢ with hnew hmem
    · obtain ⟨t₁, ht₁, he⟩ := Option.map_eq_some_iff.1 hvisit
      exact Option.map_eq_some_iff.2 ⟨t₁, ih (by omega) ht₁, he⟩
    · exact hvisit
    · exact hvisit

theorem components_mono {fuel more : ℕ} (hle : fuel ≤ more) {nodes : List α} {s' : State α}
    (h : components succ fuel nodes = some s') : components succ more nodes = some s' := by
  refine foldlM_mono (fun t v t' hroot => ?_) h
  rw [root] at hroot ⊢
  split_ifs at hroot ⊢
  · exact connect_mono hle hroot
  · exact hroot

theorem Inv.lower (h : Inv succ path s) (n : ℕ) : Inv succ path (s.lower v n) :=
  { h with }

/-! ## A node is entered -/

section Enter

variable (hv : s.index v = none)

@[simp] theorem index_enter_self : (s.enter v).index v = some s.counter :=
  Function.update_self _ _ _

@[simp] theorem indexOf_enter_self : (s.enter v).indexOf v = s.counter := by
  rw [State.indexOf, index_enter_self, Option.getD_some]

@[simp] theorem lowOf_enter_self : (s.enter v).lowOf v = s.counter := by
  have hlow : (s.enter v).low v = some s.counter := Function.update_self _ _ _
  rw [State.lowOf, hlow, Option.getD_some]

include hv

theorem extends_enter : Extends s (s.enter v) := by
  have hne : ∀ {x}, s.index x ≠ none → x ≠ v := fun hx he => hx (he ▸ hv)
  refine ⟨fun x hx => Function.update_of_ne (hne hx) _ _,
    fun x hx => Function.update_of_ne (hne hx) _ _, fun x i hx hi => ?_⟩
  by_cases he : x = v
  · rw [he, index_enter_self] at hi
    exact (Option.some.inj hi).le
  · have hsame : (s.enter v).index x = s.index x := Function.update_of_ne he _ _
    exact absurd (hi.symm.trans (hsame.trans hx)) (Option.some_ne_none i)

theorem done_enter {x : α} : (s.enter v).Done x ↔ s.Done x := by
  by_cases he : x = v
  · rw [he]
    exact iff_of_false (fun h => h.2 List.mem_cons_self) fun h => h.1 hv
  · have hsame : (s.enter v).index x = s.index x := Function.update_of_ne he _ _
    rw [State.Done, hsame]
    exact and_congr_right fun _ => not_congr (by rw [State.enter, List.mem_cons, or_iff_right he])

theorem Inv.enter (h : Inv succ path s) (hpath : ∀ g ∈ path, Reach succ g v) :
    Inv succ (v :: path) (s.enter v) := by
  have hext := extends_enter hv
  have hindexOf : ∀ x ∈ s.stack, (s.enter v).indexOf x = s.indexOf x := fun x hx =>
    hext.indexOf (h.visited x hx)
  have hlt : ∀ x ∈ s.stack, s.indexOf x < s.counter := fun x hx => h.indexOf_lt (h.visited x hx)
  constructor
  case index_lt =>
    intro x i hi
    by_cases he : x = v
    · rw [he, index_enter_self] at hi
      exact (Option.some.inj hi) ▸ Nat.lt_succ_self _
    · have hsame : (s.enter v).index x = s.index x := Function.update_of_ne he _ _
      exact Nat.lt_succ_of_lt (h.index_lt (hsame ▸ hi))
  case visited =>
    intro x hx
    rcases List.mem_cons.1 hx with rfl | hx
    · rw [index_enter_self]
      exact Option.some_ne_none _
    · exact hext.visited (h.visited x hx)
  case sorted =>
    refine List.pairwise_cons.2 ⟨fun x hx => ?_, h.sorted.imp_of_mem fun hx hy hxy => ?_⟩
    · rw [hindexOf x hx, indexOf_enter_self]
      exact hlt x hx
    · rw [hindexOf _ hx, hindexOf _ hy]
      exact hxy
  case mem_onStack =>
    intro x
    rw [State.enter, Finset.mem_insert, List.mem_cons, h.mem_onStack]
  case path_subset =>
    intro x hx
    rcases List.mem_cons.1 hx with rfl | hx
    · exact List.mem_cons_self
    · exact List.mem_cons_of_mem _ (h.path_subset x hx)
  case followed =>
    intro x hx hpath y hy
    obtain ⟨hne, hout⟩ := List.ne_and_not_mem_of_not_mem_cons hpath
    have hsame : (s.enter v).index x = s.index x := Function.update_of_ne hne _ _
    exact hext.visited (h.followed x (hsame ▸ hx) hout y hy)
  case closed =>
    intro x hx y hy
    exact (done_enter hv).2 (h.closed x ((done_enter hv).1 hx) y hy)
  case down =>
    intro x hx
    rcases List.mem_cons.1 hx with rfl | hx
    · exact ⟨x, List.mem_cons_self, le_rfl, .refl⟩
    · obtain ⟨g, hg, hle, hreach⟩ := h.down x hx
      refine ⟨g, List.mem_cons_of_mem _ hg, ?_, hreach⟩
      rw [hindexOf x hx, hindexOf g (h.path_subset g hg)]
      exact hle
  case up =>
    intro g hg x hx hle
    rcases List.mem_cons.1 hx with rfl | hold
    · rcases List.mem_cons.1 hg with rfl | hg
      · exact .refl
      · exact hpath g hg
    · rw [hindexOf x hold] at hle
      rcases List.mem_cons.1 hg with rfl | hg
      · -- Nothing that was there before is above the node.
        rw [indexOf_enter_self] at hle
        exact absurd hle (hlt x hold).not_ge
      · rw [hindexOf g (h.path_subset g hg)] at hle
        exact h.up g hg x hold hle
  case isComponent => exact h.isComponent
  case done_iff => exact fun x => (done_enter hv).trans (h.done_iff x)
  case nodup => exact h.nodup

theorem scan_enter (h : Inv succ path s) (hpath : ∀ g ∈ path, Reach succ g v) :
    Scan succ path v s [] (s.enter v) where
  inv := h.enter hv hpath
  later := extends_enter hv
  index := index_enter_self
  stack := ⟨[], rfl⟩
  low_le := lowOf_enter_self.le
  low := ⟨v, List.mem_cons_self, indexOf_enter_self.trans lowOf_enter_self.symm, .refl⟩
  cross _ hx hnew := absurd hx hnew
  seen _ h := absurd h List.not_mem_nil

end Enter

/-! ## An edge is followed -/

section Visit

variable {seen : List α}

@[simp] theorem lowOf_lower_self {n : ℕ} : (s.lower v n).lowOf v = min (s.lowOf v) n := by
  have hlow : (s.lower v n).low v = some (min (s.lowOf v) n) := Function.update_self _ _ _
  rw [State.lowOf, hlow, Option.getD_some]

variable (h₀ : Inv succ path s₀) (h : Scan succ path v s₀ seen s)

include h₀ h

/-- The low link is lowered to that of a node that the search has gone on to, or to the index of one
on the stack. -/
theorem Scan.lower {s₁ : State α} {n : ℕ} (hinv : Inv succ (v :: path) s₁) (hlater : Extends s s₁)
    (hstack : ∃ new, s₁.stack = new ++ s.stack)
    (hcross : ∀ x ∈ s₁.stack, x ∉ s.stack → ∀ y ∈ succ x, y ∈ s.stack → n ≤ s.indexOf y)
    (hlow : n < s.lowOf v → ∃ y ∈ s.stack, s.indexOf y = n ∧ Reach succ v y)
    (hw : s₁.index w ≠ none) (hle : w ∈ s.stack → n ≤ s.indexOf w) :
    Scan succ path v s₀ (seen ++ [w]) (s₁.lower v n) := by
  have hv : s.index v ≠ none := by
    rw [h.index]
    exact Option.some_ne_none _
  have hlowOf : (s₁.lower v n).lowOf v = min (s.lowOf v) n := by
    rw [lowOf_lower_self, hlater.lowOf hv]
  have hlater₀ := h.later.trans hlater (h.counter_lt.le)
  constructor
  case inv => exact hinv.lower n
  case later =>
    refine ⟨hlater₀.index, fun x hx => ?_, hlater₀.fresh⟩
    have hne : x ≠ v := by
      rintro rfl
      exact (h₀.index_lt ((h.later.index x hx).symm.trans h.index)).false
    exact (Function.update_of_ne hne _ _).trans (hlater₀.low x hx)
  case index => exact (hlater.index v hv).trans h.index
  case stack =>
    obtain ⟨new, hnew⟩ := h.stack
    obtain ⟨newer, hnewer⟩ := hstack
    exact ⟨newer ++ new, hnewer.trans (by rw [hnew, List.append_assoc])⟩
  case low_le => exact hlowOf.le.trans ((min_le_left _ _).trans h.low_le)
  case low =>
    rw [hlowOf]
    by_cases hn : n < s.lowOf v
    · obtain ⟨y, hy, hindex, hreach⟩ := hlow hn
      have hbelow : y ∈ v :: s₀.stack :=
        h.mem_of_indexOf_le hy (hindex.le.trans (hn.le.trans h.low_le))
      rw [min_eq_right hn.le]
      exact ⟨y, hbelow, (hlater.indexOf (h.inv.visited y hy)).trans hindex, hreach⟩
    · obtain ⟨y, hy, hindex, hreach⟩ := h.low
      rw [min_eq_left (not_lt.1 hn)]
      exact ⟨y, hy, (hlater.indexOf (h.inv.visited y (h.mem_of_mem hy))).trans hindex, hreach⟩
  case cross =>
    intro x hx hnew y hy hbelow
    rw [hlowOf]
    by_cases hxs : x ∈ s.stack
    · exact (min_le_left _ _).trans (h.cross x hxs hnew y hy hbelow)
    · rw [← (h.indexOf_below h₀ hbelow).1]
      exact (min_le_right _ _).trans
        (hcross x hx hxs y hy (h.mem_of_mem (List.mem_cons_of_mem _ hbelow)))
  case seen =>
    intro x hx
    rw [hlowOf]
    rcases List.mem_append.1 hx with hx | hx
    · obtain ⟨hvisited, hlex⟩ := h.seen x hx
      exact ⟨hlater.visited hvisited, fun hbelow => (min_le_left _ _).trans (hlex hbelow)⟩
    · obtain rfl := List.mem_singleton.1 hx
      refine ⟨hw, fun hbelow => (min_le_right _ _).trans ?_⟩
      rw [← (h.indexOf_below h₀ hbelow).1]
      exact hle (h.mem_of_mem (List.mem_cons_of_mem _ hbelow))

/-- An edge of the node is followed: what the search from its end does, it does from here. -/
theorem Scan.visit {go : α → State α → Option (State α)}
    (hgo : s.index w = none → ∃ s', go w s = some s' ∧ Connected succ (v :: path) w s s')
    (hw : w ∈ succ v) :
    ∃ s', visit go v s w = some s' ∧ Scan succ path v s₀ (seen ++ [w]) s' := by
  rw [Tarjan.visit]
  by_cases hnew : s.index w = none
  · obtain ⟨s₁, hrun, hs₁⟩ := hgo hnew
    rw [if_pos hnew, hrun]
    refine ⟨_, rfl, h.lower h₀ hs₁.inv hs₁.later hs₁.stack hs₁.cross ?_ hs₁.visited ?_⟩
    · intro hlt
      rcases hs₁.low with ⟨y, hy, hindex, hreach⟩ | ⟨-, hle⟩
      · exact ⟨y, hy, hindex, .head hw hreach⟩
      · have hcounter := h.counter_lt
        have hlow := h.low_le
        omega
    · exact fun hmem => absurd hnew (h.inv.visited w hmem)
  rw [if_neg hnew]
  by_cases hmem : w ∈ s.onStack
  · have hmem' := (h.inv.mem_onStack w).1 hmem
    rw [if_pos hmem]
    refine ⟨_, rfl, h.lower h₀ h.inv (.refl s) ⟨[], rfl⟩ ?_ ?_ hnew fun _ => le_rfl⟩
    · exact fun x hx hnot => absurd hx hnot
    · exact fun _ => ⟨w, hmem', rfl, .single hw⟩
  · rw [if_neg hmem]
    refine ⟨s, rfl, { h with seen := fun x hx => ?_ }⟩
    rcases List.mem_append.1 hx with hx | hx
    · exact h.seen x hx
    · obtain rfl := List.mem_singleton.1 hx
      refine ⟨hnew, fun hbelow => absurd ?_ hmem⟩
      exact (h.inv.mem_onStack x).2 (h.mem_of_mem (List.mem_cons_of_mem _ hbelow))

end Visit

/-! ## A node is left -/

theorem Scan.done_pop {seen : List α} (h : Scan succ path v s₀ seen s) {new : List α}
    (hnew : s.stack = new ++ v :: s₀.stack) {x : α} :
    (s.pop (new ++ [v]) s₀.stack).Done x ↔ s.Done x ∨ x ∈ new ++ [v] := by
  rw [h.mem_append_iff hnew]
  constructor
  · rintro ⟨hvisited, hout⟩
    by_cases hmem : x ∈ s.stack
    · exact .inr ⟨hmem, hout⟩
    · exact .inl ⟨hvisited, hmem⟩
  · rintro (⟨hvisited, hout⟩ | ⟨hmem, hout⟩)
    · exact ⟨hvisited, fun hbelow => hout (h.mem_of_mem (List.mem_cons_of_mem _ hbelow))⟩
    · exact ⟨h.inv.visited x hmem, hout⟩

section Leave

variable (h₀ : Inv succ path s₀) (h : Scan succ path v s₀ (succ v) s)

include h₀ h

/-- Every edge of what is new has been followed. -/
theorem Scan.followed {x : α} (hx : x ∈ s.stack) (hnew : x ∉ s₀.stack) :
    ∀ y ∈ succ x, s.index y ≠ none ∧ (y ∈ s₀.stack → s.lowOf v ≤ s₀.indexOf y) := by
  intro y hy
  by_cases he : x = v
  · rw [he] at hy
    exact h.seen y hy
  · have hout : x ∉ v :: s₀.stack := fun hmem => (List.mem_cons.1 hmem).elim he hnew
    have hpath : x ∉ v :: path := fun hmem =>
      hout ((List.mem_cons.1 hmem).elim (fun he' => absurd he' he) fun hp =>
        List.mem_cons_of_mem _ (h₀.path_subset x hp))
    exact ⟨h.inv.followed x (h.inv.visited x hx) hpath y hy, h.cross x hx hout y hy⟩

section Root

variable (hroot : s.lowOf v = s₀.counter)

include hroot

/-- No edge leads from what is new on the stack to what was there before. -/
theorem Scan.edge {x y : α} (hx : x ∈ s.stack ∧ x ∉ s₀.stack) (hy : y ∈ succ x) :
    (y ∈ s.stack ∧ y ∉ s₀.stack) ∨ s.Done y := by
  obtain ⟨hvisited, hle⟩ := h.followed h₀ hx.1 hx.2 y hy
  by_cases hmem : y ∈ s.stack
  · refine .inl ⟨hmem, fun hbelow => ?_⟩
    have hlt := (h.indexOf_below h₀ hbelow).2
    have hge := hle hbelow
    omega
  · exact .inr ⟨hvisited, hmem⟩

theorem Scan.reach {x y : α} (hx : x ∈ s.stack ∧ x ∉ s₀.stack) (hreach : Reach succ x y) :
    (y ∈ s.stack ∧ y ∉ s₀.stack) ∨ s.Done y := by
  refine hreach.of_closed (P := fun y => (y ∈ s.stack ∧ y ∉ s₀.stack) ∨ s.Done y) ?_ (.inl hx)
  rintro x (hx | hx) y hy
  · exact h.edge h₀ hroot hx hy
  · exact .inr (h.inv.closed x hx y hy)

/-- What is new on the stack is the component of the node. -/
theorem Scan.mem_iff {x : α} :
    (x ∈ s.stack ∧ x ∉ s₀.stack) ↔ Reach succ v x ∧ Reach succ x v := by
  have hself := h.self_mem
  constructor
  · intro hx
    by_cases he : x = v
    · rw [he]
      exact ⟨.refl, .refl⟩
    have hle : s.indexOf v ≤ s.indexOf x := by
      rw [h.indexOf_self]
      by_contra hlt
      rcases List.mem_cons.1 (h.mem_of_indexOf_le hx.1 (not_le.1 hlt).le) with hv | hbelow
      · exact he hv
      · exact hx.2 hbelow
    refine ⟨h.inv.up v List.mem_cons_self x hx.1 hle, ?_⟩
    -- Down from there the path is reached, and of it only the node is not below.
    obtain ⟨g, hg, -, hreach⟩ := h.inv.down x hx.1
    rcases h.reach h₀ hroot hx hreach with hnew | hdone
    · rcases List.mem_cons.1 hg with rfl | hg
      · exact hreach
      · exact absurd (h₀.path_subset g hg) hnew.2
    · exact absurd (h.inv.path_subset g hg) hdone.2
  · rintro ⟨hvx, hxv⟩
    rcases h.reach h₀ hroot ⟨hself, h.not_mem h₀⟩ hvx with hnew | hdone
    · exact hnew
    · exact absurd hself (h.inv.done_of_reach hdone hxv).2

theorem Scan.inv_pop {new : List α} (hnew : s.stack = new ++ v :: s₀.stack) :
    Inv succ path (s.pop (new ++ [v]) s₀.stack) := by
  have hbelow : ∀ {x}, x ∈ s₀.stack → x ∈ s.stack := fun hx =>
    h.mem_of_mem (List.mem_cons_of_mem _ hx)
  have hindexOf : ∀ {x}, x ∈ s₀.stack → s.indexOf x = s₀.indexOf x := fun hx =>
    (h.indexOf_below h₀ hx).1
  have hdone := fun {x} => h.done_pop hnew (x := x)
  constructor
  case index_lt => exact h.inv.index_lt
  case visited => exact fun x hx => h.inv.visited x (hbelow hx)
  case sorted =>
    have hsorted := h.inv.sorted
    rw [hnew] at hsorted
    exact (List.pairwise_cons.1 (List.pairwise_append.1 hsorted).2.1).2
  case mem_onStack =>
    intro x
    rw [State.pop, Finset.mem_sdiff, List.mem_toFinset, h.mem_append_iff hnew, h.inv.mem_onStack,
      not_and_not_right]
    exact ⟨fun hx => hx.2 hx.1, fun hx => ⟨hbelow hx, fun _ => hx⟩⟩
  case path_subset => exact h₀.path_subset
  case followed =>
    intro x hx hpath y hy
    by_cases hmem : x ∈ s.stack ∧ x ∉ s₀.stack
    · exact (h.followed h₀ hmem.1 hmem.2 y hy).1
    · have hne : x ≠ v := fun he => hmem (he ▸ ⟨h.self_mem, h.not_mem h₀⟩)
      exact h.inv.followed x hx (fun hp => (List.mem_cons.1 hp).elim hne hpath) y hy
  case closed =>
    intro x hx y hy
    rcases hdone.1 hx with hx | hx
    · exact hdone.2 (.inl (h.inv.closed x hx y hy))
    · rcases h.edge h₀ hroot ((h.mem_append_iff hnew).1 hx) hy with hy | hy
      · exact hdone.2 (.inr ((h.mem_append_iff hnew).2 hy))
      · exact hdone.2 (.inl hy)
  case down =>
    intro x hx
    obtain ⟨g, hg, hle, hreach⟩ := h₀.down x hx
    rw [← hindexOf hx, ← hindexOf (h₀.path_subset g hg)] at hle
    exact ⟨g, hg, hle, hreach⟩
  case up =>
    intro g hg x hx hle
    exact h.inv.up g (List.mem_cons_of_mem _ hg) x (hbelow hx) hle
  case isComponent =>
    intro c hc
    rcases List.mem_append.1 hc with hc | hc
    · exact h.inv.isComponent c hc
    · obtain rfl := List.mem_singleton.1 hc
      exact ⟨v, fun x => (h.mem_append_iff hnew).trans (h.mem_iff h₀ hroot)⟩
  case done_iff =>
    intro x
    rw [hdone, h.inv.done_iff, State.pop, List.flatten_append, List.flatten_singleton]
    exact List.mem_append.symm
  case nodup =>
    rw [State.pop, List.flatten_append, List.flatten_singleton]
    refine List.nodup_append.2 ⟨h.inv.nodup, ?_, ?_⟩
    · have hnodup := h.inv.nodup_stack
      rw [hnew, ← List.singleton_append, ← List.append_assoc] at hnodup
      exact (List.nodup_append.1 hnodup).1
    · intro x hx y hy he
      rw [he] at hx
      exact ((h.inv.done_iff y).2 hx).2 ((h.mem_append_iff hnew).1 hy).1

end Root

/-- A node that is not the first one of its component stays on the stack. -/
theorem Scan.inv_stay (hlow : s.lowOf v ≠ s₀.counter) : Inv succ path s := by
  have hlt : s.lowOf v < s₀.counter := lt_of_le_of_ne h.low_le hlow
  refine { h.inv with path_subset := ?_, followed := ?_, down := ?_, up := ?_ }
  · exact fun x hx => h.inv.path_subset x (List.mem_cons_of_mem _ hx)
  · intro x hx hpath y hy
    by_cases he : x = v
    · rw [he] at hy
      exact (h.seen y hy).1
    · exact h.inv.followed x hx (fun hp => (List.mem_cons.1 hp).elim he hpath) y hy
  · intro x hx
    obtain ⟨g, hg, hle, hreach⟩ := h.inv.down x hx
    rcases List.mem_cons.1 hg with rfl | hg
    · -- From the node on, what is on the stack below it leads to the path.
      obtain ⟨y, hy, hindex, hgy⟩ := h.low
      rcases List.mem_cons.1 hy with rfl | hy
      · rw [h.indexOf_self] at hindex
        omega
      · obtain ⟨g', hg', hle', hreach'⟩ := h₀.down y hy
        refine ⟨g', hg', ?_, (hreach.trans hgy).trans hreach'⟩
        rw [h.indexOf_self] at hle
        rw [(h.indexOf_below h₀ hy).1] at hindex
        rw [(h.indexOf_below h₀ (h₀.path_subset g' hg')).1]
        omega
    · exact ⟨g, hg, hle, hreach⟩
  · exact fun g hg => h.inv.up g (List.mem_cons_of_mem _ hg)

theorem Scan.leave : ∃ s', leave v s = some s' ∧ Connected succ path v s₀ s' := by
  have hself : s.index v ≠ none := by
    rw [h.index]
    exact Option.some_ne_none _
  obtain ⟨new, hnew⟩ := h.stack
  rw [Tarjan.leave, h.indexOf_self]
  by_cases hroot : s.lowOf v = s₀.counter
  · have hv : v ∉ new := by
      have hnodup := h.inv.nodup_stack
      rw [hnew] at hnodup
      exact fun hmem => (List.nodup_append.1 hnodup).2.2 v hmem v List.mem_cons_self rfl
    rw [if_pos hroot, hnew, popTo_append hv]
    refine ⟨s.pop (new ++ [v]) s₀.stack, rfl, h.inv_pop h₀ hroot hnew, { h.later with }, hself,
      ⟨[], rfl⟩, ?_, .inr ⟨rfl, hroot.ge⟩⟩
    exact fun x hx hout => absurd hx hout
  · rw [if_neg hroot]
    refine ⟨s, rfl, h.inv_stay h₀ hroot, h.later, hself, ⟨new ++ [v], ?_⟩, ?_, .inl ?_⟩
    · rw [hnew, List.append_assoc, List.singleton_append]
    · exact fun x hx hout y hy hbelow => (h.followed h₀ hx hout y hy).2 hbelow
    · obtain ⟨y, hy, hindex, hreach⟩ := h.low
      rcases List.mem_cons.1 hy with rfl | hy
      · exact absurd (hindex.symm.trans h.indexOf_self) hroot
      · exact ⟨y, hy, (h.indexOf_below h₀ hy).1.symm.trans hindex, hreach⟩

end Leave

/-! ## The search -/

section Search

variable {U : Finset α} (hU : ∀ x ∈ U, ∀ y ∈ succ x, y ∈ U)

include hU

/-- The search from a node ends, if there is fuel for the nodes that can still be entered. -/
theorem connect_spec {fuel : ℕ} (h : Inv succ path s) (hv : s.index v = none) (hvU : v ∈ U)
    (hpath : ∀ g ∈ path, Reach succ g v) (hfuel : unentered U s ≤ fuel) :
    ∃ s', connect succ fuel v s = some s' ∧ Connected succ path v s s' := by
  induction fuel generalizing path s v with
  | zero =>
    have hmem : v ∈ U.filter fun x => s.index x = none := Finset.mem_filter.2 ⟨hvU, hv⟩
    exact absurd (Finset.card_pos.2 ⟨v, hmem⟩) (Nat.le_zero.1 hfuel).not_gt
  | succ fuel ih =>
    -- The edges one after the other, those before being followed.
    have hscan : ∀ todo seen s₁, succ v = seen ++ todo → Scan succ path v s seen s₁ →
        ∃ s₂, todo.foldlM (visit (connect succ fuel) v) s₁ = some s₂ ∧
          Scan succ path v s (succ v) s₂ := by
      intro todo
      induction todo with
      | nil =>
        intro seen s₁ hsplit hs₁
        rw [List.append_nil] at hsplit
        exact ⟨s₁, rfl, hsplit ▸ hs₁⟩
      | cons w todo ihtodo =>
        intro seen s₁ hsplit hs₁
        have hw : w ∈ succ v := by
          rw [hsplit]
          exact List.mem_append_right _ List.mem_cons_self
        have hpathw : ∀ g ∈ v :: path, Reach succ g w := by
          intro g hg
          rcases List.mem_cons.1 hg with rfl | hg
          · exact .single hw
          · exact (hpath g hg).tail hw
        have hleft : unentered U s₁ ≤ fuel := by
          have hentered : s₁.index v ≠ none := by
            rw [hs₁.index]
            exact Option.some_ne_none _
          have hlt := unentered_lt hvU hv hentered hs₁.later
          omega
        have hgo : s₁.index w = none → ∃ s', connect succ fuel w s₁ = some s' ∧
            Connected succ (v :: path) w s₁ s' := fun hnew =>
          ih hs₁.inv hnew (hU v hvU w hw) hpathw hleft
        obtain ⟨s₂, hrun, hs₂⟩ := hs₁.visit h hgo hw
        obtain ⟨s₃, hrest, hs₃⟩ := ihtodo (seen ++ [w]) s₂
          (by rw [hsplit, List.append_assoc, List.singleton_append]) hs₂
        refine ⟨s₃, ?_, hs₃⟩
        rw [List.foldlM_cons, hrun]
        exact hrest
    obtain ⟨s₁, hrun, hs₁⟩ := hscan (succ v) [] (s.enter v) rfl (scan_enter hv h hpath)
    obtain ⟨s₂, hleave, hs₂⟩ := hs₁.leave h
    refine ⟨s₂, ?_, hs₂⟩
    rw [connect, hrun]
    exact hleave

/-- The search from all nodes ends, and finds the component of each, every node once. -/
theorem components_spec (nodes : List α) (hnodes : ∀ x ∈ nodes, x ∈ U) :
    ∃ s, (∀ fuel, U.card ≤ fuel → components succ fuel nodes = some s) ∧
      (∀ c ∈ s.sccs, IsComponent succ c) ∧ s.sccs.flatten.Nodup ∧
      ∀ x ∈ nodes, x ∈ s.sccs.flatten := by
  have hrun : ∀ (todo : List α) s₀, (∀ x ∈ todo, x ∈ U) → Inv succ [] s₀ →
      ∃ s, todo.foldlM (root succ U.card) s₀ = some s ∧ Inv succ [] s ∧
        (∀ x, s₀.index x ≠ none → s.index x ≠ none) ∧ ∀ x ∈ todo, s.index x ≠ none := by
    intro todo
    induction todo with
    | nil => exact fun s₀ _ h₀ => ⟨s₀, rfl, h₀, fun _ => id, fun _ h => absurd h List.not_mem_nil⟩
    | cons v todo ih =>
      intro s₀ htodo h₀
      obtain ⟨s₁, hroot, h₁, hkept, hv⟩ : ∃ s₁, root succ U.card s₀ v = some s₁ ∧ Inv succ [] s₁ ∧
          (∀ x, s₀.index x ≠ none → s₁.index x ≠ none) ∧ s₁.index v ≠ none := by
        rw [root]
        by_cases hv : s₀.index v = none
        · obtain ⟨s₁, hconnect, hs₁⟩ := connect_spec hU h₀ hv (htodo v List.mem_cons_self)
            (fun _ h => absurd h List.not_mem_nil) (Finset.card_filter_le _ _)
          rw [if_pos hv]
          exact ⟨s₁, hconnect, hs₁.inv, fun _ hx => hs₁.later.visited hx, hs₁.visited⟩
        · rw [if_neg hv]
          exact ⟨s₀, rfl, h₀, fun _ => id, hv⟩
      obtain ⟨s, hrest, hs, hkept', hall⟩ :=
        ih s₁ (fun x hx => htodo x (List.mem_cons_of_mem _ hx)) h₁
      refine ⟨s, ?_, hs, fun x hx => hkept' x (hkept x hx), fun x hx => ?_⟩
      · rw [List.foldlM_cons, hroot]
        exact hrest
      · rcases List.mem_cons.1 hx with rfl | hx
        · exact hkept' x hv
        · exact hall x hx
  obtain ⟨s, hs, hinv, -, hall⟩ := hrun nodes State.empty hnodes inv_empty
  refine ⟨s, fun fuel hfuel => components_mono hfuel hs, hinv.isComponent, hinv.nodup,
    fun x hx => (hinv.done_iff x).1 ⟨hall x hx, ?_⟩⟩
  -- With no path to reach, nothing is on the stack.
  intro hmem
  obtain ⟨g, hg, -⟩ := hinv.down x hmem
  exact absurd hg List.not_mem_nil

end Search

end Smrt.Tarjan
