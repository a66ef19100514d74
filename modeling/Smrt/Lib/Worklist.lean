import Mathlib.Algebra.BigOperators.Group.Finset.Basic
import Mathlib.Algebra.Order.BigOperators.Group.Finset
import Mathlib.Logic.Relation

/-!
# Worklists

The loop that closes a set under a successor function: pop a node off a stack;
unless it is in the set already, put it there and push its successors.

  while let Some(a) = stack.pop() {
      if set.insert(a) { stack.extend(successors(a)); }
  }

`closure` is that loop. It terminates when only the nodes of a finite set `U` have
successors: every pop shrinks the `potential`, the length of the stack and the
number of pushes that the nodes not yet in the set can still make. The potential
is the fuel of the recursion, and the loop's own equations (`closure_nil`,
`closure_of_mem`, `closure_of_not_mem`) hold of it, so that nothing below them
knows about fuel.

* `exists_iterate_pop`: pop by pop, without fuel, the loop comes to its end;
* `subset_closure`, `mem_closure_of_mem_stack`: the set and the stack are in it;
* `closure_closed`: it is closed under the successors of what the loop inserted;
* `mem_closure`: it is exactly the set and what the stack reaches, if the
  successors of the set are in it or on the stack to begin with (`Flushed`).
-/

namespace Smrt.Worklist

open Relation

variable {α : Type*} [DecidableEq α] (succ : α → List α) (U : Finset α)

/-- How many more pops the loop can make: the stack, and what the nodes outside the
    set will push on it. -/
def potential (set : Finset α) (stack : List α) : ℕ :=
  stack.length + ∑ a ∈ U \ set, (succ a).length

/-- The loop, for at most as many pops as there is fuel. The head of the list is the
    top of the stack, so the last successor is popped first. -/
def closureFuel : ℕ → Finset α → List α → Finset α
  | _, set, [] => set
  | 0, set, _ :: _ => set
  | fuel + 1, set, a :: stack =>
    if a ∈ set then closureFuel fuel set stack
    else closureFuel fuel (insert a set) ((succ a).reverse ++ stack)

/-- The set closed under successors by the worklist loop. -/
def closure (set : Finset α) (stack : List α) : Finset α :=
  closureFuel succ (potential succ U set stack) set stack

/-- Only the nodes of `U` have successors. -/
def Supported : Prop := ∀ a, a ∉ U → succ a = []

variable {succ U} (hU : Supported succ U)

/-! ## The equations of the loop -/

theorem potential_of_mem (a : α) (set : Finset α) (stack : List α) :
    potential succ U set (a :: stack) = potential succ U set stack + 1 := by
  simp only [potential, List.length_cons]
  omega

include hU in
/-- Inserting a node moves its pushes from what can still come to the stack. -/
theorem potential_of_not_mem {a : α} {set : Finset α} (ha : a ∉ set) (stack : List α) :
    potential succ U set (a :: stack) =
      potential succ U (insert a set) ((succ a).reverse ++ stack) + 1 := by
  have hsum : ∑ b ∈ U \ set, (succ b).length =
      (succ a).length + ∑ b ∈ U \ insert a set, (succ b).length := by
    by_cases haU : a ∈ U
    · have hmem : a ∈ U \ set := Finset.mem_sdiff.2 ⟨haU, ha⟩
      rw [← Finset.add_sum_erase _ _ hmem, Finset.sdiff_insert]
    · have herase : U \ insert a set = U \ set := by
        rw [Finset.sdiff_insert, Finset.erase_eq_of_notMem]
        exact fun h => haU (Finset.mem_sdiff.1 h).1
      rw [herase, hU a haU, List.length_nil, zero_add]
  simp only [potential, hsum, List.length_cons, List.length_append, List.length_reverse]
  omega

/-- An empty stack ends the loop. -/
@[simp] theorem closure_nil (set : Finset α) : closure succ U set [] = set := by
  rw [closure, closureFuel]

/-- A node of the set is popped, and that is all. -/
theorem closure_of_mem {a : α} {set : Finset α} (ha : a ∈ set) (stack : List α) :
    closure succ U set (a :: stack) = closure succ U set stack := by
  rw [closure, potential_of_mem, closureFuel, if_pos ha, closure]

include hU in
/-- A new node is inserted, and its successors are pushed. -/
theorem closure_of_not_mem {a : α} {set : Finset α} (ha : a ∉ set) (stack : List α) :
    closure succ U set (a :: stack) =
      closure succ U (insert a set) ((succ a).reverse ++ stack) := by
  rw [closure, potential_of_not_mem hU ha, closureFuel, if_neg ha, closure]

include hU in
/-- Induction along the pops of the loop. -/
theorem induction_on {P : Finset α → List α → Prop} (nil : ∀ set, P set [])
    (mem : ∀ a set stack, a ∈ set → P set stack → P set (a :: stack))
    (not_mem : ∀ a set stack, a ∉ set → P (insert a set) ((succ a).reverse ++ stack) →
      P set (a :: stack)) (set : Finset α) (stack : List α) : P set stack := by
  induction h : potential succ U set stack generalizing set stack with
  | zero =>
    cases stack with
    | nil => exact nil set
    | cons a stack => simp [potential] at h
  | succ n ih =>
    cases stack with
    | nil => exact nil set
    | cons a stack =>
      by_cases ha : a ∈ set
      · rw [potential_of_mem] at h
        exact mem a set stack ha (ih _ _ (by omega))
      · rw [potential_of_not_mem hU ha] at h
        exact not_mem a set stack ha (ih _ _ (by omega))

/-! ## One pop after the other -/

section Pop

variable (succ)

/-- One pop of the loop: what is done with the node on top of the stack. -/
def pop : Finset α × List α → Finset α × List α
  | (set, []) => (set, [])
  | (set, a :: stack) =>
    if a ∈ set then (set, stack) else (insert a set, (succ a).reverse ++ stack)

end Pop

include hU in
/-- The loop terminates: some number of pops empties the stack, and what is then in the set is the
    closure. -/
theorem exists_iterate_pop (set : Finset α) (stack : List α) :
    ∃ n, (pop succ)^[n] (set, stack) = (closure succ U set stack, []) := by
  induction set, stack using induction_on hU with
  | nil set => exact ⟨0, by rw [closure_nil, Function.iterate_zero, id]⟩
  | mem a set stack ha ih =>
    obtain ⟨n, hn⟩ := ih
    refine ⟨n + 1, ?_⟩
    rw [Function.iterate_succ_apply, pop, if_pos ha, hn, closure_of_mem ha]
  | not_mem a set stack ha ih =>
    obtain ⟨n, hn⟩ := ih
    refine ⟨n + 1, ?_⟩
    rw [Function.iterate_succ_apply, pop, if_neg ha, hn, closure_of_not_mem hU ha]

/-! ## What the loop computes -/

include hU in
theorem subset_closure (set : Finset α) (stack : List α) : set ⊆ closure succ U set stack := by
  induction set, stack using induction_on hU with
  | nil set => rw [closure_nil]
  | mem a set stack ha ih => rw [closure_of_mem ha]; exact ih
  | not_mem a set stack ha ih =>
    rw [closure_of_not_mem hU ha]
    exact (Finset.subset_insert a set).trans ih

include hU in
theorem mem_closure_of_mem_stack {set : Finset α} {stack : List α} :
    ∀ a ∈ stack, a ∈ closure succ U set stack := by
  induction set, stack using induction_on hU with
  | nil set => exact fun _ h => absurd h List.not_mem_nil
  | mem a set stack ha ih =>
    rw [closure_of_mem ha]
    intro b hb
    rcases List.mem_cons.1 hb with rfl | hb
    · exact subset_closure hU _ _ ha
    · exact ih b hb
  | not_mem a set stack ha ih =>
    rw [closure_of_not_mem hU ha]
    intro b hb
    rcases List.mem_cons.1 hb with rfl | hb
    · exact subset_closure hU _ _ (Finset.mem_insert_self _ _)
    · exact ih b (List.mem_append_right _ hb)

include hU in
/-- The successors of what the loop inserted are in the closure. -/
theorem closure_closed {set : Finset α} {stack : List α} :
    ∀ a ∈ closure succ U set stack, a ∉ set → ∀ b ∈ succ a, b ∈ closure succ U set stack := by
  induction set, stack using induction_on hU with
  | nil set =>
    rw [closure_nil]
    exact fun a ha hna => absurd ha hna
  | mem a set stack ha ih => rw [closure_of_mem ha]; exact ih
  | not_mem a set stack ha ih =>
    rw [closure_of_not_mem hU ha]
    intro c hc hcset b hb
    by_cases hca : c = a
    · -- The node just inserted: its successors are on the stack.
      rw [hca] at hb
      exact mem_closure_of_mem_stack hU b
        (List.mem_append_left _ (List.mem_reverse.2 hb))
    · exact ih c hc (by simp [hca, hcset]) b hb

include hU in
/-- What the loop inserts is reached from the stack. -/
theorem reached_of_mem_closure {set : Finset α} {stack : List α} :
    ∀ a ∈ closure succ U set stack,
      a ∈ set ∨ ∃ b ∈ stack, ReflTransGen (fun x y => y ∈ succ x) b a := by
  induction set, stack using induction_on hU with
  | nil set => rw [closure_nil]; exact fun _ h => .inl h
  | mem a set stack ha ih =>
    rw [closure_of_mem ha]
    intro c hc
    rcases ih c hc with h | ⟨b, hb, h⟩
    · exact .inl h
    · exact .inr ⟨b, List.mem_cons_of_mem _ hb, h⟩
  | not_mem a set stack ha ih =>
    rw [closure_of_not_mem hU ha]
    intro c hc
    rcases ih c hc with h | ⟨b, hb, h⟩
    · rcases Finset.mem_insert.1 h with rfl | h
      · exact .inr ⟨c, List.mem_cons_self, .refl⟩
      · exact .inl h
    · rcases List.mem_append.1 hb with hb | hb
      · exact .inr ⟨a, List.mem_cons_self, .head (List.mem_reverse.1 hb) h⟩
      · exact .inr ⟨b, List.mem_cons_of_mem _ hb, h⟩

/-- The successors of the set are in it or on the stack: nothing of the set is left
    to expand. -/
def Flushed (succ : α → List α) (set : Finset α) (stack : List α) : Prop :=
  ∀ a ∈ set, ∀ b ∈ succ a, b ∈ set ∨ b ∈ stack

include hU in
/-- The closure of a flushed set is closed. -/
theorem mem_closure_of_mem_succ {set : Finset α} {stack : List α} (hf : Flushed succ set stack)
    {a b : α} (ha : a ∈ closure succ U set stack) (hb : b ∈ succ a) :
    b ∈ closure succ U set stack := by
  by_cases has : a ∈ set
  · rcases hf a has b hb with h | h
    · exact subset_closure hU _ _ h
    · exact mem_closure_of_mem_stack hU b h
  · exact closure_closed hU a ha has b hb

include hU in
/-- The closure of a flushed set: the set, and what the stack reaches. -/
theorem mem_closure {set : Finset α} {stack : List α} (hf : Flushed succ set stack) {a : α} :
    a ∈ closure succ U set stack ↔
      a ∈ set ∨ ∃ b ∈ stack, ReflTransGen (fun x y => y ∈ succ x) b a := by
  refine ⟨reached_of_mem_closure hU a, ?_⟩
  rintro (h | ⟨b, hb, h⟩)
  · exact subset_closure hU _ _ h
  · induction h with
    | refl => exact mem_closure_of_mem_stack hU b hb
    | tail _ hcd ih => exact mem_closure_of_mem_succ hU hf ih hcd

end Smrt.Worklist
