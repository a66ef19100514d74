import Mathlib.Data.Nat.Notation
import Mathlib.Logic.Function.Basic
import Mathlib.Tactic.SplitIfs

/-!
# Systems

A *system*: its initial states, and what each of its actions does. An action is
atomic and deterministic, and may be disabled in a state (`step` gives `none`
there); all the nondeterminism of a system is in which action comes next. An
action of a concurrent system names the party that takes it, so that the runs
are exactly the interleavings of the parties.

* `run`: the state after a list of actions, evaluated;
* `Reach ok`: the states reached by the runs whose every action is taken in a
  state where the guard `ok` allows it. With the guard that allows everything
  these are the reachable states (`Reachable`);
* `Reach.invariant`: what the guarded actions preserve holds in every state
  reached (`Reach.invariant_of`: with the help of another property that does);
* `Leads own P`: the states from which the actions that `own` allows, taken alone,
  lead to a state with `P`.

The parties of a concurrent system are a map from the naturals (`setAt`), and a lock they
share is held by one of them at most (`Exclusive`).
-/

namespace Smrt

/-- A system with the states `σ` and the actions `α`. -/
structure System (σ α : Type*) where
  /-- The initial states. -/
  init : σ → Prop
  /-- The state after an action; `none` where it is disabled. -/
  step : σ → α → Option σ

namespace System

variable {σ α : Type*} (S : System σ α)

/-- The state after the actions of a list, in turn. -/
def run (s : σ) : List α → Option σ
  | [] => some s
  | a :: as => (S.step s a).bind fun s' => run s' as

/-- The states reached by the runs all of whose actions `ok` allows, each in the
    state it is taken in. -/
inductive Reach (ok : σ → α → Prop) : σ → Prop
  | init {s : σ} : S.init s → Reach ok s
  | step {s s' : σ} {a : α} : Reach ok s → ok s a → S.step s a = some s' → Reach ok s'

/-- The guard that allows every action. -/
def anything : σ → α → Prop := fun _ _ => True

/-- The states reached by the runs of the system. -/
abbrev Reachable : σ → Prop := S.Reach anything

variable {S} {ok : σ → α → Prop}

/-- A property that holds initially and that the allowed actions preserve holds in
    every state reached. -/
theorem Reach.invariant {P : σ → Prop} {s : σ} (h : S.Reach ok s)
    (h₀ : ∀ s, S.init s → P s)
    (h₁ : ∀ s a s', P s → ok s a → S.step s a = some s' → P s') : P s := by
  induction h with
  | init hs => exact h₀ _ hs
  | step _ hok hst ih => exact h₁ _ _ _ ih hok hst

/-- The same, with what is known of every state reached. -/
theorem Reach.invariant_of {P Q : σ → Prop} {s : σ} (h : S.Reach ok s)
    (hq : ∀ s, S.Reach ok s → Q s) (h₀ : ∀ s, S.init s → P s)
    (h₁ : ∀ s a s', Q s → P s → ok s a → S.step s a = some s' → P s') : P s := by
  induction h with
  | init hs => exact h₀ _ hs
  | step hr hok hst ih => exact h₁ _ _ _ (hq _ hr) ih hok hst

/-- A weaker guard reaches more. -/
theorem Reach.mono {ok' : σ → α → Prop} {s : σ} (h : S.Reach ok s)
    (hok : ∀ s a, ok s a → ok' s a) : S.Reach ok' s := by
  induction h with
  | init hs => exact .init hs
  | step _ ha hst ih => exact .step ih (hok _ _ ha) hst

/-- The system in which an action is disabled where the guard does not allow it. -/
def guarded (S : System σ α) (ok : σ → α → Prop) [∀ s, DecidablePred (ok s)] : System σ α where
  init := S.init
  step := fun s a => if ok s a then S.step s a else none

theorem Reachable.of_guarded [∀ s, DecidablePred (ok s)] {s : σ} (h : (S.guarded ok).Reachable s) :
    S.Reach ok s := by
  induction h with
  | init hs => exact .init hs
  | @step s s' a _ _ hst ih =>
    have hst : (if ok s a then S.step s a else none) = some s' := hst
    split_ifs at hst with hok
    exact .step ih hok hst

/-- What a run from a reachable state ends in is reachable. -/
theorem Reach.run {s s' : σ} (h : S.Reachable s) {as : List α} (hr : S.run s as = some s') :
    S.Reachable s' := by
  induction as generalizing s with
  | nil =>
    rw [System.run, Option.some.injEq] at hr
    exact hr ▸ h
  | cons a as ih =>
    obtain ⟨t, ht, hr⟩ := Option.bind_eq_some_iff.1 hr
    exact ih (.step h trivial ht) hr

/-- The system from a state on. -/
def since (S : System σ α) (s : σ) : System σ α := { S with init := fun t => t = s }

/-- What is reached from a state that was reached. -/
theorem Reach.trans {s s' : σ} (h : S.Reach ok s) (h' : (S.since s).Reach ok s') :
    S.Reach ok s' := by
  induction h' with
  | @init t ht =>
    obtain rfl : t = s := ht
    exact h
  | step _ hok hst ih => exact .step ih hok hst

theorem run_since {s t : σ} {as : List α} : (S.since s).run t as = S.run t as := by
  induction as generalizing t with
  | nil => rfl
  | cons a as ih => exact Option.bind_congr fun _ _ => ih

/-- What a run from a state ends in is reached from it. -/
theorem reachable_since_of_run {s s' : σ} {as : List α} (hr : S.run s as = some s') :
    (S.since s).Reachable s' :=
  Reach.run (.init rfl) (run_since.trans hr)

/-- The states from which the actions that `own` allows lead to one with `P`. -/
inductive Leads (S : System σ α) (own : α → Prop) (P : σ → Prop) : σ → Prop
  | here {s : σ} : P s → Leads S own P s
  | step {s s' : σ} {a : α} : own a → S.step s a = some s' → Leads S own P s' → Leads S own P s

end System

/-! ## Parties -/

section Parties

variable {β : Type*}

/-- The map `f` with `x` at `i`: the parties of a system after one of them moved. -/
def setAt (f : ℕ → β) (i : ℕ) (x : β) : ℕ → β := Function.update f i x

@[simp] theorem setAt_self (f : ℕ → β) (i : ℕ) (x : β) : setAt f i x i = x :=
  Function.update_self ..

theorem setAt_of_ne (f : ℕ → β) {i j : ℕ} (x : β) (h : j ≠ i) : setAt f i x j = f j :=
  Function.update_of_ne h ..

/-- A property of every party, after one of them moved. -/
theorem forall_setAt {P : ℕ → β → Prop} {f : ℕ → β} {i : ℕ} {x : β}
    (h : ∀ j, j ≠ i → P j (f j)) (hx : P i x) (j : ℕ) : P j (setAt f i x j) := by
  by_cases hj : j = i
  · rw [hj, setAt_self]; exact hx
  · rw [setAt_of_ne f x hj]; exact h j hj

end Parties

/-! ## A lock -/

section Lock

variable {β : Type*} {Holds : β → Prop} {lock : Option ℕ} {procs : ℕ → β} {i j : ℕ} {p : β}

/-- The lock is held by a party that is where only a holder is. -/
def Exclusive (Holds : β → Prop) (lock : Option ℕ) (procs : ℕ → β) : Prop :=
  ∀ i, Holds (procs i) → lock = some i

/-- There is one holder at most. -/
theorem Exclusive.eq (h : Exclusive Holds lock procs) (hi : Holds (procs i))
    (hj : Holds (procs j)) : i = j :=
  Option.some.inj ((h i hi).symm.trans (h j hj))

/-- While one party holds the lock, no other does. -/
theorem Exclusive.not_of_ne (h : Exclusive Holds lock procs) (hi : Holds (procs i))
    (hij : j ≠ i) : ¬ Holds (procs j) := fun hj => hij (h.eq hj hi)

/-- A party moves, and holds the lock only if it did. -/
theorem Exclusive.keep (h : Exclusive Holds lock procs) (hp : Holds p → Holds (procs i)) :
    Exclusive Holds lock (setAt procs i p) := fun k =>
  forall_setAt (P := fun j q => Holds q → lock = some j) (fun j _ => h j) (fun hh => h i (hp hh)) k

/-- A party takes the lock that nobody holds. -/
theorem Exclusive.acquire (h : Exclusive Holds none procs) :
    Exclusive Holds (some i) (setAt procs i p) := fun k =>
  forall_setAt (P := fun j q => Holds q → some i = some j)
    (fun j _ hj => nomatch h j hj) (fun _ => rfl) k

/-- The holder gives the lock back. -/
theorem Exclusive.release (h : Exclusive Holds lock procs) (hi : Holds (procs i))
    (hp : ¬ Holds p) : Exclusive Holds none (setAt procs i p) := fun k =>
  forall_setAt (P := fun j q => Holds q → none = some j)
    (fun _ hji hj => absurd hj (h.not_of_ne hi hji)) (fun hh => absurd hh hp) k

end Lock

end Smrt
