import Mathlib.Order.Lattice
import Smrt.Lib.Except
import Smrt.Lib.System

/-!
# Migrations

A store is brought up to date by numbered steps, the number of the last one kept in the store. A
step is one transaction that also keeps its number (`sql`), or a script whose parts are committed
one by one and whose number is kept after them (`code`). A start takes the steps that are newer than
the number it finds, and may end at any point between two commits.

* `upgrade`: what a start does that is not interrupted;
* `system`: starts of one store after each other, each of them to its end or not;
* `resumes`: if what the store needs can be done at all, no start is ever refused, the one that gets
  through leaves what an uninterrupted one leaves, and every transaction was committed once, in
  order;
* `leads`: a start that is left alone gets through.

This is so if a script that was interrupted can be taken again from its beginning (`Resumable`).
-/

namespace Smrt

namespace Migrate

variable {ε σ : Type}

/-! ## Steps -/

/-- A step in code: what it makes sure of, when there is nothing else to do, what it rebuilds, and
what has to hold then. -/
structure Script (ε σ : Type) where
  ensure : σ → Except ε σ
  settled : σ → Bool
  rebuild : σ → Except ε σ
  check : σ → Except ε Unit

inductive Migration (ε σ : Type)
  | sql (act : σ → Except ε σ)
  | code (script : Script ε σ)

/-- How far a start is with a script. -/
inductive Phase
  | fresh
  | ensured
  | rebuilt
  | settled
  deriving DecidableEq

/-- How many parts a script has left at most. -/
def Phase.left : Phase → ℕ
  | .fresh => 3
  | .ensured => 2
  | .rebuilt => 1
  | .settled => 0

namespace Script

variable (c : Script ε σ)

/-- The next part of a script. -/
def next : Phase → σ → Except ε (σ × Phase)
  | .fresh, d => (c.ensure d).map fun d => (d, .ensured)
  | .ensured, d =>
    if c.settled d then .ok (d, .settled) else (c.rebuild d).map fun d => (d, .rebuilt)
  | .rebuilt, d => (c.check d).map fun _ => (d, .settled)
  | .settled, d => .ok (d, .settled)

/-- What was rebuilt is checked. -/
def finish (d : σ) : Except ε σ := (c.check d).map fun _ => d

def proceed (d : σ) : Except ε σ := if c.settled d then .ok d else c.rebuild d >>= c.finish

/-- What is left of a script. -/
def rest : Phase → σ → Except ε σ
  | .fresh, d => c.ensure d >>= c.proceed
  | .ensured, d => c.proceed d
  | .rebuilt, d => c.finish d
  | .settled, d => .ok d

/-- The whole script. -/
def run : σ → Except ε σ := c.rest .fresh

/-- A script that was interrupted can be taken again: it makes sure of nothing twice, and rebuilds
nothing twice. -/
structure Resumable : Prop where
  ensure : ∀ d d', c.ensure d = .ok d' → c.ensure d' = .ok d'
  settled : ∀ d e d', c.ensure d = .ok e → c.rebuild d = .ok d' →
    c.settled d' = true ∧ c.ensure d' = .ok d'

end Script

namespace Migration

def run : Migration ε σ → σ → Except ε σ
  | .sql act => act
  | .code c => c.run

def isSql : Migration ε σ → Bool
  | .sql _ => true
  | .code _ => false

/-- What is asked of a step. -/
def Resumable : Migration ε σ → Prop
  | .sql _ => True
  | .code c => c.Resumable

end Migration

/-- Steps with their numbers. -/
abbrev Steps (ε σ : Type) := List (ℕ × Migration ε σ)

/-- The steps that are newer than a store. -/
def pending (steps : Steps ε σ) (version : ℕ) : Steps ε σ := steps.filter fun m => version < m.1

def upgrade : Steps ε σ → σ → Except ε σ
  | [], d => .ok d
  | m :: todo, d => m.2.run d >>= upgrade todo

/-! ## Starts -/

/-- A store, with what was done to it and what a start has yet to do. -/
structure State (ε σ : Type) where
  data : σ
  version : ℕ
  /-- The transactions that were committed, by their numbers. -/
  committed : List ℕ
  start : Option (Steps ε σ × Phase)
  /-- A start failed. -/
  refused : Bool

inductive Act
  | start
  | step
  /-- The start ends where it is. -/
  | crash
  deriving DecidableEq

namespace State

variable (s : State ε σ)

/-- A start that got through. -/
def Opened : Prop := ∃ phase, s.start = some ([], phase)

/-- The start fails. -/
def refuse : State ε σ := { s with start := none, refused := true }

/-- A transaction is committed, and its number with it. -/
def commit (n : ℕ) (todo : Steps ε σ) (d : σ) : State ε σ :=
  { s with
    data := d
    version := n
    committed := s.committed ++ [n]
    start := some (todo, .fresh) }

/-- The number of a script is kept. -/
def record (n : ℕ) (todo : Steps ε σ) : State ε σ :=
  { s with version := n, start := some (todo, .fresh) }

/-- A part of a script is done. -/
def advance (todo : Steps ε σ) (next : σ × Phase) : State ε σ :=
  { s with data := next.1, start := some (todo, next.2) }

/-- A start goes on by one commit. -/
def step (m : ℕ × Migration ε σ) (todo : Steps ε σ) (phase : Phase) : State ε σ :=
  match m.2 with
  | .sql act =>
    match act s.data with
    | .ok d => s.commit m.1 todo d
    | .error _ => s.refuse
  | .code c =>
    if phase = .settled then s.record m.1 todo
    else
      match c.next phase s.data with
      | .ok next => s.advance (m :: todo) next
      | .error _ => s.refuse

/-- A start takes what is newer than the number it finds. -/
def begin (steps : Steps ε σ) : Option (State ε σ) :=
  if s.start.isNone then some { s with start := some (pending steps s.version, .fresh) } else none

def goOn : Option (State ε σ) :=
  match s.start with
  | some (m :: todo, phase) => some (s.step m todo phase)
  | _ => none

variable {s} {s' : State ε σ}

theorem goOn_eq_some : s.goOn = some s' ↔
    ∃ m todo phase, s.start = some (m :: todo, phase) ∧ s.step m todo phase = s' := by
  rw [goOn]
  constructor
  · intro h
    split at h
    · exact ⟨_, _, _, ‹_›, Option.some_injective _ h⟩
    · exact absurd h.symm (Option.some_ne_none _)
  · intro h
    obtain ⟨m, todo, phase, hs, rfl⟩ := h
    rw [hs]

end State

/-- The starts of a store, one after the other. -/
def system (steps : Steps ε σ) (d : σ) (version : ℕ) : System (State ε σ) Act where
  init s := s = ⟨d, version, [], none, false⟩
  step s
    | .start => s.begin steps
    | .step => s.goOn
    | .crash => some { s with start := none }

/-- The transactions among the steps up to a number that a store did not have. -/
def transactions (steps : Steps ε σ) (since upTo : ℕ) : List ℕ :=
  (steps.filter fun m => since < m.1 ∧ m.1 ≤ upTo ∧ m.2.isSql = true).map Prod.fst

/-! ## Steps in order -/

section Order

variable {steps : Steps ε σ} {version : ℕ} {m : ℕ × Migration ε σ} {todo : Steps ε σ}

/-- The steps in the order of their numbers. -/
def Ordered (steps : Steps ε σ) : Prop := steps.Pairwise fun m m' => m.1 < m'.1

theorem Ordered.split (h : Ordered steps) (version : ℕ) :
    steps = steps.filter (fun m => m.1 ≤ version) ++ pending steps version := by
  induction steps with
  | nil => rfl
  | cons m steps ih =>
    obtain ⟨hm, hsteps⟩ := List.pairwise_cons.1 h
    rw [pending, List.filter_cons, List.filter_cons]
    by_cases hle : m.1 ≤ version
    · rw [if_pos (decide_eq_true hle), if_neg (by simpa using hle), List.cons_append, ← pending,
        ← ih hsteps]
    · -- The steps after a newer one are newer.
      have hnone : steps.filter (fun m => m.1 ≤ version) = [] :=
        List.filter_eq_nil_iff.2 fun m' hm' h' =>
          hle ((hm m' hm').le.trans (of_decide_eq_true h'))
      rw [if_neg (by simpa using hle), if_pos (by simpa using hle), hnone, List.nil_append,
        ← pending]
      have := ih hsteps
      rw [hnone, List.nil_append] at this
      rw [← this]

/-- After the first pending step, the others are pending. -/
theorem Ordered.pending_of_cons (h : Ordered steps) (hp : pending steps version = m :: todo) :
    version < m.1 ∧ pending steps m.1 = todo ∧ steps.filter (fun m' => m'.1 ≤ m.1) =
      steps.filter (fun m => m.1 ≤ version) ++ [m] := by
  have hsplit := h.split version
  rw [hp] at hsplit
  have hm : version < m.1 := by
    have : m ∈ pending steps version := by rw [hp]; exact List.mem_cons_self
    exact of_decide_eq_true (List.mem_filter.1 this).2
  have hold : ∀ m' ∈ steps.filter (fun m => m.1 ≤ version), m'.1 ≤ m.1 := fun m' hm' =>
    (of_decide_eq_true (List.mem_filter.1 hm').2).trans hm.le
  have hnew : ∀ m' ∈ todo, m.1 < m'.1 := by
    have hall := h
    rw [Ordered, hsplit, List.pairwise_append] at hall
    exact (List.pairwise_cons.1 hall.2.1).1
  generalize steps.filter (fun m => m.1 ≤ version) = old at hsplit hold
  subst hsplit
  have h₁ : old.filter (fun m' => m.1 < m'.1) = [] :=
    List.filter_eq_nil_iff.2 fun m' hm' h' => (hold m' hm').not_gt (of_decide_eq_true h')
  have h₂ : todo.filter (fun m' => m.1 < m'.1) = todo :=
    List.filter_eq_self.2 fun m' hm' => decide_eq_true (hnew m' hm')
  have h₃ : old.filter (fun m' => m'.1 ≤ m.1) = old :=
    List.filter_eq_self.2 fun m' hm' => decide_eq_true (hold m' hm')
  have h₄ : todo.filter (fun m' => m'.1 ≤ m.1) = [] :=
    List.filter_eq_nil_iff.2 fun m' hm' h' => (hnew m' hm').not_ge (of_decide_eq_true h')
  refine ⟨hm, ?_, ?_⟩
  · rw [pending, List.filter_append, List.filter_cons_of_neg (by simp), h₁, h₂, List.nil_append]
  · rw [List.filter_append, List.filter_cons_of_pos (by simp), h₃, h₄]

end Order

/-! ## Runs of starts -/

section Runs

variable {steps : Steps ε σ} {d₀ d₁ : σ} {n₀ : ℕ} {s s' : State ε σ}

/-- What is left of the first step leads to where the whole of it leads from here, and all of it to
the end. -/
def Continues (d₁ : σ) (d : σ) : Steps ε σ × Phase → Prop
  | ([], _) => d = d₁
  | ((_, .sql act) :: todo, _) => act d >>= upgrade todo = .ok d₁
  | ((_, .code c) :: todo, phase) =>
    ∃ r, c.rest phase d = .ok r ∧ c.run d = .ok r ∧ upgrade todo r = .ok d₁

/-- What holds in every run of starts. -/
structure Steady (steps : Steps ε σ) (n₀ : ℕ) (d₁ : σ) (s : State ε σ) : Prop where
  newer : n₀ ≤ s.version
  accepted : s.refused = false
  committed : s.committed = transactions steps n₀ s.version
  todo : ∀ t ∈ s.start, t.1 = pending steps s.version ∧ Continues d₁ s.data t
  /-- A start that is taken from its beginning leads to the end. -/
  again : upgrade (pending steps s.version) s.data = .ok d₁

theorem continues_fresh {todo : Steps ε σ} {d : σ} (h : upgrade todo d = .ok d₁) :
    Continues d₁ d (todo, .fresh) := by
  rcases todo with _ | ⟨⟨n, act | c⟩, todo⟩
  · exact Except.ok.inj h
  · exact h
  · obtain ⟨r, hr, htodo⟩ := bind_eq_ok.1 h
    exact ⟨r, hr, hr, htodo⟩

theorem transactions_of_cons (h : Ordered steps) {version : ℕ} {m : ℕ × Migration ε σ}
    {todo : Steps ε σ} (hp : pending steps version = m :: todo) (hn : n₀ ≤ version) :
    transactions steps n₀ m.1 =
      transactions steps n₀ version ++ if m.2.isSql = true then [m.1] else [] := by
  obtain ⟨hm, -, hfilter⟩ := h.pending_of_cons hp
  have hsplit (v : ℕ) : transactions steps n₀ v =
      ((steps.filter fun m => m.1 ≤ v).filter fun m => n₀ < m.1 ∧ m.2.isSql = true).map
        Prod.fst := by
    rw [transactions, List.filter_filter]
    congr 1
    refine List.filter_congr fun m _ => ?_
    rw [← Bool.decide_and]
    rw [decide_eq_decide]
    constructor
    · intro h
      exact ⟨⟨h.1, h.2.2⟩, h.2.1⟩
    · intro h
      exact ⟨h.1.1, h.2, h.1.2⟩
  rw [hsplit, hsplit, hfilter, List.filter_append, List.map_append]
  congr 1
  by_cases hsql : m.2.isSql = true
  · rw [if_pos hsql, List.filter_cons_of_pos (by simp [hn.trans_lt hm, hsql])]
    rfl
  · rw [if_neg hsql, List.filter_cons_of_neg (by simp [hsql])]
    rfl

/-- After a part of a script, the rest of it and the whole of it lead to the same. -/
theorem rest_next {c : Script ε σ} (hc : c.Resumable) {phase : Phase} {d r : σ}
    (hne : phase ≠ .settled) (hrest : c.rest phase d = .ok r) (hrun : c.run d = .ok r) :
    ∃ next, c.next phase d = .ok next ∧ next.2.left < phase.left ∧
      c.rest next.2 next.1 = .ok r ∧ c.run next.1 = .ok r := by
  rcases phase with _ | _ | _ | _
  · obtain ⟨d', hd', hproceed⟩ := bind_eq_ok.1 hrest
    refine ⟨(d', .ensured), map_eq_ok.2 ⟨d', hd', rfl⟩, Nat.lt_succ_self 2, hproceed, ?_⟩
    exact bind_eq_ok.2 ⟨d', hc.ensure d d' hd', hproceed⟩
  · have hrest : c.proceed d = .ok r := hrest
    rw [Script.proceed] at hrest
    by_cases hset : c.settled d = true
    · rw [if_pos hset, Except.ok.injEq] at hrest
      subst hrest
      exact ⟨(d, .settled), if_pos hset, Nat.zero_lt_two, rfl, hrun⟩
    · rw [if_neg hset] at hrest
      obtain ⟨d', hd', hfinish⟩ := bind_eq_ok.1 hrest
      obtain ⟨e, he, -⟩ := bind_eq_ok.1 hrun
      obtain ⟨hsettled, hensure⟩ := hc.settled d e d' he hd'
      obtain ⟨-, -, rfl⟩ := map_eq_ok.1 hfinish
      refine ⟨(d', .rebuilt), ?_, Nat.one_lt_two, hfinish, ?_⟩
      · rw [Script.next, if_neg hset, hd']
        rfl
      · -- Taken again, the script finds that it was rebuilt.
        refine bind_eq_ok.2 ⟨d', hensure, ?_⟩
        rw [Script.proceed, if_pos hsettled]
  · obtain ⟨u, hu, rfl⟩ := map_eq_ok.1 hrest
    exact ⟨(d, .settled), map_eq_ok.2 ⟨u, hu, rfl⟩, Nat.one_pos, rfl, hrun⟩
  · exact absurd rfl hne

/-- What a start does next: it commits a transaction, or keeps the number of a script that is done,
or does a part of a script. -/
theorem Steady.step_cases (hall : ∀ m ∈ steps, m.2.Resumable) (h : Steady steps n₀ d₁ s)
    {m : ℕ × Migration ε σ} {todo : Steps ε σ} {phase : Phase}
    (hs : s.start = some (m :: todo, phase)) :
    (∃ d, s.step m todo phase = s.commit m.1 todo d ∧ m.2.isSql = true ∧
      upgrade todo d = .ok d₁) ∨
    (s.step m todo phase = s.record m.1 todo ∧ m.2.isSql = false ∧
      upgrade todo s.data = .ok d₁) ∨
    ∃ next, s.step m todo phase = s.advance (m :: todo) next ∧ next.2.left < phase.left ∧
      Continues d₁ next.1 (m :: todo, next.2) ∧ upgrade (m :: todo) next.1 = .ok d₁ := by
  obtain ⟨htodo, hcont⟩ := h.todo _ hs
  have hmem : m ∈ steps := by
    refine (List.mem_filter.1 (?_ : m ∈ pending steps s.version)).1
    rw [← htodo]
    exact List.mem_cons_self
  have hres := hall m hmem
  obtain ⟨n, act | c⟩ := m
  · obtain ⟨d, hd, hupgrade⟩ := bind_eq_ok.1 hcont
    refine .inl ⟨d, ?_, rfl, hupgrade⟩
    rw [State.step]
    simp only [hd]
  · obtain ⟨r, hrest, hrun, hupgrade⟩ := hcont
    by_cases hphase : phase = .settled
    · subst hphase
      obtain rfl : s.data = r := Except.ok.inj hrest
      refine .inr (.inl ⟨?_, rfl, hupgrade⟩)
      rw [State.step]
      exact if_pos rfl
    · obtain ⟨next, hnext, hleft, hrest', hrun'⟩ := rest_next hres hphase hrest hrun
      refine .inr (.inr ⟨next, ?_, hleft, ⟨r, hrest', hrun', hupgrade⟩,
        bind_eq_ok.2 ⟨r, hrun', hupgrade⟩⟩)
      rw [State.step]
      simp only [hphase, if_false, hnext]

theorem Steady.step (hsteps : Ordered steps) (hall : ∀ m ∈ steps, m.2.Resumable)
    (h : Steady steps n₀ d₁ s) {m : ℕ × Migration ε σ} {todo : Steps ε σ} {phase : Phase}
    (hs : s.start = some (m :: todo, phase)) : Steady steps n₀ d₁ (s.step m todo phase) := by
  have htodo : pending steps s.version = m :: todo := (h.todo _ hs).1.symm
  obtain ⟨hnewer, hpending, -⟩ := hsteps.pending_of_cons htodo
  have hcommitted := transactions_of_cons hsteps htodo h.newer
  rcases h.step_cases hall hs with ⟨d, hstep, hsql, hup⟩ | ⟨hstep, hsql, hup⟩ |
    ⟨next, hstep, -, hcont, hup⟩
  · rw [hsql, if_pos rfl, ← h.committed] at hcommitted
    rw [hstep]
    exact
      { newer := h.newer.trans hnewer.le
        accepted := h.accepted
        committed := hcommitted.symm
        todo := by
          intro t ht
          obtain rfl := Option.some_injective _ ht
          exact ⟨hpending.symm, continues_fresh hup⟩
        again := by
          rw [State.commit, hpending]
          exact hup }
  · rw [hsql, if_neg Bool.false_ne_true, List.append_nil, ← h.committed] at hcommitted
    rw [hstep]
    exact
      { newer := h.newer.trans hnewer.le
        accepted := h.accepted
        committed := hcommitted.symm
        todo := by
          intro t ht
          obtain rfl := Option.some_injective _ ht
          exact ⟨hpending.symm, continues_fresh hup⟩
        again := by
          rw [State.record, hpending]
          exact hup }
  · rw [hstep]
    exact
      { newer := h.newer
        accepted := h.accepted
        committed := h.committed
        todo := by
          intro t ht
          obtain rfl := Option.some_injective _ ht
          exact ⟨htodo.symm, hcont⟩
        again := by
          rw [State.advance, htodo]
          exact hup }

/-- What holds in every state that starts lead to, to their ends or not. -/
theorem steady (hsteps : Ordered steps) (hall : ∀ m ∈ steps, m.2.Resumable)
    (hup : upgrade (pending steps n₀) d₀ = .ok d₁)
    (h : (system steps d₀ n₀).Reachable s) : Steady steps n₀ d₁ s := by
  refine h.invariant (fun s hs => ?_) fun s a s' hs _ hst => ?_
  · obtain rfl := hs
    refine ⟨le_rfl, rfl, ?_, fun t ht => absurd ht (Option.not_mem_none _), hup⟩
    refine (List.map_eq_nil_iff.2 (List.filter_eq_nil_iff.2 fun m _ hm => ?_)).symm
    have hm := of_decide_eq_true hm
    exact hm.1.not_ge hm.2.1
  · rcases a with _ | _ | _
    · have hst : s.begin steps = some s' := hst
      rw [State.begin] at hst
      split_ifs at hst with hoff
      obtain rfl := Option.some_injective _ hst
      refine { hs with todo := fun t ht => ?_ }
      obtain rfl := Option.some_injective _ ht
      exact ⟨rfl, continues_fresh hs.again⟩
    · obtain ⟨m, todo, phase, hstart, rfl⟩ := State.goOn_eq_some.1 hst
      exact hs.step hsteps hall hstart
    · obtain rfl := Option.some_injective _ hst
      exact { hs with todo := fun t ht => absurd ht (Option.not_mem_none _) }

/-- No start is refused, every transaction is committed once, in order, and a start that gets
through leaves what one leaves that is not interrupted. -/
theorem resumes (hsteps : Ordered steps) (hall : ∀ m ∈ steps, m.2.Resumable)
    (hup : upgrade (pending steps n₀) d₀ = .ok d₁) (h : (system steps d₀ n₀).Reachable s) :
    s.refused = false ∧ s.committed = transactions steps n₀ s.version ∧
      (s.Opened → s.data = d₁ ∧ pending steps s.version = []) := by
  have hs := steady hsteps hall hup h
  refine ⟨hs.accepted, hs.committed, fun hopened => ?_⟩
  obtain ⟨phase, hstart⟩ := hopened
  obtain ⟨htodo, hcont⟩ := hs.todo _ hstart
  exact ⟨hcont, htodo.symm⟩

/-- A start that is left alone gets through. -/
theorem Steady.leads (hsteps : Ordered steps) (hall : ∀ m ∈ steps, m.2.Resumable)
    (h : Steady steps n₀ d₁ s) {todo : Steps ε σ} {phase : Phase}
    (hs : s.start = some (todo, phase)) :
    (system steps d₀ n₀).Leads (fun a => a = .step) State.Opened s := by
  -- What is left to do gets less: a step, or a part of one.
  generalize hk : 4 * todo.length + phase.left = k
  induction k using Nat.strong_induction_on generalizing s todo phase with
  | _ k ih =>
    rcases todo with _ | ⟨m, todo⟩
    · exact .here ⟨phase, hs⟩
    · refine .step rfl (State.goOn_eq_some.2 ⟨m, todo, phase, hs, rfl⟩) ?_
      have hsteady := h.step hsteps hall hs
      rcases h.step_cases hall hs with ⟨d, hstep, -, -⟩ | ⟨hstep, -, -⟩ |
        ⟨next, hstep, hleft, -, -⟩
      · refine ih _ ?_ hsteady (by rw [hstep]; rfl) rfl
        rw [← hk, List.length_cons, Phase.left]
        omega
      · refine ih _ ?_ hsteady (by rw [hstep]; rfl) rfl
        rw [← hk, List.length_cons, Phase.left]
        omega
      · refine ih _ ?_ hsteady (by rw [hstep]; rfl) rfl
        rw [← hk]
        omega

/-- From any state that starts lead to, one more of them gets through. -/
theorem leads (hsteps : Ordered steps) (hall : ∀ m ∈ steps, m.2.Resumable)
    (hup : upgrade (pending steps n₀) d₀ = .ok d₁) (h : (system steps d₀ n₀).Reachable s)
    (hoff : s.start = none) :
    ∃ s', (system steps d₀ n₀).step s .start = some s' ∧
      (system steps d₀ n₀).Leads (fun a => a = .step) State.Opened s' := by
  have hbegin : (system steps d₀ n₀).step s .start =
      some { s with start := some (pending steps s.version, .fresh) } := by
    refine (if_pos ?_ : s.begin steps = _)
    rw [hoff]
    rfl
  exact ⟨_, hbegin, (steady hsteps hall hup (.step h trivial hbegin)).leads hsteps hall rfl⟩

end Runs

/-! ## What an upgrade leads to -/

section Advance

variable {steps : Steps ε σ}

/-- The steps are numbered from one on. -/
def Numbered (steps : Steps ε σ) : Prop := steps.map Prod.fst = List.range' 1 steps.length

theorem filter_eq_drop {k : ℕ} (h : steps.map Prod.fst = List.range' (k + 1) steps.length) (n : ℕ) :
    steps.filter (fun m => k + n < m.1) = steps.drop n := by
  induction steps generalizing k n with
  | nil => rw [List.filter_nil, List.drop_nil]
  | cons m steps ih =>
    rw [List.length_cons, List.range'_succ, List.map_cons, List.cons.injEq] at h
    obtain ⟨hm, hsteps⟩ := h
    rcases n with _ | n
    · refine List.filter_eq_self.2 fun m' hm' => decide_eq_true ?_
      rcases List.mem_cons.1 hm' with rfl | hmem
      · omega
      · have hmem := List.mem_map_of_mem (f := Prod.fst) hmem
        rw [hsteps, List.mem_range'_1] at hmem
        omega
    · rw [List.filter_cons_of_neg (by simp; omega), List.drop_succ_cons, ← ih hsteps]
      refine List.filter_congr fun m' _ => decide_eq_decide.2 ?_
      omega

theorem Numbered.pending (h : Numbered steps) (n : ℕ) : pending steps n = steps.drop n := by
  rw [← filter_eq_drop h n]
  refine List.filter_congr fun m _ => decide_eq_decide.2 ?_
  rw [Nat.zero_add]

theorem Numbered.ordered (h : Numbered steps) : Ordered steps := by
  refine List.pairwise_map.1 ?_
  rw [h]
  exact List.pairwise_lt_range'

/-- Steps that each lead from what a store of one number is to what one of the next number is, and
keep what it has, lead to the last number. -/
theorem Numbered.upgrade (h : Numbered steps) {Sound : ℕ → σ → Prop} {Kept : σ → σ → Prop}
    (hrefl : ∀ d, Kept d d) (htrans : ∀ d d' d'', Kept d d' → Kept d' d'' → Kept d d'')
    (hadvance : ∀ n (hn : n < steps.length), ∀ d, Sound n d →
      ∃ d', steps[n].2.run d = .ok d' ∧ Sound (n + 1) d' ∧ Kept d d')
    {n : ℕ} (hn : n ≤ steps.length) {d : σ} (hd : Sound n d) :
    ∃ d', upgrade (Migrate.pending steps n) d = .ok d' ∧ Sound steps.length d' ∧ Kept d d' := by
  rw [h.pending]
  induction hk : steps.length - n generalizing n d with
  | zero =>
    obtain rfl : n = steps.length := by omega
    exact ⟨d, by rw [List.drop_length, Migrate.upgrade], hd, hrefl d⟩
  | succ k ih =>
    have hlt : n < steps.length := by omega
    obtain ⟨d₁, hrun, hd₁, hkept⟩ := hadvance n hlt d hd
    obtain ⟨d₂, hup, hd₂, hkept'⟩ := ih (by omega) hd₁ (by omega)
    refine ⟨d₂, ?_, hd₂, htrans d d₁ d₂ hkept hkept'⟩
    rw [List.drop_eq_getElem_cons hlt, Migrate.upgrade, hrun]
    exact hup

end Advance

/-! ## Scripts -/

section Scripts

variable {c : Script ε σ} {d e d' : σ}

/-- A script that finds nothing to do. -/
theorem Script.run_of_settled (he : c.ensure d = .ok e) (hs : c.settled e = true) :
    c.run d = .ok e :=
  bind_eq_ok.2 ⟨e, he, if_pos hs⟩

/-- A script that rebuilds. -/
theorem Script.run_of_rebuild (he : c.ensure d = .ok e) (hs : ¬ c.settled e = true)
    (hr : c.rebuild e = .ok d') (hc : c.check d' = .ok ()) : c.run d = .ok d' := by
  refine bind_eq_ok.2 ⟨e, he, ?_⟩
  rw [Script.proceed, if_neg hs]
  exact bind_eq_ok.2 ⟨d', hr, map_eq_ok.2 ⟨(), hc, rfl⟩⟩

end Scripts

end Migrate

end Smrt
