import Mathlib.Tactic.SplitIfs
import Smrt.Lib.System

/-!
# The harvest scheduler

One worker harvests: it waits for a poke, lets a quiet window pass, in which every further poke
starts the window anew and a forced one ends it, runs, and records how the run went
(`HarvestScheduler::spawn`). Whoever pokes sets a flag and then wakes the worker; a wake-up that
comes while the worker does not wait is stored, once. Whether a harvest is running or a poke is
pending is read in two steps (`is_unsettled`).

No poke is lost: whenever one has returned, a run starts or has started since, whatever was
stored and cleared in between (`Due`). And when the scheduler is found settled, what was poked
for before has been seen by a run that has ended, and by one that went well, unless the last run
failed (`Keeps`, `system_keeps`). A run that fails has cleared the flag like any other:
the scheduler is settled after it, and the change it was poked for is not in the registry
(`system_failed`).
-/

namespace Smrt

namespace HarvestSched

/-! ## Wake-ups -/

/-- Whether the worker waits for a wake-up, and has been given it. -/
inductive Waiter
  | absent
  | asleep
  | notified
  deriving DecidableEq

/-- Wake-ups for one waiter: one at most is stored. -/
structure Notify where
  permit : Bool
  waiter : Waiter
  deriving DecidableEq

section Notify

variable (n : Notify)

/-- Who waits is woken; else the wake-up is stored. -/
def Notify.notifyOne : Notify :=
  match n.waiter with
  | .asleep => { n with waiter := .notified }
  | _ => { n with permit := true }

/-- The worker takes the stored wake-up, or waits for one. -/
def Notify.enter : Notify :=
  if n.permit then ⟨false, .absent⟩ else ⟨false, .asleep⟩

/-- The worker notices that it was woken. -/
def Notify.take : Notify := { n with waiter := .absent }

/-- The worker does not wait any longer; a wake-up that it has not noticed is stored. -/
def Notify.leave : Notify :=
  match n.waiter with
  | .notified => ⟨true, .absent⟩
  | _ => { n with waiter := .absent }

end Notify

/-! ## States -/

/-- Where the worker is, whose runs report `ρ`. -/
inductive Worker (ρ : Type)
  /-- Is about to wait for a poke. -/
  | ready
  | asleep
  /-- Was woken, and is about to see whether that was a forced poke. -/
  | woken
  /-- Is about to wait for the window to pass. -/
  | settling
  | debouncing
  /-- The window has passed: says that it runs, clears the flag, and runs. -/
  | starting
  | clearing
  | cleared
  | harvesting
  | recording (result : Except String ρ)

/-- Where somebody is who pokes, or forces a run. -/
inductive Caller
  | idle
  | stored (force : Bool)
  | forced
  | returned
  deriving DecidableEq

/-- Somebody who asks whether the scheduler is unsettled: whose pokes had returned before, and
    what was recorded of the last run when the answer was given. -/
inductive Asker
  | idle
  | clean (before : ℕ → Bool)
  | answered (before : ℕ → Bool) (unsettled : Bool) (lastError : Option String)

structure HarvestStatus (ρ : Type) where
  running : Bool
  lastReport : Option ρ
  lastError : Option String
  lastFinished : Option String

/-- The scheduler, its worker, and who calls it; then the history. -/
structure State (ρ : Type) where
  wake : Notify
  forceNow : Bool
  dirty : Bool
  status : HarvestStatus ρ
  worker : Worker ρ
  callers : ℕ → Caller
  askers : ℕ → Asker
  /-- How many runs have started. -/
  runs : ℕ
  /-- After whose return a run has started. -/
  ran : ℕ → Bool
  /-- Whose change the last run sees: it was made before the poke. -/
  seen : ℕ → Bool
  /-- Whose change was seen by a run that has ended, and by one that went well. -/
  completed : ℕ → Bool
  succeeded : ℕ → Bool

/-- What happens: a caller or an asker goes on, the worker does, its window passes, or its run
    ends. -/
inductive Act (ρ : Type)
  | call (i : ℕ) (force : Bool)
  | proceed (i : ℕ)
  | ask (j : ℕ)
  | answer (j : ℕ)
  | work (now : String)
  | sleep
  | finish (result : Except String ρ)

/-! ## Steps -/

section Step

variable {ρ : Type} (s : State ρ)

/-- A run starts, and sees every change that was made before. -/
def start : State ρ :=
  { s with
    worker := .harvesting
    runs := s.runs + 1
    ran := fun i => s.ran i || s.callers i = .returned
    seen := fun i => s.callers i ≠ .idle }

/-- How a run went is recorded. -/
def record (now : String) (result : Except String ρ) : State ρ :=
  { s with
    worker := .ready
    status := match result with
      | .ok report => ⟨false, some report, none, some now⟩
      | .error e => { s.status with running := false, lastError := some e, lastFinished := some now }
    completed := fun i => s.completed i || s.seen i
    succeeded := match result with
      | .ok _ => fun i => s.succeeded i || s.seen i
      | .error _ => s.succeeded }

/-- What the worker does next. -/
def work (now : String) : Option (State ρ) :=
  match s.worker with
  | .ready => some
      { s with wake := s.wake.enter, worker := if s.wake.permit then .woken else .asleep }
  | .asleep => if s.wake.waiter = .notified then
      some { s with wake := s.wake.take, worker := .woken } else none
  | .woken => some
      { s with forceNow := false, worker := if s.forceNow then .starting else .settling }
  | .settling => some
      { s with wake := s.wake.enter, worker := if s.wake.permit then .woken else .debouncing }
  | .debouncing => if s.wake.waiter = .notified then
      some { s with wake := s.wake.take, worker := .woken } else none
  | .starting => some { s with status := { s.status with running := true }, worker := .clearing }
  | .clearing => some { s with dirty := false, worker := .cleared }
  | .cleared => some (start s)
  | .harvesting => none
  | .recording result => some (record s now result)

/-- Somebody pokes or forces: first the flag is set. -/
def call (i : ℕ) (force : Bool) : Option (State ρ) :=
  match s.callers i with
  | .idle => some { s with dirty := true, callers := setAt s.callers i (.stored force) }
  | _ => none

/-- Then a forced run is asked for, and the worker is woken. -/
def proceed (i : ℕ) : Option (State ρ) :=
  match s.callers i with
  | .stored true => some { s with forceNow := true, callers := setAt s.callers i .forced }
  | .stored false | .forced => some
      { s with wake := s.wake.notifyOne, callers := setAt s.callers i .returned }
  | _ => none

/-- Somebody asks: first the flag is read. -/
def ask (j : ℕ) : Option (State ρ) :=
  match s.askers j with
  | .idle =>
    let before i : Bool := s.callers i = .returned
    some { s with askers := setAt s.askers j (if s.dirty then
      .answered before true s.status.lastError else .clean before) }
  | _ => none

/-- Then it is read whether a harvest is running. -/
def answer (j : ℕ) : Option (State ρ) :=
  match s.askers j with
  | .clean before => some { s with
      askers := setAt s.askers j (.answered before s.status.running s.status.lastError) }
  | _ => none

def step : Act ρ → Option (State ρ)
  | .call i force => call s i force
  | .proceed i => proceed s i
  | .ask j => ask s j
  | .answer j => answer s j
  | .work now => work s now
  | .sleep => match s.worker with
    | .debouncing => some { s with wake := s.wake.leave, worker := .starting }
    | _ => none
  | .finish result => match s.worker with
    | .harvesting => some { s with worker := .recording result }
    | _ => none

/-- A scheduler that was just made. -/
def boot : State ρ where
  wake := ⟨false, .absent⟩
  forceNow := false
  dirty := false
  status := ⟨false, none, none, none⟩
  worker := .ready
  callers _ := .idle
  askers _ := .idle
  runs := 0
  ran _ := false
  seen _ := false
  completed _ := false
  succeeded _ := false

variable (ρ) in
def system : System (State ρ) (Act ρ) where
  init s := s = boot
  step := step

end Step

/-! ## No poke is lost -/

section Keeps

variable {ρ : Type}

/-- The worker is on its way to a run. -/
def Worker.Underway : Worker ρ → Prop
  | woken | settling | debouncing | starting | clearing | cleared => True
  | _ => False

/-- The worker is going to start a run: it is on its way to one, or there is a wake-up for it. -/
def Due (s : State ρ) : Prop :=
  s.worker.Underway ∨ s.wake.permit = true ∨ s.wake.waiter = .notified

/-- What the worker does by itself. -/
def Own : Act ρ → Prop
  | .work _ | .sleep | .finish _ => True
  | _ => False

/-- Whenever a poke has returned, a run has started since, or is due, and then the worker by
    itself comes to start it; and who was answered that the scheduler is settled, what was poked
    for before was seen by a run that has ended, and by one that went well if the last one did. -/
structure Keeps (s : State ρ) : Prop where
  started (i : ℕ) : s.callers i = .returned → s.ran i = true ∨ Due s
  starts : Due s → (system ρ).Leads Own (fun s' => s'.runs = s.runs + 1) s
  settled (j : ℕ) (before : ℕ → Bool) (lastError : Option String) :
    s.askers j = .answered before false lastError → ∀ i, before i = true →
      s.completed i = true ∧ (lastError = none → s.succeeded i = true)

/-! ## The invariant -/

/-- The worker says that it runs. -/
def Worker.Runs : Worker ρ → Prop
  | clearing | cleared | harvesting | recording _ => True
  | _ => False

/-- The worker waits. -/
def Worker.Waits : Worker ρ → Prop
  | asleep | debouncing => True
  | _ => False

/-- The worker is in a run. -/
def Worker.Busy : Worker ρ → Prop
  | harvesting | recording _ => True
  | _ => False

/-- Whose change was seen by a run that has ended, or the worker's run sees, or is going to. -/
def Covered (s : State ρ) (i : ℕ) : Prop :=
  s.completed i = true ∨ s.worker = .cleared ∨ s.worker.Busy ∧ s.seen i = true

/-- What somebody who asks was told is right, and what they were not told yet is going to be. -/
def Asker.Right (s : State ρ) : Asker → Prop
  | clean before => ∀ i, before i = true → s.callers i ≠ .idle ∧ Covered s i
  | answered before unsettled lastError => unsettled = false → ∀ i, before i = true →
      s.completed i = true ∧ (lastError = none → s.succeeded i = true)
  | idle => True

structure Inv (s : State ρ) : Prop where
  /-- A wake-up is stored only while the worker is not asleep. -/
  asleep : s.wake.waiter = .asleep → s.wake.permit = false
  waits : s.worker.Waits ↔ s.wake.waiter ≠ .absent
  runs : s.worker.Runs ↔ s.status.running = true
  started (i : ℕ) : s.callers i = .returned → s.ran i = true ∨ Due s
  covered (i : ℕ) : s.callers i ≠ .idle → s.dirty = true ∨ Covered s i
  /-- What was seen was poked for; and a run sees all that the runs before have seen. -/
  poked (i : ℕ) : s.completed i = true ∨ s.seen i = true → s.callers i ≠ .idle
  seen (i : ℕ) : s.worker.Busy → s.completed i = true → s.seen i = true
  succeeded (i : ℕ) : s.status.lastError = none → s.completed i = true → s.succeeded i = true
  right (j : ℕ) : (s.askers j).Right s

variable {s s' : State ρ}

/-- What was covered and completed before still is, and nobody is idle again: what the askers
    were told stays right. -/
theorem Asker.Right.mono {a : Asker} (h : a.Right s)
    (hidle : ∀ i, s.callers i ≠ .idle → s'.callers i ≠ .idle)
    (hcovered : ∀ i, s.callers i ≠ .idle → Covered s i → Covered s' i)
    (hcompleted : ∀ i, s.completed i = true → s'.completed i = true)
    (hsucceeded : ∀ i, s.succeeded i = true → s'.succeeded i = true) : a.Right s' := by
  rcases a with _ | before | ⟨before, unsettled, lastError⟩
  · trivial
  · intro i hi
    obtain ⟨hcaller, hcov⟩ := h i hi
    exact ⟨hidle i hcaller, hcovered i hcaller hcov⟩
  · intro hsettled i hi
    obtain ⟨hc, hs⟩ := h hsettled i hi
    exact ⟨hcompleted i hc, fun hnone => hsucceeded i (hs hnone)⟩

/-! ### The worker -/

/-- The worker moves, without starting or recording a run. -/
theorem Inv.move (h : Inv s) {wake : Notify} {forceNow : Bool} {worker : Worker ρ}
    (hasleep : wake.waiter = .asleep → wake.permit = false)
    (hwaits : worker.Waits ↔ wake.waiter ≠ .absent) (hruns : worker.Runs ↔ s.worker.Runs)
    (hdue : Due s → Due { s with wake, forceNow, worker })
    (hcovered : ∀ i, Covered s i → Covered { s with wake, forceNow, worker } i)
    (hbusy : worker.Busy → s.worker.Busy) :
    Inv { s with wake, forceNow, worker } where
  asleep := hasleep
  waits := hwaits
  runs := hruns.trans h.runs
  started i hi := (h.started i hi).imp_right hdue
  covered i hi := (h.covered i hi).imp_right (hcovered i)
  poked := h.poked
  seen i hb := h.seen i (hbusy hb)
  succeeded := h.succeeded
  right j := (h.right j).mono (fun _ hi => hi) (fun i _ => hcovered i) (fun _ hi => hi)
    fun _ hi => hi

theorem Worker.Busy.runs {worker : Worker ρ} (h : worker.Busy) : worker.Runs := by
  rcases worker with _ | _ | _ | _ | _ | _ | _ | _ | _ | _ <;> first | exact h | exact h.elim

/-- A worker that does not wait waits for no wake-up. -/
theorem Inv.still (h : Inv s) (hw : ¬ s.worker.Waits) {worker : Worker ρ} (hw' : ¬ worker.Waits) :
    worker.Waits ↔ s.wake.waiter ≠ .absent := iff_of_false hw' (mt h.waits.2 hw)

/-- While the worker does not run, what is covered is completed. -/
theorem Covered.completed {i : ℕ} (h : Covered s i) (hruns : ¬ s.worker.Runs) :
    s.completed i = true := by
  rcases h with h | h | ⟨h, -⟩
  · exact h
  · exact absurd (h ▸ trivial) hruns
  · exact absurd h.runs hruns

/-- The worker begins to wait. -/
theorem Inv.enter (h : Inv s) {worker : Worker ρ} (hw : ¬ s.worker.Waits) (hr : ¬ s.worker.Runs)
    (hwaits : worker.Waits) (hruns : ¬ worker.Runs)
    (hdue : s.worker.Underway → worker.Underway) :
    Inv { s with wake := s.wake.enter, worker := if s.wake.permit then .woken else worker } := by
  have habsent : s.wake.waiter = .absent := not_not.1 fun hne => hw (h.waits.2 hne)
  cases hp : s.wake.permit with
  | true =>
    rw [Notify.enter, hp, if_pos rfl, if_pos rfl]
    refine h.move (fun he => nomatch he) ?_ ?_ (fun _ => .inl trivial)
      (fun i hi => .inl (hi.completed hr)) False.elim
    · exact iff_of_false id fun hne => hne rfl
    · exact iff_of_false id hr
  | false =>
    rw [Notify.enter, hp]
    refine h.move (fun _ => rfl) (iff_of_true hwaits nofun) (iff_of_false hruns hr)
      (fun hd => ?_) (fun i hi => .inl (hi.completed hr)) fun hb => absurd hb.runs hruns
    rcases hd with hd | hd | hd
    · exact .inl (hdue hd)
    · rw [hp] at hd
      cases hd
    · rw [habsent] at hd
      cases hd

/-- The worker notices that it was woken. -/
theorem Inv.take (h : Inv s) (hr : ¬ s.worker.Runs) :
    Inv { s with wake := s.wake.take, worker := .woken } :=
  h.move (fun he => nomatch he) (iff_of_false id fun hne => hne rfl) (iff_of_false id hr)
    (fun _ => .inl trivial) (fun _ hi => .inl (hi.completed hr)) False.elim

/-- The worker sees whether it was woken by a forced poke. -/
theorem Inv.swap (h : Inv s) (hw : s.worker = .woken) :
    Inv { s with forceNow := false, worker := if s.forceNow then .starting else .settling } := by
  have hr : ¬ s.worker.Runs := hw ▸ id
  have hwaits : ¬ s.worker.Waits := hw ▸ id
  split_ifs
  all_goals
    exact h.move h.asleep (h.still hwaits id) (iff_of_false id hr) (fun _ => .inl trivial)
      (fun _ hi => .inl (hi.completed hr)) False.elim

/-- The worker says that it runs. -/
theorem Inv.run (h : Inv s) (hw : s.worker = .starting) :
    Inv { s with status := { s.status with running := true }, worker := .clearing } where
  asleep := h.asleep
  waits := h.still (hw ▸ id) id
  runs := iff_of_true trivial rfl
  started i hi := (h.started i hi).imp_right fun _ => .inl trivial
  covered i hi := (h.covered i hi).imp_right fun hc => .inl (hc.completed (hw ▸ id))
  poked := h.poked
  seen _ := False.elim
  succeeded := h.succeeded
  right j := (h.right j).mono (fun _ hi => hi) (fun _ _ hc => .inl (hc.completed (hw ▸ id)))
    (fun _ hi => hi) fun _ hi => hi

/-- The flag is cleared: the run that is to come sees all that was poked for. -/
theorem Inv.clear (h : Inv s) (hw : s.worker = .clearing) :
    Inv { s with dirty := false, worker := .cleared } where
  asleep := h.asleep
  waits := h.still (hw ▸ id) id
  runs := iff_of_true trivial (h.runs.1 (hw ▸ trivial))
  started i hi := (h.started i hi).imp_right fun _ => .inl trivial
  covered _ _ := .inr (.inr (.inl rfl))
  poked := h.poked
  seen _ := False.elim
  succeeded := h.succeeded
  right j := (h.right j).mono (fun _ hi => hi) (fun _ _ _ => .inr (.inl rfl)) (fun _ hi => hi)
    fun _ hi => hi

/-- A run starts, and sees every change for which somebody has poked. -/
theorem Inv.start (h : Inv s) (hw : s.worker = .cleared) : Inv (start s) where
  asleep := h.asleep
  waits := h.still (hw ▸ id) id
  runs := iff_of_true trivial (h.runs.1 (hw ▸ trivial))
  started _ hi := .inl (Bool.or_eq_true_iff.2 (.inr (decide_eq_true hi)))
  covered _ hi := .inr (.inr (.inr ⟨trivial, decide_eq_true hi⟩))
  poked i hi := hi.elim (fun hc => h.poked i (.inl hc)) of_decide_eq_true
  seen i _ hi := decide_eq_true (h.poked i (.inl hi))
  succeeded := h.succeeded
  right j := (h.right j).mono (fun _ hi => hi)
    (fun _ hi _ => .inr (.inr ⟨trivial, decide_eq_true hi⟩)) (fun _ hi => hi) fun _ hi => hi

/-- How a run went is recorded: what it saw is all that runs have seen. -/
theorem Inv.record (h : Inv s) {result : Except String ρ} {now : String}
    (hw : s.worker = .recording result) : Inv (record s now result) := by
  have hbusy : s.worker.Busy := hw ▸ trivial
  have hcovered (i : ℕ) (hi : Covered s i) : Covered (HarvestSched.record s now result) i := by
    refine .inl (Bool.or_eq_true_iff.2 ?_)
    rcases hi with hi | hi | ⟨-, hi⟩
    · exact .inl hi
    · rw [hw] at hi
      cases hi
    · exact .inr hi
  have hsucceeded (i : ℕ) (hi : s.succeeded i = true) :
      (HarvestSched.record s now result).succeeded i = true := by
    rcases result with _ | _
    · exact hi
    · exact Bool.or_eq_true_iff.2 (.inl hi)
  refine
    { asleep := h.asleep
      waits := h.still (hw ▸ id) id
      runs := ?_
      started := fun i hi => (h.started i hi).imp_right fun hd => .inr (hd.resolve_left (hw ▸ id))
      covered := fun i hi => (h.covered i hi).imp_right (hcovered i)
      poked := fun i hi => h.poked i (hi.elim Bool.or_eq_true_iff.1 .inr)
      seen := fun _ => False.elim
      succeeded := fun i hnone hi => ?_
      right := fun j => (h.right j).mono (fun _ hi => hi) (fun i _ => hcovered i)
        (fun _ hi => Bool.or_eq_true_iff.2 (.inl hi)) hsucceeded }
  · refine iff_of_false id ?_
    rcases result with _ | _ <;> exact Bool.false_ne_true
  · rcases result with e | report
    · cases hnone
    · refine Bool.or_eq_true_iff.2 (.inr ?_)
      exact (Bool.or_eq_true_iff.1 hi).elim (h.seen i hbusy) id

theorem Inv.work (h : Inv s) {now : String} (hs : work s now = some s') : Inv s' := by
  rw [HarvestSched.work.eq_def] at hs
  rcases hw : s.worker with _ | _ | _ | _ | _ | _ | _ | _ | _ | result <;> simp only [hw] at hs
  · exact Option.some.inj hs ▸ h.enter (hw ▸ id) (hw ▸ id) trivial id (hw ▸ id)
  · split_ifs at hs
    exact Option.some.inj hs ▸ h.take (hw ▸ id)
  · exact Option.some.inj hs ▸ h.swap hw
  · exact Option.some.inj hs ▸ h.enter (hw ▸ id) (hw ▸ id) trivial id fun _ => trivial
  · split_ifs at hs
    exact Option.some.inj hs ▸ h.take (hw ▸ id)
  · exact Option.some.inj hs ▸ h.run hw
  · exact Option.some.inj hs ▸ h.clear hw
  · exact Option.some.inj hs ▸ h.start hw
  · cases hs
  · exact Option.some.inj hs ▸ h.record hw

/-- The window passes: a wake-up that came at the same time is stored. -/
theorem Inv.sleep (h : Inv s) (hw : s.worker = .debouncing) :
    Inv { s with wake := s.wake.leave, worker := .starting } := by
  have hr : ¬ s.worker.Runs := hw ▸ id
  have hwake : s.wake.leave.waiter = .absent := by
    rw [Notify.leave]
    split <;> rfl
  refine h.move (fun he => ?_) (iff_of_false id (not_not.2 hwake)) (iff_of_false id hr)
    (fun _ => .inl trivial) (fun _ hi => .inl (hi.completed hr)) False.elim
  rw [hwake] at he
  cases he

/-- A run ends. -/
theorem Inv.finish (h : Inv s) {result : Except String ρ} (hw : s.worker = .harvesting) :
    Inv { s with worker := .recording result } := by
  refine h.move h.asleep (h.still (hw ▸ id) id) (iff_of_true trivial (hw ▸ trivial))
    (fun hd => .inr (hd.resolve_left (hw ▸ id))) (fun i hi => ?_) fun _ => hw ▸ trivial
  rcases hi with hi | hi | ⟨-, hi⟩
  · exact .inl hi
  · rw [hw] at hi
    cases hi
  · exact .inr (.inr ⟨trivial, hi⟩)

/-! ### Who calls -/

/-- Somebody pokes: the flag is set. -/
theorem Inv.call (h : Inv s) {i : ℕ} {force : Bool} (hs : call s i force = some s') : Inv s' := by
  rw [HarvestSched.call.eq_def] at hs
  rcases hi : s.callers i <;> simp only [hi, Option.some.injEq, reduceCtorEq] at hs
  subst hs
  -- Nobody is idle again, and nobody has returned who had not.
  have hidle : ∀ j, s.callers j ≠ .idle → setAt s.callers i (.stored force) j ≠ .idle :=
    forall_setAt (P := fun j (c : Caller) => s.callers j ≠ .idle → c ≠ .idle)
      (fun _ _ hj => hj) (fun _ => nofun)
  have hreturned : ∀ j, setAt s.callers i (.stored force) j = .returned →
      s.callers j = .returned :=
    forall_setAt (P := fun j (c : Caller) => c = .returned → s.callers j = .returned)
      (fun _ _ hj => hj) nofun
  exact
    { asleep := h.asleep
      waits := h.waits
      runs := h.runs
      started := fun j hj => h.started j (hreturned j hj)
      covered := fun _ _ => .inl rfl
      poked := fun j hj => hidle j (h.poked j hj)
      seen := h.seen
      succeeded := h.succeeded
      right := fun j => (h.right j).mono hidle (fun _ _ hc => hc) (fun _ hc => hc) fun _ hc => hc }

/-- Somebody who has set the flag goes on. -/
theorem Inv.proceed (h : Inv s) {i : ℕ} (hs : proceed s i = some s') : Inv s' := by
  have hidle (c : Caller) (hc : c ≠ .idle) (j : ℕ) (hj : s.callers j ≠ .idle) :
      setAt s.callers i c j ≠ .idle :=
    forall_setAt (P := fun j (c : Caller) => s.callers j ≠ .idle → c ≠ .idle)
      (fun _ _ hj => hj) (fun _ => hc) j hj
  have hcovered {c : Caller} (hi : s.callers i ≠ .idle) (j : ℕ)
      (hj : setAt s.callers i c j ≠ .idle) : s.dirty = true ∨ Covered s j :=
    forall_setAt (P := fun j (c : Caller) => c ≠ .idle → s.dirty = true ∨ Covered s j)
      (fun j _ hj => h.covered j hj) (fun _ => h.covered i hi) j hj
  -- Somebody returns: the worker has a wake-up.
  have hreturn (hi : s.callers i ≠ .idle) :
      Inv { s with wake := s.wake.notifyOne, callers := setAt s.callers i .returned } := by
    have hwake : s.wake.notifyOne.permit = true ∨ s.wake.notifyOne.waiter = .notified := by
      rw [Notify.notifyOne]
      split
      · exact .inr rfl
      · exact .inl rfl
    refine
      { asleep := fun he => ?_
        waits := h.waits.trans ?_
        runs := h.runs
        started := fun _ _ => .inr (.inr hwake)
        covered := hcovered hi
        poked := fun j hj => hidle .returned nofun j (h.poked j hj)
        seen := h.seen
        succeeded := h.succeeded
        right := fun j => (h.right j).mono (hidle .returned nofun) (fun _ _ hc => hc) (fun _ hc => hc)
          fun _ hc => hc }
    · rw [Notify.notifyOne.eq_def] at he
      rcases hw : s.wake.waiter <;> simp only [hw] at he <;> cases he
    · rw [Notify.notifyOne.eq_def]
      rcases hw : s.wake.waiter <;> simp
  rw [HarvestSched.proceed.eq_def] at hs
  rcases hi : s.callers i with _ | ⟨_ | _⟩ | _ | _ <;>
    simp only [hi, Option.some.injEq, reduceCtorEq] at hs <;> subst hs
  · exact hreturn (hi ▸ nofun)
  · exact
      { asleep := h.asleep
        waits := h.waits
        runs := h.runs
        started := forall_setAt
          (P := fun j (c : Caller) => c = .returned → s.ran j = true ∨ Due s)
          (fun j _ hj => h.started j hj) nofun
        covered := hcovered (hi ▸ nofun)
        poked := fun j hj => hidle .forced nofun j (h.poked j hj)
        seen := h.seen
        succeeded := h.succeeded
        right := fun j => (h.right j).mono (hidle .forced nofun) (fun _ _ hc => hc) (fun _ hc => hc)
          fun _ hc => hc }
  · exact hreturn (hi ▸ nofun)

/-- Somebody who asks goes on. -/
theorem Inv.asker (h : Inv s) {j : ℕ} {a : Asker} (ha : a.Right s) :
    Inv { s with askers := setAt s.askers j a } :=
  { h with right := forall_setAt (P := fun _ (a : Asker) => a.Right s) (fun k _ => h.right k) ha }

theorem Inv.ask (h : Inv s) {j : ℕ} (hs : ask s j = some s') : Inv s' := by
  rw [HarvestSched.ask.eq_def] at hs
  rcases hj : s.askers j <;> simp only [hj, Option.some.injEq, reduceCtorEq] at hs
  subst hs
  refine h.asker ?_
  rcases hd : s.dirty
  · -- The flag is not set: what somebody has poked for is covered.
    intro i hi
    have hreturned : s.callers i = .returned := of_decide_eq_true hi
    have hidle : s.callers i ≠ .idle := hreturned ▸ nofun
    exact ⟨hidle, (h.covered i hidle).resolve_left (hd ▸ Bool.false_ne_true)⟩
  · exact nofun

theorem Inv.answer (h : Inv s) {j : ℕ} (hs : answer s j = some s') : Inv s' := by
  rw [HarvestSched.answer.eq_def] at hs
  rcases hj : s.askers j with _ | before | _ <;>
    simp only [hj, Option.some.injEq, reduceCtorEq] at hs
  subst hs
  refine h.asker fun hrunning i hi => ?_
  have hright : (Asker.clean before).Right s := hj ▸ h.right j
  have hruns : ¬ s.worker.Runs := mt h.runs.1 (hrunning ▸ Bool.false_ne_true)
  have hcompleted : s.completed i = true := (hright i hi).2.completed hruns
  exact ⟨hcompleted, fun hnone => h.succeeded i hnone hcompleted⟩

/-- Every step keeps the invariant. -/
theorem Inv.step (h : Inv s) {a : Act ρ} (hs : step s a = some s') : Inv s' := by
  rcases a with ⟨i, force⟩ | i | j | j | now | _ | result
  · exact h.call hs
  · exact h.proceed hs
  · exact h.ask hs
  · exact h.answer hs
  · exact h.work hs
  · simp only [HarvestSched.step] at hs
    rcases hw : s.worker <;> simp only [hw, Option.some.injEq, reduceCtorEq] at hs
    exact hs ▸ h.sleep hw
  · simp only [HarvestSched.step] at hs
    rcases hw : s.worker <;> simp only [hw, Option.some.injEq, reduceCtorEq] at hs
    exact hs ▸ h.finish hw

/-! ### Runs to come -/

section Work

variable (now : String)

theorem work_ready (h : s.worker = .ready) : work s now = some
    { s with wake := s.wake.enter, worker := if s.wake.permit then .woken else .asleep } := by
  rw [work, h]

theorem work_asleep (h : s.worker = .asleep) (hn : s.wake.waiter = .notified) :
    work s now = some { s with wake := s.wake.take, worker := .woken } := by
  rw [work, h]
  exact if_pos hn

theorem work_woken (h : s.worker = .woken) : work s now = some
    { s with forceNow := false, worker := if s.forceNow then .starting else .settling } := by
  rw [work, h]

theorem work_settling (h : s.worker = .settling) : work s now = some
    { s with wake := s.wake.enter, worker := if s.wake.permit then .woken else .debouncing } := by
  rw [work, h]

theorem work_starting (h : s.worker = .starting) : work s now = some
    { s with status := { s.status with running := true }, worker := .clearing } := by
  rw [work, h]

theorem work_clearing (h : s.worker = .clearing) :
    work s now = some { s with dirty := false, worker := .cleared } := by
  rw [work, h]

theorem work_cleared (h : s.worker = .cleared) : work s now = some (start s) := by
  rw [work, h]

theorem work_recording {result : Except String ρ} (h : s.worker = .recording result) :
    work s now = some (record s now result) := by
  rw [work, h]

end Work

/-- The worker by itself comes to start one more run. -/
abbrev Starts (s : State ρ) : Prop := (system ρ).Leads Own (fun t => t.runs = s.runs + 1) s

/-- A step of its own, after which the worker comes to start a run. -/
theorem Starts.step {a : Act ρ} (ha : Own a) (hs : HarvestSched.step s a = some s')
    (hruns : s'.runs = s.runs) (h : Starts s') : Starts s := by
  rw [Starts, hruns] at h
  exact System.Leads.step ha hs h

theorem Starts.work {now : String} (hs : work s now = some s') (hruns : s'.runs = s.runs)
    (h : Starts s') : Starts s := h.step (a := .work now) trivial hs hruns

theorem starts_cleared (hw : s.worker = .cleared) : Starts s := by
  have hstart : (system ρ).step s (.work "") = some (start s) := work_cleared "" hw
  exact System.Leads.step (a := .work "") trivial hstart (.here rfl)

theorem starts_clearing (hw : s.worker = .clearing) : Starts s :=
  .work (work_clearing "" hw) rfl (starts_cleared rfl)

theorem starts_starting (hw : s.worker = .starting) : Starts s :=
  .work (work_starting "" hw) rfl (starts_clearing rfl)

theorem starts_debouncing (hw : s.worker = .debouncing) : Starts s := by
  have hsleep : step s .sleep = some { s with wake := s.wake.leave, worker := .starting } := by
    simp only [step, hw]
  exact .step (a := .sleep) trivial hsleep rfl (starts_starting rfl)

/-- The worker is about to wait for the window: it comes to a run, as the wake-up that is stored,
    if one is, is used up. -/
theorem starts_settling (hw : s.worker = .settling) : Starts s := by
  have hempty (t : State ρ) (ht : t.worker = .settling) (hp : t.wake.permit = false) :
      Starts t := by
    refine .work (work_settling "" ht) rfl (starts_debouncing ?_)
    exact if_neg (hp ▸ Bool.false_ne_true)
  rcases hp : s.wake.permit with _ | _
  · exact hempty s hw hp
  · refine .work (work_settling "" hw) rfl (.work (work_woken "" (if_pos hp)) rfl ?_)
    rcases hf : s.forceNow with _ | _
    · refine hempty _ rfl ?_
      simp only [Notify.enter, hp, if_true]
    · exact starts_starting rfl

theorem starts_woken (hw : s.worker = .woken) : Starts s := by
  refine .work (work_woken "" hw) rfl ?_
  rcases hf : s.forceNow with _ | _
  · exact starts_settling rfl
  · exact starts_starting rfl

/-- A worker that is about to wait and has a wake-up comes to a run. -/
theorem starts_ready (hw : s.worker = .ready) (hp : s.wake.permit = true) : Starts s :=
  .work (work_ready "" hw) rfl (starts_woken (if_pos hp))

/-- A run that is due comes to start, whatever becomes of the one that the worker is in. -/
theorem Inv.starts (h : Inv s) (hd : Due s) : Starts s := by
  -- While the worker does not wait, a wake-up for it is stored.
  have hpermit (hu : ¬ s.worker.Underway) (hw : ¬ s.worker.Waits) : s.wake.permit = true := by
    refine (hd.resolve_left hu).resolve_right fun hn => hw (h.waits.2 ?_)
    rw [hn]
    exact nofun
  rcases hw : s.worker with _ | _ | _ | _ | _ | _ | _ | _ | _ | result
  · exact starts_ready hw (hpermit (hw ▸ id) (hw ▸ id))
  · have hwaits : s.wake.waiter ≠ .absent := h.waits.1 (hw ▸ trivial)
    have hn : s.wake.waiter = .notified := by
      rcases hd with hd | hd | hd
      · rw [hw] at hd
        exact hd.elim
      · rcases hwaiter : s.wake.waiter
        · exact absurd hwaiter hwaits
        · rw [h.asleep hwaiter] at hd
          cases hd
        · rfl
      · exact hd
    exact .work (work_asleep "" hw hn) rfl (starts_woken rfl)
  · exact starts_woken hw
  · exact starts_settling hw
  · exact starts_debouncing hw
  · exact starts_starting hw
  · exact starts_clearing hw
  · exact starts_cleared hw
  · have hfinish : HarvestSched.step s (.finish (.error "")) =
        some { s with worker := .recording (.error "") } := by
      simp only [HarvestSched.step, hw]
    refine .step (a := .finish _) trivial hfinish rfl (.work (work_recording "" rfl) rfl ?_)
    exact starts_ready rfl (hpermit (hw ▸ id) (hw ▸ id))
  · exact .work (work_recording "" hw) rfl (starts_ready rfl (hpermit (hw ▸ id) (hw ▸ id)))

end Keeps

/-- Whatever the worker does, and whoever pokes and asks, no poke is lost; and when the scheduler
    is found settled, what was poked for before was seen by a run that has ended, and by one that
    went well unless the last one failed. -/
theorem system_keeps {ρ : Type} {s : State ρ} (h : (system ρ).Reachable s) : Keeps s := by
  have hinv : Inv s := by
    refine h.invariant (fun s hs => ?_) fun s a s' hi _ hst => hi.step hst
    obtain rfl : s = boot := hs
    exact
      { asleep := nofun
        waits := iff_of_false id fun hne => hne rfl
        runs := iff_of_false id nofun
        started := nofun
        covered := fun i hi => absurd rfl hi
        poked := fun i hi => by rcases hi with hi | hi <;> cases hi
        seen := fun i hb => hb.elim
        succeeded := nofun
        right := fun j => trivial }
  refine ⟨hinv.started, hinv.starts, fun j before lastError hj i hi => ?_⟩
  have hright : (s.askers j).Right s := hinv.right j
  rw [hj] at hright
  exact hright rfl i hi

/-! ## Runs -/

/-- Somebody pokes, and the worker harvests. -/
def harvest (result : Except String Unit) : List (Act Unit) :=
  [.work "", .call 0 false, .proceed 0, .work "", .work "", .work "", .sleep, .work "", .work "",
    .work "", .finish result, .work "noon"]

/-- A poke is harvested for, and the scheduler is found settled. -/
theorem system_keeps_harvest :
    ∃ (s : State Unit) (before : ℕ → Bool), (system Unit).Reachable s ∧ s.runs = 1 ∧
      s.askers 0 = .answered before false none ∧ before 0 = true ∧ s.ran 0 = true ∧
      s.succeeded 0 = true ∧ Keeps s := by
  have hrun : ∃ (s : State Unit) (before : ℕ → Bool),
      (system Unit).run boot (harvest (.ok ()) ++ [.ask 0, .answer 0]) = some s ∧ s.runs = 1 ∧
      s.askers 0 = .answered before false none ∧ before 0 = true ∧ s.ran 0 = true ∧
      s.succeeded 0 = true :=
    ⟨_, _, rfl, rfl, rfl, rfl, rfl, rfl⟩
  obtain ⟨s, before, hs, hruns, hasker, hbefore, hran, hsucceeded⟩ := hrun
  have h₀ : (system Unit).Reachable boot := .init rfl
  exact ⟨s, before, h₀.run hs, hruns, hasker, hbefore, hran, hsucceeded, system_keeps (h₀.run hs)⟩

/-- When the scheduler is found settled, what was poked for before was seen by a run that went
    well. -/
def Visible {ρ : Type} (s : State ρ) : Prop :=
  ∀ j before lastError, s.askers j = .answered before false lastError →
    ∀ i, before i = true → s.succeeded i = true

/-- A poke is harvested for, the run fails, and the scheduler is found settled. -/
theorem system_failed :
    ∃ s : State Unit, (system Unit).Reachable s ∧ s.callers 0 = .returned ∧ s.runs = 1 ∧
      s.dirty = false ∧ s.status = ⟨false, none, some "disk full", some "noon"⟩ ∧ ¬ Visible s := by
  have hrun : ∃ (s : State Unit) (before : ℕ → Bool),
      (system Unit).run boot (harvest (.error "disk full") ++ [.ask 0, .answer 0]) = some s ∧
      s.callers 0 = .returned ∧ s.runs = 1 ∧ s.dirty = false ∧
      s.status = ⟨false, none, some "disk full", some "noon"⟩ ∧
      s.askers 0 = .answered before false (some "disk full") ∧ before 0 = true ∧
      s.succeeded 0 = false :=
    ⟨_, _, rfl, rfl, rfl, rfl, rfl, rfl, rfl, rfl⟩
  obtain ⟨s, before, hs, hcaller, hruns, hdirty, hstatus, hasker, hbefore, hsucceeded⟩ := hrun
  have h₀ : (system Unit).Reachable boot := .init rfl
  refine ⟨s, h₀.run hs, hcaller, hruns, hdirty, hstatus, fun h => ?_⟩
  have hseen : s.succeeded 0 = true := h 0 before _ hasker 0 hbefore
  rw [hsucceeded] at hseen
  cases hseen

end HarvestSched

end Smrt
