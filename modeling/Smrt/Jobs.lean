import Mathlib.Data.List.Basic
import Mathlib.Data.List.Infix
import Smrt.Lib.System

/-!
# The log of a job

A job writes lines into its log and finishes once, well or not (`Job`). Whoever watches it reads
the log from where they are on, together with the status, passes the lines on, and waits for
a change, until the status is a last one (`job_events`). The writer pushes a line, or sets the
status, and then wakes who waits: a step of its own, and nobody else is woken by it. A wait ends
by itself after half a second.

A watcher is sent every line once, in the order of the log, all of them before the event of the
end, and it waits for its wake-up or for half a second at most, whatever happens in between;
once the job has finished its own steps bring it to the end (`Sees`, `system_sees`). A wake-up is
missed by who has read the log and does not wait yet (`system_missed`): only the half second sees
to it that the watcher reads again.
-/

namespace Smrt

namespace Jobs

/-! ## States -/

inductive Status
  | running
  | done
  | failed
  deriving DecidableEq

/-- A server-sent event. -/
structure Event where
  event : String
  data : String
  deriving DecidableEq

/-- The event of a line. -/
def Event.line (text : String) : Event := ⟨"line", text⟩

/-- The event of the end, if it is one. -/
def Status.final : Status → Option Event
  | .running => none
  | .done => some ⟨"done", "ok"⟩
  | .failed => some ⟨"failed", "failed"⟩

/-- Where the writer is: before a call, in a call before it wakes who waits, or at the end. -/
inductive Writer
  | idle
  | pushed
  | finished
  | ended
  deriving DecidableEq

/-- Where a watcher is. -/
inductive Phase
  | absent
  | reading
  /-- Has read the lines, with the status, and passes them on. -/
  | sending (lines : List String) (status : Status)
  /-- Waits, woken or not, until a moment at most. -/
  | waiting (notified : Bool) (deadline : ℕ)
  | closed
  | gone
  deriving DecidableEq

/-- A watcher: where it is, how many lines it passed on, and all that it was sent. -/
structure Watcher where
  phase : Phase
  sent : ℕ
  received : List Event

/-- A job, its watchers, and the time in milliseconds. -/
structure State where
  log : List String
  status : Status
  writer : Writer
  watchers : ℕ → Watcher
  now : ℕ

/-- What happens. -/
inductive Act
  | line (text : String)
  | finish (ok : Bool)
  | notify
  | watch (i : ℕ)
  | next (i : ℕ)
  | timeout (i : ℕ)
  | leave (i : ℕ)
  | tick

/-! ## Steps -/

section Step

variable (s : State) (i : ℕ)

/-- The lines from an index on, and the status. -/
def since (first : ℕ) : List String × Status := (s.log.drop first, s.status)

/-- How long a watcher waits for a change at most. -/
def patience : ℕ := 500

/-- Somebody who waits is woken. -/
def Watcher.wake (w : Watcher) : Watcher :=
  match w.phase with
  | .waiting _ deadline => { w with phase := .waiting true deadline }
  | _ => w

/-- Everybody who waits is woken. -/
def notifyWaiters : State := { s with watchers := fun i => (s.watchers i).wake }

/-- A watcher moves. -/
def State.to (w : Watcher) : State := { s with watchers := setAt s.watchers i w }

/-- What a watcher does next: it reads, passes a line on, waits or ends, or notices that it was
    woken. -/
def next (w : Watcher) : Option Watcher :=
  match w.phase with
  | .reading => some { w with phase := .sending (since s w.sent).1 (since s w.sent).2 }
  | .sending (line :: lines) status =>
    some ⟨.sending lines status, w.sent + 1, w.received ++ [.line line]⟩
  | .sending [] status => some (match status.final with
    | none => { w with phase := .waiting false (s.now + patience) }
    | some event => { w with phase := .closed, received := w.received ++ [event] })
  | .waiting true _ => some { w with phase := .reading }
  | _ => none

/-- A wait ends by itself. -/
def timeout (w : Watcher) : Option Watcher :=
  match w.phase with
  | .waiting _ deadline => if deadline ≤ s.now then some { w with phase := .reading } else none
  | _ => none

def step : Act → Option State
  | .line text => if s.writer = .idle then
      some { s with log := s.log ++ [text], writer := .pushed } else none
  | .finish ok => if s.writer = .idle then
      some { s with status := if ok then .done else .failed, writer := .finished } else none
  | .notify => match s.writer with
    | .pushed => some (notifyWaiters { s with writer := .idle })
    | .finished => some (notifyWaiters { s with writer := .ended })
    | _ => none
  | .watch i => match (s.watchers i).phase with
    | .absent => some (s.to i ⟨.reading, 0, []⟩)
    | _ => none
  | .next i => (next s (s.watchers i)).map (s.to i)
  | .timeout i => (timeout s (s.watchers i)).map (s.to i)
  | .leave i => some (s.to i { s.watchers i with phase := .gone })
  | .tick => some { s with now := s.now + 1 }

/-- A job that was just made, and watched by nobody. -/
def system : System State Act where
  init s := s.log = [] ∧ s.status = .running ∧ s.writer = .idle ∧
    ∀ i, s.watchers i = ⟨.absent, 0, []⟩
  step := step

end Step

/-! ## What a watcher sees -/

/-- A watcher was sent the lines up to where it is, in order. -/
def Along (s : State) (w : Watcher) : Prop :=
  w.sent ≤ s.log.length ∧ w.received = (s.log.take w.sent).map .line

/-- A watcher was sent all the lines in order, and then the event of the end. -/
def AtEnd (s : State) (w : Watcher) : Prop :=
  ∃ event, s.status.final = some event ∧ w.received = s.log.map .line ++ [event]

/-- A watcher is still there. -/
def Phase.Open (p : Phase) : Prop := p ≠ .absent ∧ p ≠ .gone

/-- What is a watcher's own: its steps, and that time passes. -/
def Own (i : ℕ) (a : Act) : Prop := a = .next i ∨ a = .timeout i ∨ a = .tick

/-- What a watcher comes to when its job has finished: the log and the status are as they were,
    and it has been sent all. -/
def Comes (s : State) (i : ℕ) (s' : State) : Prop :=
  s'.log = s.log ∧ s'.status = s.status ∧ AtEnd s (s'.watchers i)

/-- A watcher is sent the lines once, in order, and before the end; it waits for its wake-up or
    for its patience to end; and when the job has finished, it comes to the end. -/
structure Sees (s : State) (i : ℕ) : Prop where
  ordered : Along s (s.watchers i) ∨ AtEnd s (s.watchers i)
  awaited (notified : Bool) (deadline : ℕ) : (s.watchers i).phase = .waiting notified deadline →
    notified = true ∨ deadline ≤ s.now + patience
  ends : s.status ≠ .running → (s.watchers i).phase.Open →
    system.Leads (Own i) (Comes s i) s

/-! ## The invariant -/

/-- A watcher is right about the log and the status: what it has in hand is what comes next, and
    all there is if it has read that the job is over. -/
def Watcher.Right (s : State) (w : Watcher) : Prop :=
  match w.phase with
  | .sending lines status => Along s w ∧ ∃ rest, s.log.drop w.sent = lines ++ rest ∧
      (status ≠ .running → rest = [] ∧ s.status = status)
  | .waiting _ deadline => Along s w ∧ deadline ≤ s.now + patience
  | .closed => AtEnd s w
  | .gone => Along s w ∨ AtEnd s w
  | _ => Along s w

/-- The status is set by the last call, and the watchers are right. -/
structure Inv (s : State) : Prop where
  last : s.writer = .idle ∨ s.writer = .pushed → s.status = .running
  right (i : ℕ) : (s.watchers i).Right s

section Invariant

variable {s s' : State} {i : ℕ} {w w' : Watcher}

theorem Status.final_eq_none {status : Status} : status.final = none ↔ status = .running := by
  cases status <;> simp [final]

theorem Watcher.Right.ordered (h : w.Right s) : Along s w ∨ AtEnd s w := by
  rw [Right] at h
  split at h
  · exact .inl h.1
  · exact .inl h.1
  · exact .inr h
  · exact h
  · exact .inl h

/-! ### The watchers -/

/-- What a watcher does next is right. -/
theorem Watcher.Right.next (h : w.Right s) (hw : next s w = some w') : w'.Right s := by
  obtain ⟨phase, sent, received⟩ := w
  rw [Jobs.next.eq_def] at hw
  rcases phase with _ | _ | ⟨_ | ⟨line, lines⟩, status⟩ | ⟨_ | _, deadline⟩ | _ | _ <;>
    simp only [Option.some.injEq, reduceCtorEq] at hw
  · subst hw
    exact ⟨h, [], (List.append_nil _).symm, fun _ => ⟨rfl, rfl⟩⟩
  · obtain ⟨⟨hle, hreceived⟩, rest, hrest, hover⟩ := h
    rcases hf : status.final with _ | event
    · rw [hf] at hw
      subst hw
      exact ⟨⟨hle, hreceived⟩, Nat.le_refl _⟩
    · rw [hf] at hw
      subst hw
      have hst : status ≠ .running := fun he => by rw [he] at hf; cases hf
      obtain ⟨rfl, hstatus⟩ := hover hst
      -- Nothing is left in the log.
      have hall : s.log.take sent = s.log := List.take_of_length_le (List.drop_eq_nil_iff.1 hrest)
      refine ⟨event, hstatus ▸ hf, ?_⟩
      simp only at hreceived ⊢
      rw [hreceived, hall]
  · subst hw
    obtain ⟨⟨hle, hreceived⟩, rest, hrest, hover⟩ := h
    have hlt : sent < s.log.length := by
      by_contra hge
      rw [List.drop_of_length_le (Nat.le_of_not_lt hge)] at hrest
      cases hrest
    have hcons := List.drop_eq_getElem_cons hlt
    rw [show s.log.drop sent = line :: (lines ++ rest) from hrest, List.cons.injEq] at hcons
    refine ⟨⟨hlt, ?_⟩, rest, hcons.2.symm, hover⟩
    simp only at hreceived ⊢
    rw [hreceived, List.take_add_one, List.getElem?_eq_getElem hlt, ← hcons.1, Option.toList_some,
      List.map_append, List.map_singleton]
  · subst hw
    exact h.1

/-- A wait that ends is right. -/
theorem Watcher.Right.timeout (h : w.Right s) (hw : timeout s w = some w') : w'.Right s := by
  obtain ⟨phase, sent, received⟩ := w
  rcases phase with _ | _ | _ | ⟨notified, deadline⟩ | _ | _ <;>
    simp only [Jobs.timeout, reduceCtorEq] at hw
  split_ifs at hw
  obtain rfl := Option.some.inj hw
  exact h.1

theorem Watcher.Right.wake (h : w.Right s) : w.wake.Right s := by
  obtain ⟨phase, sent, received⟩ := w
  rcases phase with _ | _ | _ | _ | _ | _ <;> exact h

theorem Watcher.Right.leave (h : w.Right s) : Right s { w with phase := .gone } := h.ordered

/-! ### The writer -/

/-- A line is pushed while the job runs: the watchers are right about the longer log. -/
theorem Watcher.Right.line (h : w.Right s) (hrunning : s.status = .running) {text : String}
    {writer : Writer} : w.Right { s with log := s.log ++ [text], writer } := by
  have halong (ha : Along s w) : Along { s with log := s.log ++ [text], writer } w := by
    refine ⟨ha.1.trans ?_, ?_⟩
    · rw [List.length_append]
      exact Nat.le_add_right ..
    · rw [List.take_append_of_le_length ha.1]
      exact ha.2
  have hopen : ¬ AtEnd s w := by
    rintro ⟨event, he, -⟩
    rw [hrunning] at he
    cases he
  rw [Right] at h ⊢
  split at h
  · obtain ⟨ha, rest, hrest, hover⟩ := h
    refine ⟨halong ha, rest ++ [text], ?_, fun hst => absurd (hover hst).2 ?_⟩
    · rw [List.drop_append_of_le_length ha.1, hrest, List.append_assoc]
    · rw [hrunning]
      exact hst.symm
  · exact ⟨halong h.1, h.2⟩
  · exact absurd h hopen
  · exact .inl (halong (h.resolve_right hopen))
  · exact halong h

/-- The job finishes: nobody had read that it has. -/
theorem Watcher.Right.finish (h : w.Right s) (hrunning : s.status = .running) {status : Status}
    {writer : Writer} : w.Right { s with status, writer } := by
  have hopen : ¬ AtEnd s w := by
    rintro ⟨event, he, -⟩
    rw [hrunning] at he
    cases he
  rw [Right] at h ⊢
  split at h
  · obtain ⟨ha, rest, hrest, hover⟩ := h
    refine ⟨ha, rest, hrest, fun hst => absurd (hover hst).2 ?_⟩
    rw [hrunning]
    exact hst.symm
  · exact h
  · exact absurd h hopen
  · exact .inl (h.resolve_right hopen)
  · exact h

/-- Time passes. -/
theorem Watcher.Right.tick (h : w.Right s) : w.Right { s with now := s.now + 1 } := by
  rw [Right] at h ⊢
  split at h
  · exact h
  · exact ⟨h.1, h.2.trans (Nat.add_le_add_right (Nat.le_succ _) _)⟩
  all_goals exact h

/-! ### Runs -/

/-- A watcher moves. -/
theorem Inv.to (h : Inv s) (hw : w.Right s) : Inv (s.to i w) where
  last := h.last
  right := forall_setAt (P := fun _ (w : Watcher) => w.Right s) (fun j _ => h.right j) hw

theorem Inv.notifyWaiters (h : Inv s) {writer : Writer}
    (hlast : writer = .idle ∨ writer = .pushed → s.status = .running) :
    Inv (notifyWaiters { s with writer }) := ⟨hlast, fun i => (h.right i).wake⟩

/-- Every step keeps the invariant. -/
theorem Inv.step (h : Inv s) {a : Act} (hs : step s a = some s') : Inv s' := by
  cases a with
  | line text =>
    simp only [Jobs.step] at hs
    split_ifs at hs with hidle
    obtain rfl := Option.some.inj hs
    exact ⟨fun _ => h.last (.inl hidle), fun i => (h.right i).line (h.last (.inl hidle))⟩
  | finish ok =>
    simp only [Jobs.step] at hs
    split_ifs at hs with hidle
    all_goals
      obtain rfl := Option.some.inj hs
      exact ⟨(nomatch ·), fun i => (h.right i).finish (h.last (.inl hidle))⟩
  | notify =>
    simp only [Jobs.step] at hs
    rcases hw : s.writer <;> simp only [hw, Option.some.injEq, reduceCtorEq] at hs <;> subst hs
    · exact h.notifyWaiters fun _ => h.last (.inr hw)
    · exact h.notifyWaiters (nomatch ·)
  | watch i =>
    simp only [Jobs.step] at hs
    rcases hw : (s.watchers i).phase <;> simp only [hw, Option.some.injEq, reduceCtorEq] at hs
    subst hs
    have hright : Watcher.Right s ⟨.reading, 0, []⟩ := ⟨Nat.zero_le _, rfl⟩
    exact h.to hright
  | next i =>
    obtain ⟨w, hw, rfl⟩ := Option.map_eq_some_iff.1 hs
    exact h.to ((h.right i).next hw)
  | timeout i =>
    obtain ⟨w, hw, rfl⟩ := Option.map_eq_some_iff.1 hs
    exact h.to ((h.right i).timeout hw)
  | leave i => exact Option.some.inj hs ▸ h.to (h.right i).leave
  | tick => exact Option.some.inj hs ▸ ⟨h.last, fun i => (h.right i).tick⟩

/-! ### The end -/

theorem step_next (hw : next s (s.watchers i) = some w) :
    system.step s (.next i) = some (s.to i w) := by
  change (Jobs.next s (s.watchers i)).map (s.to i) = _
  rw [hw, Option.map_some]

@[simp] theorem to_watchers_self : (s.to i w).watchers i = w := setAt_self ..

/-- A step of a watcher, after which it comes to the end. -/
theorem leads_next (hw : next s (s.watchers i) = some w)
    (h : system.Leads (Own i) (Comes s i) (s.to i w)) : system.Leads (Own i) (Comes s i) s :=
  .step (.inl rfl) (step_next hw) h

/-- A watcher that has read the rest of the log, and that the job is over, comes to the end. -/
theorem Inv.leads_sending {lines : List String} {status : Status} (h : Inv s)
    (hp : (s.watchers i).phase = .sending lines status) (hst : status ≠ .running) :
    system.Leads (Own i) (Comes s i) s := by
  induction lines generalizing s with
  | nil =>
    obtain ⟨event, hf⟩ := Option.ne_none_iff_exists'.1 (mt Status.final_eq_none.1 hst)
    have hnext : next s (s.watchers i) =
        some ⟨.closed, (s.watchers i).sent, (s.watchers i).received ++ [event]⟩ := by
      rw [Jobs.next, hp]
      simp only [hf]
    have hend : AtEnd s _ := (h.right i).next hnext
    exact leads_next hnext (.here ⟨rfl, rfl, by rw [to_watchers_self]; exact hend⟩)
  | cons line lines ih =>
    have hnext : next s (s.watchers i) = some ⟨.sending lines status, (s.watchers i).sent + 1,
        (s.watchers i).received ++ [.line line]⟩ := by
      rw [Jobs.next, hp]
    exact leads_next hnext (ih (h.to ((h.right i).next hnext)) (by rw [to_watchers_self]))

/-- A watcher that reads the log of a job that has finished comes to the end. -/
theorem Inv.leads_reading (h : Inv s) (hp : (s.watchers i).phase = .reading)
    (hst : s.status ≠ .running) : system.Leads (Own i) (Comes s i) s := by
  have hnext : next s (s.watchers i) =
      some { s.watchers i with phase := .sending (s.log.drop (s.watchers i).sent) s.status } := by
    rw [Jobs.next, hp]
    rfl
  exact leads_next hnext (Inv.leads_sending (h.to ((h.right i).next hnext))
    (by rw [to_watchers_self]) hst)

/-- A watcher that waits comes to the end, at the latest when its patience has ended. -/
theorem Inv.leads_waiting {notified : Bool} {deadline : ℕ} (h : Inv s)
    (hp : (s.watchers i).phase = .waiting notified deadline) (hst : s.status ≠ .running) :
    system.Leads (Own i) (Comes s i) s := by
  -- By how much time is left.
  obtain ⟨left, hleft⟩ : ∃ left, deadline ≤ s.now + left :=
    ⟨deadline, Nat.le_add_left ..⟩
  induction left generalizing s with
  | zero =>
    have htimeout : timeout s (s.watchers i) = some { s.watchers i with phase := .reading } := by
      rw [Jobs.timeout, hp]
      exact if_pos hleft
    have hstep : system.step s (.timeout i) =
        some (s.to i { s.watchers i with phase := .reading }) := by
      change (Jobs.timeout s (s.watchers i)).map (s.to i) = _
      rw [htimeout, Option.map_some]
    exact .step (.inr (.inl rfl)) hstep (Inv.leads_reading (h.to ((h.right i).timeout htimeout))
      (by rw [to_watchers_self]) hst)
  | succ left ih =>
    refine .step (a := .tick) (.inr (.inr rfl)) rfl
      (ih (s := { s with now := s.now + 1 }) (h.step (a := .tick) rfl) hp hst ?_)
    simp only
    omega

/-- A watcher that had read the log while the job was running comes to the end. -/
theorem Inv.leads_stale {lines : List String} (h : Inv s)
    (hp : (s.watchers i).phase = .sending lines .running) (hst : s.status ≠ .running) :
    system.Leads (Own i) (Comes s i) s := by
  induction lines generalizing s with
  | nil =>
    have hnext : next s (s.watchers i) =
        some { s.watchers i with phase := .waiting false (s.now + patience) } := by
      rw [Jobs.next, hp]
      rfl
    exact leads_next hnext (Inv.leads_waiting (h.to ((h.right i).next hnext))
      (by rw [to_watchers_self]) hst)
  | cons line lines ih =>
    have hnext : next s (s.watchers i) = some ⟨.sending lines .running, (s.watchers i).sent + 1,
        (s.watchers i).received ++ [.line line]⟩ := by
      rw [Jobs.next, hp]
    exact leads_next hnext
      (ih (h.to ((h.right i).next hnext)) (by rw [to_watchers_self]) hst)

theorem Inv.leads (h : Inv s) (hst : s.status ≠ .running) (hopen : (s.watchers i).phase.Open) :
    system.Leads (Own i) (Comes s i) s := by
  rcases hp : (s.watchers i).phase with _ | _ | ⟨lines, status⟩ | ⟨notified, deadline⟩ | _ | _
  · exact absurd hp hopen.1
  · exact h.leads_reading hp hst
  · rcases eq_or_ne status .running with rfl | hne
    · exact h.leads_stale hp hst
    · exact h.leads_sending hp hne
  · exact h.leads_waiting hp hst
  · have hend : (s.watchers i).Right s := h.right i
    rw [Watcher.Right, hp] at hend
    exact .here ⟨rfl, rfl, hend⟩
  · exact absurd hp hopen.2

/-- Whatever the job and its watchers do, a watcher is sent every line once, in the order of the
    log and before the end, and waits for its wake-up or for half a second at most. -/
theorem system_sees (h : system.Reachable s) (i : ℕ) : Sees s i := by
  have hinv : Inv s := by
    refine h.invariant (fun s hs => ?_) fun s a s' hi _ hst => hi.step hst
    obtain ⟨hlog, hstatus, hwriter, hwatchers⟩ := hs
    refine ⟨fun _ => hstatus, fun i => ?_⟩
    rw [hwatchers]
    exact ⟨Nat.zero_le _, rfl⟩
  refine ⟨(hinv.right i).ordered, fun notified deadline hp => ?_, hinv.leads⟩
  have hright : (s.watchers i).Right s := hinv.right i
  rw [Watcher.Right, hp] at hright
  exact .inr hright.2

end Invariant

/-! ## Runs -/

/-- A job that was just made. -/
def start : State := ⟨[], .running, .idle, fun _ => ⟨.absent, 0, []⟩, 0⟩

/-- A line is written, and the job is done; a watcher sees the line, and is still there. -/
theorem system_sees_line :
    ∃ s, system.Reachable s ∧ s.log = ["resolving"] ∧ s.status = .done ∧
      (s.watchers 0).phase = .waiting true 500 ∧
      (s.watchers 0).received = [.line "resolving"] ∧ Sees s 0 := by
  have hrun : ∃ s, system.run start
      [.watch 0, .line "resolving", .notify, .next 0, .next 0, .next 0, .finish true, .notify] =
        some s ∧ s.log = ["resolving"] ∧ s.status = .done ∧
      (s.watchers 0).phase = .waiting true 500 ∧
      (s.watchers 0).received = [.line "resolving"] :=
    ⟨_, rfl, rfl, rfl, by decide +kernel, by decide +kernel⟩
  obtain ⟨s, hs, h⟩ := hrun
  have h₀ : system.Reachable start := .init ⟨rfl, rfl, rfl, fun _ => rfl⟩
  exact ⟨s, h₀.run hs, h.1, h.2.1, h.2.2.1, h.2.2.2, system_sees (h₀.run hs) 0⟩

/-- Who waits while there is something that they have not read was woken, or is about to be. -/
def Woken (s : State) (i : ℕ) : Prop :=
  ∀ notified deadline, (s.watchers i).phase = .waiting notified deadline →
    (s.watchers i).sent < s.log.length ∨ s.status ≠ .running →
    notified = true ∨ s.writer = .pushed ∨ s.writer = .finished

/-- A watcher reads the log, a line is written and the job is done; then it begins to wait, and
    nobody will wake it. -/
theorem system_missed :
    ∃ s, system.Reachable s ∧ s.log = ["resolving"] ∧ s.status = .done ∧ s.writer = .ended ∧
      (s.watchers 0).phase = .waiting false 500 ∧ (s.watchers 0).received = [] ∧
      ¬ Woken s 0 := by
  have hrun : ∃ s, system.run start
      [.watch 0, .next 0, .line "resolving", .notify, .finish true, .notify, .next 0] = some s ∧
      s.log = ["resolving"] ∧ s.status = .done ∧ s.writer = .ended ∧
      (s.watchers 0).phase = .waiting false 500 ∧ (s.watchers 0).received = [] :=
    ⟨_, rfl, rfl, rfl, rfl, by decide +kernel, by decide +kernel⟩
  obtain ⟨s, hs, hlog, hstatus, hwriter, hphase, hreceived⟩ := hrun
  have h₀ : system.Reachable start := .init ⟨rfl, rfl, rfl, fun _ => rfl⟩
  refine ⟨s, h₀.run hs, hlog, hstatus, hwriter, hphase, hreceived, fun h => ?_⟩
  rcases h false 500 hphase (.inr (by rw [hstatus]; decide)) with hw | hw | hw
  · cases hw
  all_goals
    rw [hwriter] at hw
    cases hw

end Jobs

end Smrt
