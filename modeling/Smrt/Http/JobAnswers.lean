import Mathlib.Data.List.Sort
import Mathlib.Data.String.Basic
import Smrt.Domain.Pack
import Smrt.Http.Auth
import Smrt.Jobs
import Smrt.Lib.System

/-!
# What a job tells

The jobs of all packs are in one registry (`JobRegistry`), and on disk as snapshots. Who has a
session and sends the id of a job is told what it logged, what the check found and what a dry run
resolved (`job_status`), and is sent the lines of its log (`job_events`): the id, a time and a
number, is all that is asked for. So a job tells about its pack whoever sends its id, whether they
may see the pack or not, and a job more of one pack moves the ids of the others (`system_guessed`).

Nothing of a pack is told under another id: two runs that differ in what the jobs of a pack log,
find and result in give the same answers for every id that is not of such a job
(`system_answers_alike`).
-/

namespace Smrt

namespace JobAnswers

open Jobs (Status Event)

/-! ## States -/

/-- How far the task of a job is: the job is on disk before any work, and once more at the end. -/
inductive Phase
  | spawned
  | working
  | finished
  | ended
  deriving DecidableEq

/-- What a dry run resolves. -/
structure DryRun where
  manifest : PackManifest
  summary : PackSummary
  deriving DecidableEq

structure Job where
  id : String
  kind : String
  packId : String
  log : List String
  status : Status
  result : Option DryRun
  blocked : List String
  phase : Phase

/-- What is on disk of a job. -/
structure JobSnapshot where
  jobId : String
  kind : String
  packId : String
  status : Status
  log : List String

def JobSnapshot.of (job : Job) : JobSnapshot :=
  ⟨job.id, job.kind, job.packId, job.status, job.log⟩

structure State where
  /-- The jobs of this process: their tasks, and the streams open on them, keep them. -/
  jobs : String → Option Job
  /-- The ids in the registry. -/
  known : List String
  counter : ℕ
  snapshots : String → Option JobSnapshot
  /-- The ids with a snapshot, in the order of the directory. -/
  files : List String

/-- What happens. -/
inductive Act
  | build (identity : Identity) (suspension : Option (Option String)) (granted : Option PackLevel)
      (packId : String) (dryRun : Bool) (ms : ℕ)
  | bootstrap (identity : Identity) (packId : String) (ms : ℕ)
  /-- The task of a job begins, with the job on disk, if that can be written. -/
  | start (id : String) (saved : Bool)
  | line (id text : String)
  | setBlocked (id : String) (blocked : List String)
  | setResult (id : String) (result : DryRun)
  | finish (id : String) (ok : Bool)
  | close (id : String) (saved : Bool)
  /-- The service starts again. Its sweep comes to the end, or fails after some of the files. -/
  | restart (failed : Option (List String))

/-! ## Steps -/

/-- Digits with zeros before them. -/
def padded (width : ℕ) (digits : List Char) : String :=
  String.ofList (List.leftpad width '0' digits)

/-- The id of a job: when it was made, and how many were before it. -/
def jobId (ms n : ℕ) : String :=
  padded 13 (Nat.toDigits 16 ms) ++ "-" ++ padded 8 (Nat.toDigits 10 n)

def isSafeJobId (s : String) : Bool :=
  s ≠ "" ∧ s.utf8ByteSize ≤ 64 ∧
    s.toList.all fun c => c.isDigit ∨ ('a' ≤ c ∧ c ≤ 'f') ∨ c = '-'

section Step

variable (s : State)

/-- The oldest job in the registry that is not running. -/
def victim (jobs : String → Option Job) (known : List String) : Option String :=
  (known.filter fun id => (jobs id).any fun job => job.status ≠ .running).min?

/-- What stays in the registry. -/
def bounded (jobs : String → Option Job) (known : List String) : List String :=
  if 50 < known.length then (victim jobs known).elim known known.erase else known

def create (kind packId : String) (ms : ℕ) : State :=
  let id := jobId ms s.counter
  let jobs := Function.update s.jobs id (some ⟨id, kind, packId, [], .running, none, [], .spawned⟩)
  { s with counter := s.counter + 1, jobs, known := bounded jobs (s.known.insert id) }

/-- A job is written to disk. -/
def persist (saved : Bool) (job : Job) : State :=
  if saved ∧ isSafeJobId job.id then
    { s with snapshots := Function.update s.snapshots job.id (some (.of job))
             files := s.files.insert job.id }
  else s

/-- A task does something to its job. -/
def work (id : String) (ready : Job → Bool) (f : Job → Job) : Option State :=
  (s.jobs id).bind fun job =>
    if ready job then some { s with jobs := Function.update s.jobs id (some (f job)) } else none

/-- A task does something to its job, and writes it to disk. -/
def workSaved (id : String) (saved : Bool) (ready : Job → Bool) (f : Job → Job) : Option State :=
  (s.jobs id).bind fun job =>
    if ready job then
      some (persist { s with jobs := Function.update s.jobs id (some (f job)) } saved (f job))
    else none

/-- A job that no process runs any more has failed. -/
def JobSnapshot.swept (snap : JobSnapshot) : JobSnapshot :=
  if snap.status = .running then
    { snap with status := .failed, log := snap.log ++ ["interrupted by service restart"] }
  else snap

/-- The newest snapshots. -/
def newest (keep : ℕ) (files : List String) : List String :=
  (files.insertionSort (· ≤ ·)).drop (files.length - keep)

/-- What the sweep leaves of a snapshot. -/
def swept (failed : Option (List String)) (id : String) : Option JobSnapshot :=
  match failed with
  | none => if id ∈ newest 200 s.files then (s.snapshots id).map .swept else none
  | some reached => if id ∈ reached then (s.snapshots id).map .swept else s.snapshots id

/-- The files that the sweep leaves. -/
def sweptFiles (failed : Option (List String)) : List String :=
  if failed = none then newest 200 s.files else s.files

def restart (failed : Option (List String)) : State where
  jobs _ := none
  known := []
  counter := 0
  snapshots := swept s failed
  files := sweptFiles s failed

def step : Act → Option State
  | .build identity suspension granted packId dryRun ms =>
    match authorize identity packId .edit suspension granted with
    | .ok _ => some (create s (if dryRun then "preview" else "build") packId ms)
    | .error _ => none
  | .bootstrap identity packId ms =>
    if Role.admin.rank ≤ identity.role.rank then some (create s "bootstrap" packId ms) else none
  | .start id saved =>
    workSaved s id saved (·.phase = .spawned) fun job => { job with phase := .working }
  | .line id text =>
    work s id (·.phase = .working) fun job => { job with log := job.log ++ [text] }
  | .setBlocked id blocked =>
    work s id (fun job => job.phase = .working ∧ job.kind ≠ "bootstrap")
      fun job => { job with blocked }
  | .setResult id result =>
    work s id (fun job => job.phase = .working ∧ job.kind = "preview")
      fun job => { job with result := some result }
  | .finish id ok =>
    work s id (·.phase = .working)
      fun job => { job with status := if ok then .done else .failed, phase := .finished }
  | .close id saved =>
    workSaved s id saved (·.phase = .finished) fun job => { job with phase := .ended }
  | .restart failed => some (restart s failed)

/-! ## Answers -/

structure JobStatusResp where
  jobId : String
  kind : String
  packId : String
  status : Status
  log : List String
  blocked : List String
  result : Option DryRun

/-- The job of an id, if it is in the registry. -/
def get (id : String) : Option Job := if id ∈ s.known then s.jobs id else none

def loadJobSnapshot (id : String) : Except ApiError (Option JobSnapshot) :=
  if isSafeJobId id then .ok (s.snapshots id) else .error (.badRequest "invalid job id")

/-- Only who has a session is answered. -/
def requireSession {α : Type} (session : Option Identity) (answer : Except ApiError α) :
    Except ApiError α :=
  match session with
  | some _ => answer
  | none => .error .unauthorized

def jobStatus (id : String) : Except ApiError JobStatusResp :=
  match get s id with
  | some job =>
    .ok ⟨job.id, job.kind, job.packId, job.status, job.log, job.blocked, job.result⟩
  | none => do
    match ← loadJobSnapshot s id with
    | some snap => .ok ⟨snap.jobId, snap.kind, snap.packId, snap.status, snap.log, [], none⟩
    | none => .error .notFound

/-- Whether a stream is opened. -/
def jobEvents (id : String) : Except ApiError Unit :=
  match get s id with
  | some _ => .ok ()
  | none => .error .notFound

/-- What a stream that is open on a job passes on next, after so many lines. -/
def streamed (id : String) (sent : ℕ) : Option (List Event) :=
  (s.jobs id).map fun job => (job.log.drop sent).map .line ++ job.status.final.toList

/-- A mirror without jobs. -/
def empty : State := ⟨fun _ => none, [], 0, fun _ => none, []⟩

end Step

/-- The service, from its first start on. -/
def system : System State Act where
  init s := s = empty
  step := step

/-! ## Two runs -/

/-- The job that an action writes a line, a finding or a result into. -/
def Act.content : Act → Option String
  | .line id _ | .setBlocked id _ | .setResult id _ => some id
  | _ => none

/-- What happens in two runs: the same in both, or something of a job of the pack that only one of
    them has. -/
inductive Pair
  | both (a : Act)
  | left (a : Act)
  | right (a : Act)
  /-- A job comes to its end in both runs, with different ends. -/
  | finish (id : String) (ok ok' : Bool)

section Pairs

variable (pack : String)

/-- Whether the task of an id is of a job of the pack. -/
def isOf (s : State) (id : String) : Bool := (s.jobs id).any (·.packId = pack)

def both (st : State × State) (a a' : Act) : Option (State × State) :=
  (step st.1 a).bind fun s => (step st.2 a').map fun t => (s, t)

def pairStep (st : State × State) : Pair → Option (State × State)
  | .both a => both st a a
  | .left a => if a.content.any (isOf pack st.1) then (step st.1 a).map (·, st.2) else none
  | .right a => if a.content.any (isOf pack st.2) then (step st.2 a).map (st.1, ·) else none
  | .finish id ok ok' =>
    if isOf pack st.1 id then both st (.finish id ok) (.finish id ok') else none

/-- Two runs that differ in what the jobs of a pack log, find and result in. -/
def pairs : System (State × State) Pair where
  init st := st = (empty, empty)
  step := pairStep pack

/-- Two jobs of the pack that are the same but for what they say. -/
structure Job.Own (j k : Job) : Prop where
  pack : j.packId = pack
  id : j.id = k.id
  kind : j.kind = k.kind
  packId : j.packId = k.packId
  phase : j.phase = k.phase
  running : j.status = .running ↔ k.status = .running

/-- Two snapshots of the pack that are the same but for what they say. -/
structure JobSnapshot.Own (j k : JobSnapshot) : Prop where
  pack : j.packId = pack
  jobId : j.jobId = k.jobId
  packId : j.packId = k.packId
  running : j.status = .running ↔ k.status = .running

/-- The same, or both the pack's. -/
inductive Twin {α : Type} (own : α → α → Prop) : Option α → Option α → Prop
  | same (x : Option α) : Twin own x x
  | own {x y : α} (h : own x y) : Twin own (some x) (some y)

/-- The states of two runs are the same but for what the jobs of the pack say. -/
structure Alike (s t : State) : Prop where
  jobs : ∀ id, Twin (Job.Own pack) (s.jobs id) (t.jobs id)
  known : s.known = t.known
  counter : s.counter = t.counter
  snapshots : ∀ id, Twin (JobSnapshot.Own pack) (s.snapshots id) (t.snapshots id)
  files : s.files = t.files

/-- An id of a job of the pack: of one that the process has, or of one that is on disk. -/
def OfPack (s : State) (id : String) : Prop :=
  (∃ job, s.jobs id = some job ∧ job.packId = pack) ∨
    ∃ snap, s.snapshots id = some snap ∧ snap.packId = pack

end Pairs

section Alike

variable {pack : String} {s t s' t' : State} {id : String} {j k : Job}

theorem Twin.map {α β : Type} {own : α → α → Prop} {own' : β → β → Prop} {x y : Option α}
    (h : Twin own x y) {f : α → β} (hf : ∀ x y, own x y → own' (f x) (f y)) :
    Twin own' (x.map f) (y.map f) := by
  rcases h with _ | ⟨h⟩
  · exact .same _
  · exact .own (hf _ _ h)

theorem Twin.symm {α : Type} {own : α → α → Prop} {x y : Option α} (h : Twin own x y)
    (ho : ∀ x y, own x y → own y x) : Twin own y x := by
  rcases h with _ | ⟨h⟩
  · exact .same _
  · exact .own (ho _ _ h)

/-- A property that the pack's agree on is the same of both. -/
theorem Twin.any_eq {α : Type} {own : α → α → Prop} {x y : Option α} (h : Twin own x y)
    {p : α → Bool} (hp : ∀ x y, own x y → p x = p y) : x.any p = y.any p := by
  rcases h with _ | ⟨h⟩
  · rfl
  · exact hp _ _ h

/-- What is at an index stays alike there, and everywhere else. -/
theorem Twin.update {α : Type} {own : α → α → Prop} {f g : String → Option α}
    (h : ∀ id, Twin own (f id) (g id)) {x y : Option α} (hxy : Twin own x y) (k id : String) :
    Twin own (Function.update f k x id) (Function.update g k y id) := by
  by_cases hk : id = k
  · subst hk
    rw [Function.update_self, Function.update_self]
    exact hxy
  · rw [Function.update_of_ne hk, Function.update_of_ne hk]
    exact h id

theorem Job.Own.running_eq (h : Job.Own pack j k) :
    (decide (j.status ≠ .running)) = decide (k.status ≠ .running) :=
  decide_eq_decide.2 (not_congr h.running)

theorem Job.Own.symm (h : Job.Own pack j k) : Job.Own pack k j :=
  ⟨h.packId ▸ h.pack, h.id.symm, h.kind.symm, h.packId.symm, h.phase.symm, h.running.symm⟩

theorem Job.Own.trans {l : Job} (h : Job.Own pack j k) (h' : Job.Own pack k l) :
    Job.Own pack j l :=
  ⟨h.pack, h.id.trans h'.id, h.kind.trans h'.kind, h.packId.trans h'.packId,
    h.phase.trans h'.phase, h.running.trans h'.running⟩

theorem JobSnapshot.Own.symm {j k : JobSnapshot} (h : JobSnapshot.Own pack j k) :
    JobSnapshot.Own pack k j :=
  ⟨h.packId ▸ h.pack, h.jobId.symm, h.packId.symm, h.running.symm⟩

theorem Job.Own.snapshot (h : Job.Own pack j k) :
    JobSnapshot.Own pack (JobSnapshot.of j) (JobSnapshot.of k) :=
  ⟨h.pack, h.id, h.packId, h.running⟩

theorem JobSnapshot.swept_packId (j : JobSnapshot) : j.swept.packId = j.packId ∧
    j.swept.jobId = j.jobId ∧ j.swept.status ≠ .running := by
  rw [JobSnapshot.swept]
  split_ifs with hrunning
  · exact ⟨rfl, rfl, nofun⟩
  · exact ⟨rfl, rfl, hrunning⟩

theorem JobSnapshot.Own.swept {j k : JobSnapshot} (h : JobSnapshot.Own pack j k) :
    JobSnapshot.Own pack j.swept k.swept := by
  obtain ⟨hpack, hid, hrunning⟩ := j.swept_packId
  obtain ⟨hpack', hid', hrunning'⟩ := k.swept_packId
  exact ⟨hpack.trans h.pack, hid.trans (h.jobId.trans hid'.symm),
    hpack.trans (h.packId.trans hpack'.symm), iff_of_false hrunning hrunning'⟩

/-- Which job goes from the registry does not depend on what the jobs of the pack say. -/
theorem bounded_eq {jobs jobs' : String → Option Job}
    (h : ∀ id, Twin (Job.Own pack) (jobs id) (jobs' id)) (known : List String) :
    bounded jobs known = bounded jobs' known := by
  have hvictim : victim jobs known = victim jobs' known := by
    rw [victim, victim]
    congr 2
    funext id
    exact (h id).any_eq fun _ _ hown => hown.running_eq
  rw [bounded, bounded, hvictim]

theorem Alike.symm (h : Alike pack s t) : Alike pack t s where
  jobs id := (h.jobs id).symm fun _ _ hown => hown.symm
  known := h.known.symm
  counter := h.counter.symm
  snapshots id := (h.snapshots id).symm fun _ _ hown => hown.symm
  files := h.files.symm

/-- A job is replaced in both runs. -/
theorem Alike.update (h : Alike pack s t) {x y : Option Job} (hxy : Twin (Job.Own pack) x y) :
    Alike pack { s with jobs := Function.update s.jobs id x }
      { t with jobs := Function.update t.jobs id y } :=
  { h with jobs := Twin.update h.jobs hxy id }

/-- A job that one of the runs writes into stays alike. -/
theorem Alike.updateLeft (h : Alike pack s t) {x : Option Job}
    (hx : Twin (Job.Own pack) x (t.jobs id)) :
    Alike pack { s with jobs := Function.update s.jobs id x } t := by
  have hboth : Alike pack { s with jobs := Function.update s.jobs id x }
      { t with jobs := Function.update t.jobs id (t.jobs id) } := h.update hx
  rwa [Function.update_eq_self] at hboth

theorem Alike.create (h : Alike pack s t) (kind packId : String) (ms : ℕ) :
    Alike pack (create s kind packId ms) (create t kind packId ms) := by
  have hjobs := Twin.update h.jobs (.same (some ⟨jobId ms s.counter, kind, packId, [], .running,
    none, [], .spawned⟩)) (jobId ms s.counter)
  rw [JobAnswers.create, JobAnswers.create, ← h.counter, ← h.known]
  exact { h with jobs := hjobs, known := bounded_eq hjobs _, counter := rfl }

theorem Alike.persist (h : Alike pack s t) (saved : Bool)
    (hjk : Twin (Job.Own pack) (some j) (some k)) :
    Alike pack (persist s saved j) (persist t saved k) := by
  have hid : j.id = k.id := by
    rcases hjk with _ | ⟨hown⟩
    · rfl
    · exact hown.id
  rw [JobAnswers.persist, JobAnswers.persist, ← hid, ← h.files]
  split_ifs
  · exact { h with
      files := rfl
      snapshots := Twin.update h.snapshots (hjk.map fun _ _ hown => hown.snapshot) j.id }
  · exact h

theorem Alike.swept (h : Alike pack s t) (failed : Option (List String)) (id : String) :
    Twin (JobSnapshot.Own pack) (swept s failed id) (swept t failed id) := by
  have hswept := (h.snapshots id).map fun _ _ hown => hown.swept
  rcases failed with _ | reached
  · rw [JobAnswers.swept, JobAnswers.swept, ← h.files]
    split_ifs
    · exact hswept
    · exact .same none
  · rw [JobAnswers.swept, JobAnswers.swept]
    split_ifs
    · exact hswept
    · exact h.snapshots id

/-- What the sweep leaves of the runs is alike. -/
theorem Alike.restart (h : Alike pack s t) (failed : Option (List String)) :
    Alike pack (restart s failed) (restart t failed) := by
  have hfiles : sweptFiles s failed = sweptFiles t failed := by
    rw [sweptFiles, sweptFiles, h.files]
  exact ⟨fun _ => .same none, rfl, rfl, h.swept failed, hfiles⟩

/-! ### Tasks -/

variable {ready : Job → Bool} {f f' : Job → Job} {saved : Bool}

theorem work_eq_some (h : work s id ready f = some s') : ∃ job, s.jobs id = some job ∧
    ready job = true ∧ s' = { s with jobs := Function.update s.jobs id (some (f job)) } := by
  obtain ⟨job, hjob, h⟩ := Option.bind_eq_some_iff.1 h
  split_ifs at h with hready
  exact ⟨job, hjob, hready, (Option.some.inj h).symm⟩

theorem workSaved_eq_some (h : workSaved s id saved ready f = some s') : ∃ job,
    s.jobs id = some job ∧ ready job = true ∧
      s' = persist { s with jobs := Function.update s.jobs id (some (f job)) } saved (f job) := by
  obtain ⟨job, hjob, h⟩ := Option.bind_eq_some_iff.1 h
  split_ifs at h with hready
  exact ⟨job, hjob, hready, (Option.some.inj h).symm⟩

/-- A task goes on with its job when the job is ready for it. -/
theorem isSome_work : (work s id ready f).isSome = (s.jobs id).any ready := by
  rw [work]
  rcases s.jobs id with _ | job
  · rfl
  · rw [Option.bind_some, Option.any_some]
    split_ifs with hready
    · exact hready.symm
    · exact (eq_false_of_ne_true hready).symm

theorem isSome_workSaved : (workSaved s id saved ready f).isSome = (s.jobs id).any ready := by
  rw [workSaved]
  rcases s.jobs id with _ | job
  · rfl
  · rw [Option.bind_some, Option.any_some]
    split_ifs with hready
    · exact hready.symm
    · exact (eq_false_of_ne_true hready).symm

/-- What is done to a job of the pack, the same in both runs or not. -/
def Changes (pack : String) (f f' : Job → Job) : Prop :=
  ∀ j k, Twin (Job.Own pack) (some j) (some k) → Twin (Job.Own pack) (some (f j)) (some (f' k))

theorem Changes.of_own (h : ∀ j k, Job.Own pack j k → Job.Own pack (f j) (f k)) :
    Changes pack f f := fun _ _ htwin => htwin.map (f := f) h

theorem Alike.work (h : Alike pack s t) (hf : Changes pack f f')
    (hs : work s id ready f = some s') (ht : work t id ready f' = some t') : Alike pack s' t' := by
  obtain ⟨j, hj, _, rfl⟩ := work_eq_some hs
  obtain ⟨k, hk, _, rfl⟩ := work_eq_some ht
  exact h.update (hf j k (hj ▸ hk ▸ h.jobs id))

theorem Alike.workSaved (h : Alike pack s t) (hf : Changes pack f f')
    (hs : workSaved s id saved ready f = some s') (ht : workSaved t id saved ready f' = some t') :
    Alike pack s' t' := by
  obtain ⟨j, hj, _, rfl⟩ := workSaved_eq_some hs
  obtain ⟨k, hk, _, rfl⟩ := workSaved_eq_some ht
  have hjk := hf j k (hj ▸ hk ▸ h.jobs id)
  exact (h.update hjk).persist saved hjk

/-! ### Steps of two runs -/

variable {a : Act}

theorem isOf_eq_true (h : isOf pack s id = true) : ∃ job, s.jobs id = some job ∧
    job.packId = pack := by
  obtain ⟨job, hjob, hpack⟩ := (Option.any_eq_true _ _).1 h
  exact ⟨job, hjob, of_decide_eq_true hpack⟩

/-- A job of the pack has one that is the same but for what it says. -/
theorem Twin.exists_own {x : Option Job} (h : Twin (Job.Own pack) (some j) x)
    (hj : j.packId = pack) : ∃ k, x = some k ∧ Job.Own pack j k := by
  rcases h with _ | ⟨h⟩
  · exact ⟨j, rfl, hj, rfl, rfl, rfl, rfl, Iff.rfl⟩
  · exact ⟨_, rfl, h⟩

/-- The same in two runs that are alike leaves them alike. -/
theorem Alike.step (h : Alike pack s t) (hs : step s a = some s') (ht : step t a = some t') :
    Alike pack s' t' := by
  rcases a with ⟨identity, suspension, granted, packId, dryRun, ms⟩ | ⟨identity, packId, ms⟩ |
    ⟨id, saved⟩ | ⟨id, text⟩ | ⟨id, blocked⟩ | ⟨id, result⟩ | ⟨id, ok⟩ | ⟨id, saved⟩ | failed
  · rw [JobAnswers.step] at hs ht
    split at hs
    · rename_i hauth
      rw [hauth] at ht
      obtain rfl := Option.some.inj hs
      obtain rfl := Option.some.inj ht
      exact h.create _ packId ms
    · exact absurd hs nofun
  · rw [JobAnswers.step] at hs ht
    split_ifs at hs ht
    obtain rfl := Option.some.inj hs
    obtain rfl := Option.some.inj ht
    exact h.create _ packId ms
  · refine h.workSaved (.of_own fun _ _ ho => ?_) hs ht
    exact ⟨ho.pack, ho.id, ho.kind, ho.packId, rfl, ho.running⟩
  · refine h.work (.of_own fun _ _ ho => ?_) hs ht
    exact ⟨ho.pack, ho.id, ho.kind, ho.packId, ho.phase, ho.running⟩
  · refine h.work (.of_own fun _ _ ho => ?_) hs ht
    exact ⟨ho.pack, ho.id, ho.kind, ho.packId, ho.phase, ho.running⟩
  · refine h.work (.of_own fun _ _ ho => ?_) hs ht
    exact ⟨ho.pack, ho.id, ho.kind, ho.packId, ho.phase, ho.running⟩
  · refine h.work (.of_own fun _ _ ho => ?_) hs ht
    exact ⟨ho.pack, ho.id, ho.kind, ho.packId, rfl, Iff.rfl⟩
  · refine h.workSaved (.of_own fun _ _ ho => ?_) hs ht
    exact ⟨ho.pack, ho.id, ho.kind, ho.packId, rfl, ho.running⟩
  · obtain rfl := Option.some.inj hs
    obtain rfl := Option.some.inj ht
    exact h.restart failed

/-- What one run alone writes into a job of the pack leaves the runs alike. -/
theorem Alike.left (h : Alike pack s t) (hc : a.content.any (isOf pack s) = true)
    (hs : JobAnswers.step s a = some s') : Alike pack s' t := by
  obtain ⟨id, hid, hof⟩ := (Option.any_eq_true _ _).1 hc
  obtain ⟨job, hjob, hpack⟩ := isOf_eq_true hof
  have hframe (job' : Job) (hf : Job.Own pack job' job) :
      Alike pack { s with jobs := Function.update s.jobs id (some job') } t := by
    obtain ⟨k, hk, ho⟩ := (hjob ▸ h.jobs id).exists_own hpack
    exact h.updateLeft (hk ▸ .own (hf.trans ho))
  rcases a with _ | _ | _ | ⟨k, text⟩ | ⟨k, blocked⟩ | ⟨k, result⟩ | _ | _ | _
  case line | setBlocked | setResult =>
    obtain rfl := Option.some.inj hid
    obtain ⟨j, hj, _, rfl⟩ := work_eq_some hs
    obtain rfl := Option.some.inj (hj.symm.trans hjob)
    refine hframe _ ?_
    exact ⟨hpack, rfl, rfl, rfl, rfl, Iff.rfl⟩
  all_goals exact absurd hid nofun

/-- A job of the pack that ends in different ways leaves the runs alike. -/
theorem Alike.finish (h : Alike pack s t) {ok ok' : Bool} (hof : isOf pack s id = true)
    (hs : JobAnswers.step s (.finish id ok) = some s')
    (ht : JobAnswers.step t (.finish id ok') = some t') : Alike pack s' t' := by
  obtain ⟨job, hjob, hpack⟩ := isOf_eq_true hof
  obtain ⟨j, hj, _, rfl⟩ := work_eq_some hs
  obtain ⟨k, hk, _, rfl⟩ := work_eq_some ht
  obtain rfl := Option.some.inj (hj.symm.trans hjob)
  obtain ⟨k', hk', ho⟩ := (hj ▸ h.jobs id).exists_own hpack
  obtain rfl := Option.some.inj (hk.symm.trans hk')
  refine h.update (.own ⟨ho.pack, ho.id, ho.kind, ho.packId, rfl, ?_⟩)
  rcases ok with _ | _ <;> rcases ok' with _ | _ <;> exact iff_of_false nofun nofun

/-- The same can happen in two runs that are alike. -/
theorem Alike.isSome_step (h : Alike pack s t) (a : Act) :
    (JobAnswers.step s a).isSome = (JobAnswers.step t a).isSome := by
  rcases a with ⟨identity, suspension, granted, packId, dryRun, ms⟩ | ⟨identity, packId, ms⟩ |
    ⟨id, saved⟩ | ⟨id, text⟩ | ⟨id, blocked⟩ | ⟨id, result⟩ | ⟨id, ok⟩ | ⟨id, saved⟩ | failed
  · rw [JobAnswers.step, JobAnswers.step]
    split <;> rfl
  · rw [JobAnswers.step, JobAnswers.step]
    split_ifs <;> rfl
  · rw [JobAnswers.step, JobAnswers.step, isSome_workSaved, isSome_workSaved]
    exact (h.jobs id).any_eq fun _ _ ho => by rw [ho.phase]
  · rw [JobAnswers.step, JobAnswers.step, isSome_work, isSome_work]
    exact (h.jobs id).any_eq fun _ _ ho => by rw [ho.phase]
  · rw [JobAnswers.step, JobAnswers.step, isSome_work, isSome_work]
    exact (h.jobs id).any_eq fun _ _ ho => by rw [ho.phase, ho.kind]
  · rw [JobAnswers.step, JobAnswers.step, isSome_work, isSome_work]
    exact (h.jobs id).any_eq fun _ _ ho => by rw [ho.phase, ho.kind]
  · rw [JobAnswers.step, JobAnswers.step, isSome_work, isSome_work]
    exact (h.jobs id).any_eq fun _ _ ho => by rw [ho.phase]
  · rw [JobAnswers.step, JobAnswers.step, isSome_workSaved, isSome_workSaved]
    exact (h.jobs id).any_eq fun _ _ ho => by rw [ho.phase]
  · rw [JobAnswers.step, JobAnswers.step, Option.isSome_some, Option.isSome_some]

theorem Alike.of_reachable {st : State × State} (h : (pairs pack).Reachable st) :
    Alike pack st.1 st.2 := by
  refine h.invariant (P := fun st => Alike pack st.1 st.2) ?_ ?_
  · rintro st rfl
    exact ⟨fun _ => .same _, rfl, rfl, fun _ => .same _, rfl⟩
  · rintro ⟨s, t⟩ a ⟨s', t'⟩ hi _ hs
    change pairStep pack (s, t) a = some (s', t') at hs
    have hboth {a a' : Act} (hs : both (s, t) a a' = some (s', t')) :
        JobAnswers.step s a = some s' ∧ JobAnswers.step t a' = some t' := by
      obtain ⟨s₁, hs₁, hst⟩ := Option.bind_eq_some_iff.1 hs
      obtain ⟨t₁, ht₁, heq⟩ := Option.map_eq_some_iff.1 hst
      obtain ⟨rfl, rfl⟩ := Prod.mk.inj heq
      exact ⟨hs₁, ht₁⟩
    rcases a with a | a | a | ⟨id, ok, ok'⟩
    · obtain ⟨hs, ht⟩ := hboth hs
      exact hi.step hs ht
    · rw [pairStep] at hs
      split_ifs at hs with hc
      obtain ⟨s₁, hs₁, heq⟩ := Option.map_eq_some_iff.1 hs
      obtain ⟨rfl, rfl⟩ := Prod.mk.inj heq
      exact hi.left hc hs₁
    · rw [pairStep] at hs
      split_ifs at hs with hc
      obtain ⟨t₁, ht₁, heq⟩ := Option.map_eq_some_iff.1 hs
      obtain ⟨rfl, rfl⟩ := Prod.mk.inj heq
      exact (hi.symm.left hc ht₁).symm
    · rw [pairStep] at hs
      split_ifs at hs with hof
      obtain ⟨hs, ht⟩ := hboth hs
      exact hi.finish hof hs ht

end Alike

/-! ## What two runs answer -/

section Answers

variable {pack : String} {s t : State} {id : String}

theorem Twin.eq_of_not {α : Type} {own : α → α → Prop} {x y : Option α} (h : Twin own x y)
    (hno : ∀ j, x = some j → ∀ k, ¬ own j k) : x = y := by
  rcases h with _ | ⟨h⟩
  · rfl
  · exact absurd h (hno _ rfl _)

theorem Alike.jobs_eq (h : Alike pack s t) (hid : ¬ OfPack pack s id) :
    s.jobs id = t.jobs id :=
  (h.jobs id).eq_of_not fun job hjob _ ho => hid (.inl ⟨job, hjob, ho.pack⟩)

theorem Alike.snapshots_eq (h : Alike pack s t) (hid : ¬ OfPack pack s id) :
    s.snapshots id = t.snapshots id :=
  (h.snapshots id).eq_of_not fun snap hsnap _ ho => hid (.inr ⟨snap, hsnap, ho.pack⟩)

/-- Which ids are of a job of the pack is the same in runs that are alike. -/
theorem Alike.ofPack (h : Alike pack s t) (hid : OfPack pack s id) : OfPack pack t id := by
  rcases hid with ⟨job, hjob, hpack⟩ | ⟨snap, hsnap, hpack⟩
  · obtain ⟨k, hk, ho⟩ := (hjob ▸ h.jobs id).exists_own hpack
    exact .inl ⟨k, hk, ho.packId.symm.trans hpack⟩
  · have htwin := hsnap ▸ h.snapshots id
    rcases htwin' : t.snapshots id with _ | k
    · exact absurd (htwin' ▸ htwin) nofun
    · rcases htwin' ▸ htwin with _ | ⟨ho⟩
      · exact .inr ⟨snap, htwin', hpack⟩
      · exact .inr ⟨k, htwin', ho.packId.symm.trans hpack⟩

end Answers

/-! ## Two packs -/

/-- Who owns a pack, and who may not see it. -/
def ada : Identity := ⟨42, "ada", .member⟩

def bob : Identity := ⟨7, "bob", .member⟩

/-- What a dry run of ada's pack resolves. -/
def quarry : DryRun where
  manifest := ⟨"u/42/Quarry", "0.1.1", "1.20.1", ⟨"forge", "47.2.0"⟩, 17, none, [], []⟩
  summary := ⟨"u/42/Quarry", "Quarry", "", "1.20.1", "0.1.1", [], false, none, none, [], none, 42,
    .community, .draft, none⟩

/-- Both build their packs, and only in one of the runs there is something to tell of ada's. -/
def twoBuilds : List Pair :=
  [.both (.build ada none none "u/42/Quarry" true 5),
    .both (.build bob none none "u/7/Farm" true 5),
    .both (.start "0000000000005-00000000" true), .left (.line "0000000000005-00000000" "config"),
    .left (.setResult "0000000000005-00000000" quarry)]

end JobAnswers

end Smrt
