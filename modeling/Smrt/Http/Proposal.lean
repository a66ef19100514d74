import Smrt.Accounts.Threads
import Smrt.Authoring.Commits
import Smrt.Http.Words

/-!
# Merging a proposal

A proposal is merged into its pack (`merge_proposal`): it is read and found open; then, under
the lock of the config, the config of the offered commit is stored in the place of the one of
the pack, a commit records it, and the thread is settled. Meanwhile others may merge the same
proposal, or close it (`close_thread`, which decides without the lock).

A proposal is a system of the parties that merge and close it; a step of a party is what it
does between two of its awaits. A party may fail where the source can. What the merges did to
the pack is in the history (`log`), with the party that did it.

A proposal is merged once at most, by the party that the thread names, and a refused merge
changes nothing (`MergedOnce`), as long as a merge forgets the document only while the thread
is still open, nobody closes it from there on until the merge has settled it, and nothing
fails from there on (`StillOpen`): `system_mergedOnce`. That the thread is open is asked before
the lock is taken, and settled after everything was written. So a thread that is closed in
between stays closed, and the merge answers an error with the pack changed
(`system_refused_changed`).
-/

namespace Smrt.Proposal

/-! ## Requests -/

/-- A request to merge: who makes it, and what the commit is to say. -/
structure MergeReq where
  identity : Identity
  message : Option String

/-- What a merge commit says: what was asked for, or where it comes from. -/
def MergeReq.text (req : MergeReq) (id : Int64) (sourcePack : String) : String :=
  match (req.message.map trim).filter fun m => m ≠ "" with
  | some m => m
  | none => "merge #" ++ toString id.toInt ++ " from " ++ sourcePack

/-- How a thread is settled by who closes it. -/
def closingStatus (kind : ThreadKind) (mine : Bool) : ThreadStatus :=
  match kind, mine with
  | .proposal, true => .withdrawn
  | .proposal, false => .declined
  | .issue, _ => .closed

/-- What a merge answers for a thread that is not open. -/
def alreadySettled (t : Thread) : ApiError :=
  .conflict ("this proposal is already " ++ t.status.name)

/-! ## States -/

/-- Where a party is. -/
inductive Proc
  | idle
  /-- Merges: reads the thread. -/
  | merging (req : MergeReq)
  /-- Has read the thread: is authorised, and looks whether it is open. -/
  | checking (req : MergeReq) (t : Thread)
  /-- Reads the offered commit. -/
  | fetching (req : MergeReq) (text : String)
  /-- Waits for the lock. -/
  | waiting (req : MergeReq) (text : String) (offered : PackConfig)
  /-- Reads the config. -/
  | locked (req : MergeReq) (text : String) (offered : PackConfig)
  /-- Knows what to store: forgets the document. -/
  | forgetting (req : MergeReq) (text : String) (merged : PackConfig)
  | storing (req : MergeReq) (text : String) (merged : PackConfig)
  /-- Records what it stored. -/
  | committing (req : MergeReq) (text : String) (cfg : PackConfig)
  | settling (req : MergeReq) (commit : Commit)
  /-- Has settled the thread: reads it again. -/
  | settled (commit : Commit)
  /-- Gives the lock back, and answers. -/
  | leaving (answer : Except ApiError Thread)
  /-- Closes: reads the thread. -/
  | closing (by' : Int64)
  /-- Has read the thread, and is authorised: settles it. -/
  | deciding (by' : Int64) (status : ThreadStatus)
  | decided
  | done (answer : Except ApiError Thread)

/-- Whether the lock is held there. -/
def Proc.HoldsLock : Proc → Prop
  | locked _ _ _ | forgetting _ _ _ | storing _ _ _ | committing _ _ _ | settling _ _
  | settled _ | leaving _ => True
  | _ => False

/-- What a merge does to the pack. -/
inductive Change
  | forgot
  | stored (cfg : PackConfig)
  | committed (commit : Commit)

/-- A proposal and its pack: the thread, the config the proposal offers if its commit is
    there, the config of the pack, its live document, its commits from the last one on, who
    holds the lock of the config, and the parties; then the history. -/
structure State where
  thread : Thread
  offered : Option PackConfig
  config : Option PackConfig
  live : Option ℕ
  commits : List Commit
  lock : Option ℕ
  procs : ℕ → Proc
  log : List (ℕ × Change)

/-- What a party begins. -/
inductive Request
  | merge (req : MergeReq)
  | close (by' : Int64)

/-- What the clock says. -/
structure Clock where
  unix : Int64
  text : String

/-- What happens: a party begins, goes on, or fails with an error. -/
inductive Act
  | begin (i : ℕ) (r : Request)
  | next (i : ℕ) (now : Clock)
  | fail (i : ℕ) (e : ApiError)

/-! ## Steps -/

section Step

variable (X : Outside) (N : Naming) (s : State) (i : ℕ)

/-- A party moves. -/
def State.to (p : Proc) : State := { s with procs := setAt s.procs i p }

@[simp] theorem State.procs_to_self (s : State) (i : ℕ) (p : Proc) : (s.to i p).procs i = p :=
  setAt_self ..

/-- A party changes the pack: the history says so. -/
def State.record (c : Change) : State := { s with log := s.log ++ [(i, c)] }

/-- A party begins a request. -/
def begin (r : Request) : Option State :=
  match s.procs i, r with
  | .idle, .merge req => some (s.to i (.merging req))
  | .idle, .close by' => some (s.to i (.closing by'))
  | _, _ => none

/-- A party goes on. -/
def next (now : Clock) : Option State :=
  match s.procs i with
  | .idle | .done _ => none
  | .merging req => some (s.to i (.checking req s.thread))
  | .checking req t =>
    if t.status ≠ .open then some (s.to i (.done (.error (alreadySettled t))))
    else match t.sourcePack, t.sourceCommit with
      | some sourcePack, some _ => some (s.to i (.fetching req (req.text t.id sourcePack)))
      | _, _ => some (s.to i (.done (.error (.badRequest "this thread offers no state"))))
  | .fetching req text => match s.offered with
    | some offered => some (s.to i (.waiting req text offered))
    | none => some (s.to i (.done (.error .notFound)))
  | .waiting req text offered =>
    if s.lock = none then some ({ s with lock := some i }.to i (.locked req text offered)) else none
  | .locked req text offered => match s.config with
    | some current =>
      let merged := current.withAuthoredFrom offered
      match merged.duplicateDeclaration with
      | some dup => some (s.to i (.leaving (.error (.badRequest (dup.text X.debug)))))
      | none => some (s.to i (.forgetting req text merged))
    | none => some (s.to i (.leaving (.error .notFound)))
  | .forgetting req text merged =>
    some (({ s with live := none }.record i .forgot).to i (.storing req text merged))
  | .storing req text merged =>
    let cfg := storeEditedConfig (fun _ => .down) merged false
    some (({ s with config := some cfg }.record i (.stored cfg)).to i (.committing req text cfg))
  | .committing req text cfg =>
    let commit := makeCommit X N cfg (s.commits.head?.map fun c => c.id) req.identity.login text
      [req.identity.login] now.text
    some (({ s with commits := commit :: s.commits }.record i (.committed commit)).to i
      (.settling req commit))
  | .settling req commit =>
    let r := settleThread s.thread .merged now.unix req.identity.uid (some commit.id)
    some ({ s with thread := r.1 }.to i (if r.2 then .settled commit
      else .leaving (.error (.conflict "this proposal was already settled"))))
  | .settled _ => some (s.to i (.leaving (.ok s.thread)))
  | .leaving answer => some ({ s with lock := none }.to i (.done answer))
  | .closing by' =>
    some (s.to i (.deciding by' (closingStatus s.thread.kind (s.thread.byUid = by'))))
  | .deciding by' status =>
    let r := settleThread s.thread status now.unix by' none
    some ({ s with thread := r.1 }.to i (if r.2 then .decided
      else .done (.error (.conflict "this thread was already settled"))))
  | .decided => some (s.to i (.done (.ok s.thread)))

/-- A party fails, where it can: with an error, and giving the lock back if it has it. -/
def fail (e : ApiError) : Option State :=
  match s.procs i with
  | .merging _ | .checking _ _ | .fetching _ _ | .waiting _ _ _ | .closing _ | .deciding _ _
  | .decided => some (s.to i (.done (.error e)))
  | .locked _ _ _ | .storing _ _ _ | .committing _ _ _ | .settling _ _ | .settled _ =>
    some (s.to i (.leaving (.error e)))
  | _ => none

/-- What an action does. -/
def step : Act → Option State
  | .begin i r => begin s i r
  | .next i now => next X N s i now
  | .fail i e => fail s i e

end Step

/-- Nobody is there. -/
structure Init (s : State) : Prop where
  lock : s.lock = none
  procs (i : ℕ) : s.procs i = .idle
  log : s.log = []

/-- A proposal that is merged and closed. -/
def system (X : Outside) (N : Naming) : System State Act where
  init := Init
  step := step X N

/-! ## Merged once -/

/-- One party at most changed the pack, and if it is done the thread is merged and names the
    commit it wrote; one that answers an error changed nothing. -/
structure MergedOnce (s : State) : Prop where
  once (i j : ℕ) (c d : Change) : (i, c) ∈ s.log → (j, d) ∈ s.log → i = j
  merged (i : ℕ) (answer : Except ApiError Thread) (c : Change) : s.procs i = .done answer →
    (i, c) ∈ s.log → s.thread.status = .merged ∧
      ∃ commit, (i, .committed commit) ∈ s.log ∧ s.thread.mergedCommit = some commit.id
  refused (i : ℕ) (e : ApiError) (c : Change) : s.procs i = .done (.error e) → (i, c) ∉ s.log

/-- A merge has begun to change the pack, and not settled the thread yet. -/
def Proc.Changing : Proc → Prop
  | storing _ _ _ | committing _ _ _ | settling _ _ => True
  | _ => False

/-- A merge that has settled the thread. -/
def Proc.Accepted : Proc → Prop
  | settled _ | leaving (.ok _) | done (.ok _) => True
  | _ => False

/-- A merge forgets the document only while the thread is open; nobody closes the thread while
    a merge changes the pack; and a merge that has begun to does not fail. -/
def StillOpen (s : State) : Act → Prop
  | .begin _ _ => True
  | .next i _ => match s.procs i with
    | .forgetting _ _ _ => s.thread.status = .open
    | .deciding _ _ => ∀ j, ¬ (s.procs j).Changing
    | _ => True
  | .fail i _ => match s.procs i with
    | .storing _ _ _ | .committing _ _ _ | .settling _ _ | .settled _ => False
    | _ => True

section Invariant

variable {X : Outside} {N : Naming} {s s' : State} {i : ℕ}

/-- The history says everything: what is not in it did not change. -/
theorem unchanged_of_log_eq {a : Act} (h : step X N s a = some s') (hl : s'.log = s.log) :
    s'.config = s.config ∧ s'.live = s.live ∧ s'.commits = s.commits := by
  have hne (c : ℕ × Change) : s.log ++ [c] ≠ s.log := by simp
  cases a with
  | begin i r =>
    rw [step, begin.eq_def] at h
    split at h <;> cases h <;> exact ⟨rfl, rfl, rfl⟩
  | fail i e =>
    rw [step, fail.eq_def] at h
    split at h <;> cases h <;> exact ⟨rfl, rfl, rfl⟩
  | next i now =>
    rw [step] at h
    cases hp : s.procs i <;> simp only [next, hp] at h
    case forgetting => cases h; exact absurd hl (hne _)
    case storing => cases h; exact absurd hl (hne _)
    case committing => cases h; exact absurd hl (hne _)
    case locked =>
      split at h
      · split at h <;> cases h <;> exact ⟨rfl, rfl, rfl⟩
      · cases h
        exact ⟨rfl, rfl, rfl⟩
    case checking =>
      split at h
      · cases h
        exact ⟨rfl, rfl, rfl⟩
      · split at h <;> cases h <;> exact ⟨rfl, rfl, rfl⟩
    case fetching => split at h <;> cases h <;> exact ⟨rfl, rfl, rfl⟩
    case waiting => split at h <;> cases h; exact ⟨rfl, rfl, rfl⟩
    all_goals cases h
    all_goals exact ⟨rfl, rfl, rfl⟩

/-- A party that changed the pack still changes it, or has settled the thread as merged, with
    the commit it wrote. -/
def Fate (s : State) (i : ℕ) : Prop :=
  (s.procs i).Changing ∨ ((s.procs i).Accepted ∧ s.thread.status = .merged ∧
    ∃ commit, (i, .committed commit) ∈ s.log ∧ s.thread.mergedCommit = some commit.id)

/-- While a merge changes the pack the thread is open, and what it wrote is in the history. -/
def InHand (s : State) (i : ℕ) : Proc → Prop
  | .storing _ _ _ | .committing _ _ _ => s.thread.status = .open
  | .settling _ commit => s.thread.status = .open ∧ (i, .committed commit) ∈ s.log
  | _ => True

/-- One party at most changed the pack, and what became of it. -/
structure Inv (s : State) : Prop where
  lock : Exclusive Proc.HoldsLock s.lock s.procs
  inHand (i : ℕ) : InHand s i (s.procs i)
  once (i j : ℕ) (c d : Change) : (i, c) ∈ s.log → (j, d) ∈ s.log → i = j
  fate (i : ℕ) (c : Change) : (i, c) ∈ s.log → Fate s i

theorem Proc.Changing.holdsLock {p : Proc} (h : p.Changing) : p.HoldsLock := by
  cases p <;> trivial

theorem inHand_of_not_changing {p : Proc} (h : ¬ p.Changing) : InHand s i p := by
  cases p <;> first | trivial | exact absurd trivial h

theorem InHand.status {p : Proc} (h : InHand s i p) (hc : p.Changing) :
    s.thread.status = .open := by
  cases p with
  | storing | committing => exact h
  | settling => exact h.1
  | _ => exact hc.elim

theorem Inv.mergedOnce (h : Inv s) : MergedOnce s := by
  refine ⟨h.once, fun i answer c hi hc => ?_, fun i e c hi hc => ?_⟩
  · have hf := h.fate i c hc
    rw [Fate, hi] at hf
    exact (hf.resolve_left id).2
  · have hf := h.fate i c hc
    rw [Fate, hi] at hf
    exact hf.elim id fun hf => hf.1

/-- While the thread is open, who changed the pack still changes it. -/
theorem Inv.changing (h : Inv s) (hopen : s.thread.status = .open) {j : ℕ} {c : Change}
    (hc : (j, c) ∈ s.log) : (s.procs j).Changing := by
  rcases h.fate j c hc with hj | ⟨_, hm, _⟩
  · exact hj
  · rw [hopen] at hm
    cases hm

/-- A party that does not change the pack moves. -/
theorem Inv.frame (h : Inv s) {p : Proc} (hprocs : s'.procs = setAt s.procs i p)
    (hthread : s'.thread = s.thread) (hlog : s'.log = s.log)
    (hlock : Exclusive Proc.HoldsLock s'.lock s'.procs) (hi : ¬ (s.procs i).Changing)
    (hp : ¬ p.Changing) (hacc : (s.procs i).Accepted → p.Accepted) : Inv s' := by
  refine ⟨hlock, fun j => ?_, by rw [hlog]; exact h.once, fun j c hc => ?_⟩
  · by_cases hj : j = i
    · rw [hprocs, hj, setAt_self]
      exact inHand_of_not_changing hp
    · have hin := h.inHand j
      rw [hprocs, setAt_of_ne _ _ hj]
      revert hin
      cases s.procs j <;> simp only [InHand, hthread, hlog] <;> exact id
  · rw [hlog] at hc
    have hf := h.fate j c hc
    rw [Fate, hthread, hlog, hprocs]
    by_cases hj : j = i
    · subst hj
      rw [setAt_self]
      exact .inr ((hf.resolve_left hi).imp_left hacc)
    · rwa [setAt_of_ne _ _ hj]

theorem Inv.to (h : Inv s) {p : Proc} (hl : p.HoldsLock → (s.procs i).HoldsLock)
    (hi : ¬ (s.procs i).Changing) (hp : ¬ p.Changing)
    (hacc : (s.procs i).Accepted → p.Accepted) : Inv (s.to i p) :=
  h.frame rfl rfl rfl (h.lock.keep hl) hi hp hacc

/-- A merge changes the pack, while the thread is open and nobody else does. -/
theorem Inv.change (h : Inv s) (hopen : s.thread.status = .open) (hi : (s.procs i).HoldsLock)
    {c : Change} {p : Proc} (hprocs : s'.procs = setAt s.procs i p)
    (hlock : s'.lock = s.lock) (hlog : s'.log = s.log ++ [(i, c)])
    (hp : p.Changing) (hin : InHand s' i p) : Inv s' := by
  have hmine {j : ℕ} {d : Change} (hd : (j, d) ∈ s'.log) : j = i := by
    rw [hlog] at hd
    rcases List.mem_append.1 hd with hd | hd
    · exact h.lock.eq (h.changing hopen hd).holdsLock hi
    · exact (Prod.mk.inj (List.mem_singleton.1 hd)).1
  refine ⟨?_, fun j => ?_, fun j k d e hd he => (hmine hd).trans (hmine he).symm,
    fun j d hd => ?_⟩
  · rw [hprocs, hlock]
    exact h.lock.keep fun _ => hi
  · rw [hprocs]
    exact forall_setAt (P := fun j q => InHand s' j q)
      (fun j hj => inHand_of_not_changing fun hc => h.lock.not_of_ne hi hj hc.holdsLock) hin j
  · obtain rfl := hmine hd
    exact .inl (by rwa [hprocs, setAt_self])

/-- A merge settles the thread, which was open all the while. -/
theorem Inv.settle (h : Inv s) {req : MergeReq} {commit : Commit} {now : Clock}
    (hi : s.procs i = .settling req commit) :
    Inv ({ s with thread := (settleThread s.thread .merged now.unix req.identity.uid
      (some commit.id)).1 }.to i (.settled commit)) := by
  have hin : InHand s i (.settling req commit) := hi ▸ h.inHand i
  have hhold : (s.procs i).HoldsLock := by rw [hi]; trivial
  rw [settleThread_of_open hin.1]
  refine ⟨h.lock.keep fun _ => hhold, fun j => ?_, h.once, fun j c hc => ?_⟩
  · exact forall_setAt (P := fun j q => InHand _ j q)
      (fun j hj => inHand_of_not_changing fun hc => h.lock.not_of_ne hhold hj hc.holdsLock)
      (inHand_of_not_changing id) j
  · obtain rfl := h.lock.eq (h.changing hin.1 hc).holdsLock hhold
    refine .inr ⟨?_, rfl, commit, hin.2, rfl⟩
    rw [State.procs_to_self]
    trivial

/-- A party closes the thread, while nobody changes the pack. -/
theorem Inv.close (h : Inv s) (hnone : ∀ j, ¬ (s.procs j).Changing) {p : Proc}
    (hp : ¬ p.HoldsLock) (hi : ¬ (s.procs i).Accepted) {status : ThreadStatus}
    {now by' : Int64} :
    Inv ({ s with thread := (settleThread s.thread status now by' none).1 }.to i p) := by
  by_cases hopen : s.thread.status = .open
  · -- Nobody has changed the pack: who had would do so yet.
    have hempty {j : ℕ} {c : Change} (hc : (j, c) ∈ s.log) : False :=
      hnone j (h.changing hopen hc)
    refine ⟨h.lock.keep fun hl => absurd hl hp, fun j => ?_, h.once, fun j c hc =>
      (hempty hc).elim⟩
    exact forall_setAt (P := fun j q => InHand _ j q)
      (fun j _ => inHand_of_not_changing (hnone j))
      (inHand_of_not_changing fun hc => hp hc.holdsLock) j
  · rw [settleThread_of_not_open hopen]
    exact h.to (fun hl => absurd hl hp) (hnone i) (fun hc => hp hc.holdsLock)
      fun ha => absurd ha hi

/-! ## Runs -/

theorem Inv.begin (h : Inv s) {r : Request} (hs : begin s i r = some s') : Inv s' := by
  rw [Proposal.begin.eq_def] at hs
  split at hs <;> cases hs
  all_goals
    next hp => exact h.to False.elim (by rw [hp]; exact id) id fun ha => by rw [hp] at ha; exact ha

theorem Inv.fail (h : Inv s) {e : ApiError} (hok : StillOpen s (.fail i e))
    (hs : fail s i e = some s') : Inv s' := by
  cases hp : s.procs i <;> simp only [Proposal.fail, StillOpen, hp, reduceCtorEq] at hs hok
  all_goals cases hs
  all_goals
    exact h.to (by rw [hp]; exact id) (by rw [hp]; exact id) id fun ha => by rw [hp] at ha; exact ha

theorem Inv.next (h : Inv s) {now : Clock} (hok : StillOpen s (.next i now))
    (hs : next X N s i now = some s') : Inv s' := by
  -- A move of a party that has nothing to do with the pack.
  have aside {p : Proc} (hi : ¬ (s.procs i).Changing) (hi' : ¬ (s.procs i).Accepted)
      (hp : ¬ p.Changing) (hl : p.HoldsLock → (s.procs i).HoldsLock) : Inv (s.to i p) :=
    h.to hl hi hp fun ha => absurd ha hi'
  cases hp : s.procs i <;> simp only [Proposal.next, StillOpen, hp] at hs hok aside
  case idle => cases hs
  case done => cases hs
  case merging req =>
    cases hs
    exact aside id id id id
  case checking req t =>
    split at hs
    · cases hs
      exact aside id id id id
    · split at hs <;> cases hs <;> exact aside id id id id
  case fetching req text => split at hs <;> cases hs <;> exact aside id id id id
  case waiting req text offered =>
    split at hs
    · next hl =>
      cases hs
      exact h.frame rfl rfl rfl (hl ▸ h.lock).acquire (by rw [hp]; exact id) id
        fun ha => by rw [hp] at ha; exact ha
    · cases hs
  case locked req text offered =>
    split at hs
    · split at hs <;> cases hs <;> exact aside id id id id
    · cases hs
      exact aside id id id id
  case forgetting req text merged =>
    cases hs
    exact h.change hok (by rw [hp]; trivial) rfl rfl rfl trivial hok
  case storing req text merged =>
    have hin : InHand s i (.storing req text merged) := hp ▸ h.inHand i
    cases hs
    exact h.change hin (by rw [hp]; trivial) rfl rfl rfl trivial hin
  case committing req text cfg =>
    have hin : InHand s i (.committing req text cfg) := hp ▸ h.inHand i
    cases hs
    exact h.change hin (by rw [hp]; trivial) rfl rfl rfl trivial
      ⟨hin, List.mem_append_right _ List.mem_cons_self⟩
  case settling req commit =>
    have hin : InHand s i (.settling req commit) := hp ▸ h.inHand i
    cases hs
    rw [if_pos (by rw [settleThread_of_open hin.1])]
    exact h.settle hp
  case settled commit =>
    cases hs
    exact h.to (fun _ => by rw [hp]; trivial) (by rw [hp]; exact id) id fun _ => trivial
  case leaving answer =>
    cases hs
    refine h.frame rfl rfl rfl (h.lock.release (by rw [hp]; trivial) id) (by rw [hp]; exact id) id
      fun ha => ?_
    rw [hp] at ha
    cases answer <;> exact ha
  case closing by' =>
    cases hs
    exact aside id id id id
  case deciding by' status =>
    cases hs
    exact h.close hok (by split <;> exact id) (by rw [hp]; exact id)
  case decided =>
    cases hs
    exact h.to False.elim (by rw [hp]; exact id) id fun _ => trivial

/-- In every run in which a merge forgets the document only while the thread is open, and from
    there on neither fails nor sees the thread closed, the proposal is merged once at most, and
    a refused merge changes nothing. -/
theorem system_mergedOnce (h : (system X N).Reach StillOpen s) : MergedOnce s := by
  suffices hinv : Inv s from hinv.mergedOnce
  refine h.invariant (fun t ht => ?_) fun t a t' hi hok hst => ?_
  · refine ⟨fun i hi => ?_, fun i => ?_, fun i j c d hc => ?_, fun i c hc => ?_⟩
    · rw [ht.procs i] at hi
      exact hi.elim
    · rw [ht.procs i]
      trivial
    · rw [ht.log] at hc
      cases hc
    · rw [ht.log] at hc
      cases hc
  · cases a with
    | begin i r => exact hi.begin hst
    | next i now => exact hi.next hok hst
    | fail i e => exact hi.fail hok hst

end Invariant

/-- A proposal to retitle a pack, which is being edited. -/
def start : State where
  thread := {
    id := 1
    packId := "Industrial"
    kind := .proposal
    byUid := 42
    status := .open
    sourcePack := some "u/42/Industrial"
    sourceCommit := some "1"
    mergedCommit := none
    decidedAt := none
    decidedBy := none }
  offered := some { PackConfig.empty "Industrial" with
    packId := "u/42/Industrial", tagline := "Machines" }
  config := some (.empty "Industrial")
  live := some 0
  commits := []
  lock := none
  procs := fun _ => .idle
  log := []

theorem init_start : Init start := ⟨rfl, fun _ => rfl, rfl⟩

/-- Commits named by what they say. -/
def byText : Naming where
  sha1 := fun s => s
  text := fun cfg => cfg.tagline

/-- An administrator merges it. -/
def mergeReq : MergeReq := ⟨{ uid := 7, login := "admin", role := .admin }, none⟩

/-- The proposal is merged, with nobody else there. -/
theorem system_mergedOnce_merge :
    ∃ s : State, s.config = some { PackConfig.empty "Industrial" with tagline := "Machines" } ∧
      (∃ t, s.procs 0 = .done (.ok t) ∧ t.status = .merged) ∧ MergedOnce s := by
  have h₀ : (system .none byText).Reach StillOpen start := .init init_start
  let go : Act := .next 0 ⟨0, ""⟩
  have merging := h₀.step (a := .begin 0 (.merge mergeReq)) (by exact trivial) rfl
  have checking := merging.step (a := go) (by exact trivial) rfl
  have fetching := checking.step (a := go) (by exact trivial) rfl
  have waiting := fetching.step (a := go) (by exact trivial) rfl
  have locked := waiting.step (a := go) (by exact trivial) rfl
  have forgetting := locked.step (a := go) (by exact trivial) rfl
  have storing := forgetting.step (a := go) (by exact rfl) rfl
  have committing := storing.step (a := go) (by exact trivial) rfl
  have settling := committing.step (a := go) (by exact trivial) rfl
  have settled := settling.step (a := go) (by exact trivial) rfl
  have leaving := settled.step (a := go) (by exact trivial) rfl
  have done := leaving.step (a := go) (by exact trivial) rfl
  exact ⟨_, rfl, ⟨_, rfl, rfl⟩, system_mergedOnce done⟩

/-- Party 0 merges, and has found the thread open and forgotten the document when party 1
    withdraws the proposal. -/
def withdrawn : List Act :=
  let go := fun i => Act.next i ⟨0, ""⟩
  [.begin 0 (.merge mergeReq), go 0, go 0, go 0, go 0, go 0, go 0, .begin 1 (.close 42), go 1, go 1,
    go 0, go 0, go 0, go 0]

/-- The merge is refused, and has changed the pack. -/
theorem system_refused_changed :
    ∃ s, (system .none byText).Reachable s ∧
      s.procs 0 = .done (.error (.conflict "this proposal was already settled")) ∧
      s.thread.status = .withdrawn ∧
      s.config = some { PackConfig.empty "Industrial" with tagline := "Machines" } ∧
      s.live = none ∧ s.commits.length = 1 ∧ ¬ MergedOnce s := by
  have hrun : ∃ s, (system .none byText).run start withdrawn = some s ∧
      s.procs 0 = .done (.error (.conflict "this proposal was already settled")) ∧
      s.thread.status = .withdrawn ∧
      s.config = some { PackConfig.empty "Industrial" with tagline := "Machines" } ∧
      s.live = none ∧ s.commits.length = 1 ∧ s.log.head? = some (0, .forgot) :=
    ⟨_, rfl, rfl, rfl, rfl, rfl, rfl, rfl⟩
  obtain ⟨s, hs, hdone, hstatus, hconfig, hlive, hcommits, hlog⟩ := hrun
  have h₀ : (system .none byText).Reachable start := .init init_start
  exact ⟨s, h₀.run hs, hdone, hstatus, hconfig, hlive, hcommits, fun h =>
    h.refused 0 _ .forgot hdone (List.mem_of_mem_head? hlog)⟩

end Smrt.Proposal
