import Smrt.Http.Parts

/-!
# A pack while it is edited

A stored config has a live document beside it while it is edited, and two kinds of requests
meet there:

* editors join (`get_pack_doc`) and post updates (`post_pack_doc`). An update is merged into
  the document, takes a ticket, and after a wait the holder of the last ticket writes the
  document (`materialise`), under the lock of the config;
* whole-config writes (`WholeWrite`: a put, a revert, a restore or a spoof) take the lock,
  settle what to store, forget the document, fill, and store. A pack that is not there may
  also be made as a copy of another one (`duplicate_pack`), which forgets nothing.

A pack is a system of such parties, each where its request is (`Proc`), and a step of a
party is what it does between two points where another one may go on: an `await`, or a lock
inside the documents or the file. So the runs are all the interleavings. A party may also
fail where the source can: the connection is dropped, a file is not there or not written.

Three things of a state are its history only: `written`, the config that the last
whole-config write stored; `edits`, what the updates posted since changed in their
documents; and `owed`, the updates merged since a whole-config write last began.

Proved here of every reachable state (`tidy`): the lock is held by one party at most, and
whoever has it has the live document and the stored config in hand. What becomes of
whole-config writes and of edits is in `Smrt.Http.LiveWrites` and `Smrt.Http.LiveEdits`.
-/

namespace Smrt

open Json (Members)

/-! ## Whole-config writes -/

/-- A request that replaces the whole config, with its inputs. -/
inductive WholeWrite
  | put (req : PutReq)
  | revert (manifest : PackManifest) (summary : PackSummary)
  | restore (snapshot : PackConfig)
  | spoof

/-- The config a request makes of the stored one and whether it is to be filled, unless the
    request is refused. -/
def WholeWrite.settle (X : Outside) (packId : String) (stored : Option PackConfig) :
    WholeWrite → Option (PackConfig × Bool)
  | put req => (do checkBody X packId req.body; settleBody X packId stored req).toOption
  | revert manifest summary => some (revertPackConfig X manifest summary, false)
  | restore snapshot => some (restoreCommit snapshot, false)
  | spoof => stored.map fun existing => (generatePackSpoof existing, false)

/-- The write a request is, as a whole. -/
def WholeWrite.toWrite (answers : ℕ → Answers) : WholeWrite → Write
  | put req => .put req answers
  | revert manifest summary => .revert manifest summary
  | restore snapshot => .restore snapshot
  | spoof => .spoof

/-- Settled and stored with nothing in between, a request is the write it is. -/
theorem WholeWrite.settle_store (X : Outside) (packId : String) (stored : PackConfig)
    (answers : ℕ → Answers) (w : WholeWrite) :
    (w.settle X packId (some stored)).map (fun c => storeEditedConfig answers c.1 c.2) =
      (w.toWrite answers).apply X packId stored := by
  cases w with
  | put req =>
    rw [settle, toWrite, Write.apply, putPackConfig]
    cases checkBody X packId req.body with
    | error e => rfl
    | ok _ => cases hs : settleBody X packId (some stored) req <;> simp [bind, Except.bind] <;> rfl
  | revert | restore | spoof => rfl

namespace Live

/-! ## States -/

/-- What a config is stored from. -/
inductive Door
  | request
  | document

/-- Where a party is. -/
inductive Proc (U : Type)
  | idle
  /-- Posting an update: looks for the document. -/
  | posting (u : U)
  /-- Joining, or posting with no document found: reads the config, without the lock. -/
  | missing (u : Option U)
  /-- Has read the config: asks for the document. -/
  | seeding (u : Option U) (cfg : PackConfig)
  /-- Has a document: merges the update. -/
  | holding (u : U) (d : ℕ)
  /-- The update is merged: takes a ticket, and answers. -/
  | applied
  /-- Waits for the typing to stop. -/
  | sleeping (ticket : ℕ)
  /-- Writes the document: waits for the lock. -/
  | waiting
  | locked
  | got (d : ℕ)
  | loaded (d : ℕ) (existing : PackConfig)
  /-- A whole-config write: waits for the lock. -/
  | writing (w : WholeWrite)
  | writeLocked (w : WholeWrite)
  /-- Knows what to store: forgets the document. -/
  | settled (cfg : PackConfig) (fill : Bool)
  /-- Copies another pack: waits for the lock. -/
  | copying (cfg : PackConfig)
  | copyLocked (cfg : PackConfig)
  /-- Fills what is stored. -/
  | storing (door : Door) (cfg : PackConfig) (fill : Bool)
  /-- Stores. -/
  | saving (door : Door) (cfg : PackConfig)
  /-- Gives the lock back. -/
  | leaving

/-- Whether the lock is held there. -/
def Proc.HoldsLock {U : Type} : Proc U → Prop
  | locked | got _ | loaded _ _ | writeLocked _ | settled _ _ | copyLocked _ | storing _ _ _
  | saving _ _ | leaving => True
  | _ => False

/-- A pack: its config, its documents, who holds the lock of the config, and its parties;
    then the history. -/
structure State (U : Type) where
  stored : Option PackConfig
  docs : PackDocs U
  lock : Option ℕ
  procs : ℕ → Proc U
  written : Option PackConfig
  edits : List Edit
  owed : List U

/-- What a party begins. -/
inductive Request (U : Type)
  | join
  | post (u : U)
  | write (w : WholeWrite)
  | copy (cfg : PackConfig)

/-- What happens: a party begins, goes on (its fill being answered so), or fails. -/
inductive Act (U : Type)
  | begin (i : ℕ) (r : Request U)
  | next (i : ℕ) (answers : ℕ → Answers)
  | fail (i : ℕ)

/-! ## Steps -/

section Step

variable {U : Type} (X : Outside) (merged : Members → List U → Members) (packId : String)
  (s : State U) (i : ℕ)

/-- A party moves. -/
def State.to (p : Proc U) : State U := { s with procs := setAt s.procs i p }

/-- A party takes the lock, once nobody has it. -/
def State.acquire (p : Proc U) : Option (State U) :=
  if s.lock = none then some { s with lock := some i, procs := setAt s.procs i p } else none

@[simp] theorem State.procs_to_self (s : State U) (i : ℕ) (p : Proc U) :
    (s.to i p).procs i = p := setAt_self ..

theorem State.procs_to_of_ne (s : State U) {i j : ℕ} (h : j ≠ i) (p : Proc U) :
    (s.to i p).procs j = s.procs j := setAt_of_ne _ _ h

/-- A party merges an update into a document. -/
def State.merge (u : U) (d : ℕ) : State U :=
  { s with
    docs := s.docs.apply d u
    edits := s.edits ++ [((s.docs.heap d).content merged,
      ((s.docs.apply d u).heap d).content merged)]
    owed := s.owed ++ [u] }

/-- A config is stored. -/
def State.save (cfg : PackConfig) : Door → State U
  | .request => { s with stored := some cfg, written := some cfg, edits := [] }
  | .document => { s with stored := some cfg }

section Save

variable {s} {cfg : PackConfig} {door : Door}

@[simp] theorem State.stored_save : (s.save cfg door).stored = some cfg := by cases door <;> rfl

@[simp] theorem State.docs_save : (s.save cfg door).docs = s.docs := by cases door <;> rfl

@[simp] theorem State.procs_save : (s.save cfg door).procs = s.procs := by cases door <;> rfl

@[simp] theorem State.owed_save : (s.save cfg door).owed = s.owed := by cases door <;> rfl

end Save

/-- A party begins a request. -/
def begin (r : Request U) : Option (State U) :=
  match s.procs i, r with
  | .idle, .join => some (s.to i (.missing none))
  | .idle, .post u => some (s.to i (.posting u))
  | .idle, .write w => some ({ s with owed := [] }.to i (.writing w))
  | .idle, .copy cfg => some (s.to i (.copying cfg))
  | _, _ => none

/-- A party goes on. -/
def next (answers : ℕ → Answers) : Option (State U) :=
  match s.procs i with
  | .idle => none
  | .posting u => match s.docs.live with
    | some d => some (s.to i (.holding u d))
    | none => some (s.to i (.missing (some u)))
  | .missing u => s.stored.map fun cfg => s.to i (.seeding u cfg)
  | .seeding u cfg =>
    let seeded := s.docs.getOrSeed cfg
    some ({ s with docs := seeded.1 }.to i (u.elim .idle fun u => .holding u seeded.2))
  | .holding u d => some ((s.merge merged u d).to i .applied)
  | .applied =>
    some ({ s with docs := s.docs.touch }.to i (.sleeping s.docs.touch.ticket))
  | .sleeping ticket => some (s.to i (if s.docs.isCurrent ticket then .waiting else .idle))
  | .waiting => s.acquire i .locked
  | .locked => match s.docs.live with
    | some d => some (s.to i (.got d))
    | none => some (s.to i .leaving)
  | .got d => s.stored.map fun existing => s.to i (.loaded d existing)
  | .loaded d existing =>
    match convert X ((s.docs.heap d).content merged) existing with
    | some c => some (s.to i (.storing .document c.1 c.2))
    | none => some (s.to i .leaving)
  | .writing w => s.acquire i (.writeLocked w)
  | .writeLocked w => match w.settle X packId s.stored with
    | some c => some (s.to i (.settled c.1 c.2))
    | none => some (s.to i .leaving)
  | .settled cfg fill =>
    some ({ s with docs := s.docs.forget }.to i (.storing .request cfg fill))
  | .copying cfg => s.acquire i (.copyLocked cfg)
  | .copyLocked cfg => match s.stored with
    | none => some (s.to i (.saving .request cfg))
    | some _ => some (s.to i .leaving)
  | .storing door cfg fill => some (s.to i (.saving door (storeEditedConfig answers cfg fill)))
  | .saving door cfg => some ((s.save cfg door).to i .leaving)
  | .leaving => some ({ s with lock := none }.to i .idle)

/-- A party fails, where it can: it gives up, and gives the lock back if it has it. -/
def fail : Option (State U) :=
  match s.procs i with
  | .posting _ | .missing _ | .seeding _ _ | .holding _ _ | .writing _ | .copying _ =>
    some (s.to i .idle)
  | .got _ | .writeLocked _ | .settled _ _ | .copyLocked _ | .storing .request _ _
  | .saving _ _ => some (s.to i .leaving)
  | _ => none

/-- What an action does. -/
def step : Act U → Option (State U)
  | .begin i r => begin s i r
  | .next i answers => next X merged packId s i answers
  | .fail i => fail s i

end Step

/-- Nobody is there yet: there is no document, and the history is empty. -/
structure Init {U : Type} (s : State U) : Prop where
  live : s.docs.live = none
  lock : s.lock = none
  procs (i : ℕ) : s.procs i = .idle
  written : s.written = s.stored
  edits : s.edits = []
  owed : s.owed = []

/-- A pack while it is edited. -/
def system {U : Type} (X : Outside) (merged : Members → List U → Members) (packId : String) :
    System (State U) (Act U) where
  init := Init
  step := step X merged packId

/-- A pack with a config, and nobody there. -/
def start {U : Type} (cfg : PackConfig) : State U where
  stored := some cfg
  docs := { live := none, heap := fun _ => ⟨cfg, []⟩, next := 0, ticket := 0 }
  lock := none
  procs := fun _ => .idle
  written := some cfg
  edits := []
  owed := []

theorem init_start {U : Type} (cfg : PackConfig) : Init (start (U := U) cfg) :=
  ⟨rfl, rfl, fun _ => rfl, rfl, rfl, rfl⟩

/-- A document into which every update writes one member of the root. -/
def writeMembers (o : Members) (us : List (String × Json)) : Members :=
  us.foldl (fun o u => Json.set u.1 u.2 o) o

/-- The pack with another tagline. -/
def retitled : PackConfig := { PackConfig.empty "Industrial" with tagline := "Machines" }

/-- An administrator puts the new tagline. -/
def putRetitled : WholeWrite :=
  .put ⟨retitled, none, { uid := 0, login := "", role := .admin }, true⟩

/-! ## The lock -/

section Tidy

variable {U : Type} {X : Outside} {merged : Members → List U → Members} {packId : String}
  {s s' : State U} {i : ℕ}

/-- Who writes the document has the live one in hand, and the config that is stored; and who
    has read a config to seed a document finds one stored. -/
def InHand (s : State U) : Proc U → Prop
  | .got d => s.docs.live = some d
  | .loaded d existing => s.docs.live = some d ∧ s.stored = some existing
  | .seeding _ _ => s.stored ≠ none
  | _ => True

/-- What holds in every state: one party holds the lock, what it has in hand is there, and
    there is a document only if there is a config. -/
structure Tidy (s : State U) : Prop where
  lock : Exclusive Proc.HoldsLock s.lock s.procs
  inHand (i : ℕ) : InHand s (s.procs i)
  live : s.docs.live ≠ none → s.stored ≠ none

/-- What a party has in hand that does not hold the lock stays, if the config does not go. -/
theorem InHand.mono {p : Proc U} (h : InHand s p) (hl : ¬ p.HoldsLock)
    (hstored : s.stored ≠ none → s'.stored ≠ none) : InHand s' p := by
  cases p <;> first | trivial | exact absurd trivial hl | exact hstored h

/-- The holder of the lock moves. What it changes nobody else has in hand. -/
theorem Tidy.holder (h : Tidy s) (hi : (s.procs i).HoldsLock) {p : Proc U}
    (hprocs : s'.procs = setAt s.procs i p) (hlock : Exclusive Proc.HoldsLock s'.lock s'.procs)
    (hstored : s.stored ≠ none → s'.stored ≠ none)
    (hlive : s'.docs.live ≠ none → s'.stored ≠ none) (hp : InHand s' p) : Tidy s' := by
  refine ⟨hlock, fun j => ?_, hlive⟩
  rw [hprocs]
  exact forall_setAt (P := fun _ q => InHand s' q)
    (fun j hj => (h.inHand j).mono (h.lock.not_of_ne hi hj) hstored) hp j

/-- A party moves and changes nothing that another one has in hand. -/
theorem Tidy.frame (h : Tidy s) {p : Proc U} (hprocs : s'.procs = setAt s.procs i p)
    (hstored : s'.stored = s.stored) (hlive : ∀ d, s.docs.live = some d → s'.docs.live = some d)
    (hthere : s'.docs.live ≠ none → s.docs.live ≠ none ∨ s.stored ≠ none)
    (hlock : Exclusive Proc.HoldsLock s'.lock s'.procs) (hp : InHand s' p) : Tidy s' := by
  refine ⟨hlock, fun j => ?_, fun hn => hstored ▸ (hthere hn).elim h.live id⟩
  rw [hprocs]
  refine forall_setAt (P := fun _ q => InHand s' q) (fun j _ => ?_) hp j
  have hj := h.inHand j
  cases hq : s.procs j <;> rw [hq] at hj
  case got => exact hlive _ hj
  case loaded => exact ⟨hlive _ hj.1, hstored.trans hj.2⟩
  case seeding => exact fun hn => hj (hstored ▸ hn)
  all_goals trivial

/-- A party moves alone. -/
theorem Tidy.to (h : Tidy s) {p : Proc U} (hl : p.HoldsLock → (s.procs i).HoldsLock)
    (hp : InHand s p) : Tidy (s.to i p) :=
  h.frame rfl rfl (fun _ => id) .inl (h.lock.keep hl) (by cases p <;> exact hp)

theorem Tidy.acquire (h : Tidy s) {p : Proc U} (hp : InHand s p)
    (ha : s.acquire i p = some s') : Tidy s' := by
  rw [State.acquire] at ha
  split_ifs at ha with hn
  obtain rfl := Option.some.inj ha
  exact h.frame rfl rfl (fun _ => id) .inl (hn ▸ h.lock).acquire (by cases p <;> exact hp)

theorem Tidy.begin (h : Tidy s) {r : Request U} (hs : begin s i r = some s') : Tidy s' := by
  rw [Live.begin.eq_def] at hs
  split at hs
  · obtain rfl := Option.some.inj hs
    exact h.to False.elim trivial
  · obtain rfl := Option.some.inj hs
    exact h.to False.elim trivial
  · obtain rfl := Option.some.inj hs
    exact h.frame rfl rfl (fun _ => id) .inl (h.lock.keep False.elim) trivial
  · obtain rfl := Option.some.inj hs
    exact h.to False.elim trivial
  · cases hs

theorem Tidy.fail (h : Tidy s) (hs : fail s i = some s') : Tidy s' := by
  rw [Live.fail.eq_def] at hs
  split at hs <;> cases hs
  all_goals first
    | exact h.to False.elim trivial
    | exact h.to (fun _ => by simp [Proc.HoldsLock, *]) trivial

theorem Tidy.next (h : Tidy s) {answers : ℕ → Answers}
    (hs : next X merged packId s i answers = some s') : Tidy s' := by
  cases hp : s.procs i <;> rw [Live.next, hp] at hs <;> simp only at hs
  case idle => cases hs
  case posting u =>
    split at hs <;> obtain rfl := Option.some.inj hs <;> exact h.to False.elim trivial
  case missing u =>
    obtain ⟨cfg, hc, rfl⟩ := Option.map_eq_some_iff.1 hs
    exact h.to False.elim (show s.stored ≠ none from hc ▸ Option.some_ne_none cfg)
  case seeding u cfg =>
    have hin : InHand s (.seeding u cfg) := hp ▸ h.inHand i
    obtain rfl := Option.some.inj hs
    refine h.frame rfl rfl (fun d hd => ?_) (fun _ => .inr hin) (h.lock.keep ?_) ?_
    · rw [PackDocs.getOrSeed_of_live hd]
      exact hd
    · cases u <;> exact False.elim
    · cases u <;> trivial
  case holding u d =>
    obtain rfl := Option.some.inj hs
    exact h.frame rfl rfl (fun _ => id) .inl (h.lock.keep False.elim) trivial
  case applied =>
    obtain rfl := Option.some.inj hs
    exact h.frame rfl rfl (fun _ => id) .inl (h.lock.keep False.elim) trivial
  case sleeping ticket =>
    obtain rfl := Option.some.inj hs
    split <;> exact h.to False.elim trivial
  case waiting => exact h.acquire (p := .locked) trivial hs
  case writing w => exact h.acquire (p := .writeLocked w) trivial hs
  case copying cfg => exact h.acquire (p := .copyLocked cfg) trivial hs
  case copyLocked cfg =>
    split at hs <;> obtain rfl := Option.some.inj hs <;> exact h.to (fun _ => hp ▸ trivial) trivial
  case locked =>
    split at hs <;> obtain rfl := Option.some.inj hs
    · next d hd => exact h.to (fun _ => hp ▸ trivial) hd
    · exact h.to (fun _ => hp ▸ trivial) trivial
  case got d =>
    obtain ⟨existing, he, rfl⟩ := Option.map_eq_some_iff.1 hs
    have hd : InHand s (.got d) := hp ▸ h.inHand i
    exact h.to (fun _ => hp ▸ trivial) ⟨hd, he⟩
  case loaded d existing =>
    split at hs <;> obtain rfl := Option.some.inj hs <;> exact h.to (fun _ => hp ▸ trivial) trivial
  case writeLocked w =>
    split at hs <;> obtain rfl := Option.some.inj hs <;> exact h.to (fun _ => hp ▸ trivial) trivial
  case storing door cfg fill =>
    obtain rfl := Option.some.inj hs
    exact h.to (fun _ => hp ▸ trivial) trivial
  case settled cfg fill =>
    obtain rfl := Option.some.inj hs
    have hh : (s.procs i).HoldsLock := hp ▸ trivial
    exact h.holder hh rfl (h.lock.keep fun _ => hh) id (fun hn => absurd rfl hn) trivial
  case saving door cfg =>
    obtain rfl := Option.some.inj hs
    have hh : (s.procs i).HoldsLock := hp ▸ trivial
    cases door <;> exact h.holder hh rfl (h.lock.keep fun _ => hh)
      (fun _ => Option.some_ne_none cfg) (fun _ => Option.some_ne_none cfg) trivial
  case leaving =>
    obtain rfl := Option.some.inj hs
    have hh : (s.procs i).HoldsLock := hp ▸ trivial
    exact h.holder hh rfl (h.lock.release hh id) id h.live trivial

theorem Tidy.step (h : Tidy s) {a : Act U} (hs : step X merged packId s a = some s') :
    Tidy s' := by
  cases a with
  | begin i r => exact h.begin hs
  | next i answers => exact h.next hs
  | fail i => exact h.fail hs

/-- A pack with no document, whose parties are idle, is tidy. -/
theorem Init.tidy (h : Init s) : Tidy s := by
  refine ⟨fun i hi => ?_, fun i => ?_, fun hn => absurd h.live hn⟩
  · rw [h.procs i] at hi
    exact hi.elim
  · rw [h.procs i]
    trivial

/-- Every reachable state is tidy. -/
theorem tidy (h : (system X merged packId).Reachable s) : Tidy s :=
  h.invariant (fun _ hs => hs.tidy) fun _ _ _ ht _ hst => ht.step hst

end Tidy

end Live

end Smrt
