import Smrt.Accounts.Threads
import Smrt.Http.Live
import Smrt.Http.Words

/-!
# Deleting a pack

A pack is deleted piece by piece (`delete_pack`): what is stored of it is removed, and then,
each on its own, the rows of its access list, its blocks, and the threads about it. None of
this takes the lock of the config, and the live document stays. An id can be minted again.

A pack that is deleted is a system: the pack while it is edited (`Smrt.Live.system`), with its
rows, and the parties that delete it, grant access to it, block somebody from it and open
issues on it. A step of a party is what it does between two of its awaits.

The history of a state says what belongs to the pack as it is now: whether the last one was
removed and none made since (`gone`); the configs stored since it was removed (`own`); who was
granted access since (`news`); and which requests are older than that (`old`, `fresh`).

A deleted pack bequeaths nothing to the one that is made under its id afterwards
(`BequeathsNothing`), as long as it is removed only while it has no live document and nobody
has a config of it in hand, nobody writes a config until the deletion has answered, no row
stays behind, and none is written for a pack that is gone (`Orderly`):
`system_bequeathsNothing`. Nothing sees to that. A pack that is deleted while it is edited
leaves its document, which the pack made under its id is then edited in (`system_bequeathed`).
-/

namespace Smrt

open Json (Members)

/-! ## What the parties of an edited pack carry -/

namespace Live

variable {U : Type}

/-- Has in hand what it may seed a document with, or store. -/
def Proc.Carries : Proc U → Prop
  | seeding _ _ | loaded _ _ | writing _ | writeLocked _ | settled _ _ | copying _ | copyLocked _
  | storing _ _ _ | saving _ _ => True
  | _ => False

/-- Asks for a config to be stored. -/
def Request.Writes : Request U → Prop
  | write _ | copy _ => True
  | _ => False

/-- The config that an action stores, and who does. -/
def stores (s : State U) : Act U → Option (ℕ × PackConfig)
  | .next i _ => match s.procs i with
    | .saving _ cfg => some (i, cfg)
    | _ => none
  | _ => none

/-- The config with which a document is asked for. -/
def Proc.seed : Proc U → Option PackConfig
  | seeding _ cfg => some cfg
  | _ => none

/-- What an action does, seen by who does not edit: a party moves to `p`. It stores what it
    had in hand to store; it gets a config in hand by beginning to write one, or from what is
    stored; and the document that is made is seeded from what it had in hand. -/
structure Effect (s : State U) (a : Act U) (s' : State U) (i : ℕ) (p : Proc U) : Prop where
  procs : s'.procs = setAt s.procs i p
  stored : (stores s a = none ∧ s'.stored = s.stored) ∨
    ∃ cfg, stores s a = some (i, cfg) ∧ s'.stored = some cfg
  live (d : ℕ) : s'.docs.live = some d →
    (s.docs.live = some d ∧ (s'.docs.heap d).seed = (s.docs.heap d).seed) ∨
      (s.procs i).seed = some (s'.docs.heap d).seed
  seed (cfg : PackConfig) : p.seed = some cfg → s.stored = some cfg
  carries : p.Carries → (s.procs i).Carries ∨ s.stored ≠ none ∨ ∃ r, a = .begin i r ∧ r.Writes

section Effect

variable {X : Outside} {merged : Members → List U → Members} {packId : String}
  {s s' : State U} {a : Act U} {i : ℕ} {p : Proc U}

/-- A party moves that has no config to ask with, and neither stores nor makes a document. -/
theorem Effect.frame (hprocs : s'.procs = setAt s.procs i p) (hstores : stores s a = none)
    (hstored : s'.stored = s.stored) (hlive : ∀ d, s'.docs.live = some d → s.docs.live = some d)
    (hheap : ∀ d, (s'.docs.heap d).seed = (s.docs.heap d).seed) (hseed : p.seed = none)
    (hcarries : p.Carries → (s.procs i).Carries ∨ s.stored ≠ none ∨
      ∃ r, a = .begin i r ∧ r.Writes) : Effect s a s' i p :=
  ⟨hprocs, .inl ⟨hstores, hstored⟩, fun d hd => .inl ⟨hlive d hd, hheap d⟩,
    fun _ h => (nomatch hseed.symm.trans h), hcarries⟩

/-- A party moves alone. -/
theorem Effect.to (hstores : stores s a = none) (hseed : p.seed = none)
    (hcarries : p.Carries → (s.procs i).Carries) : Effect s a (s.to i p) i p :=
  .frame rfl hstores rfl (fun _ => id) (fun _ => rfl) hseed fun h => .inl (hcarries h)

theorem Effect.acquire (hstores : stores s a = none) (hseed : p.seed = none)
    (hcarries : p.Carries → (s.procs i).Carries) (ha : s.acquire i p = some s') :
    Effect s a s' i p := by
  rw [State.acquire] at ha
  split_ifs at ha
  obtain rfl := Option.some.inj ha
  exact .frame rfl hstores rfl (fun _ => id) (fun _ => rfl) hseed fun h => .inl (hcarries h)

theorem begin_effect {r : Request U} (h : begin s i r = some s') :
    ∃ p, Effect s (.begin i r) s' i p := by
  rw [begin.eq_def] at h
  split at h
  · obtain rfl := Option.some.inj h
    exact ⟨_, .to rfl rfl False.elim⟩
  · obtain rfl := Option.some.inj h
    exact ⟨_, .to rfl rfl False.elim⟩
  · obtain rfl := Option.some.inj h
    exact ⟨_, .frame rfl rfl rfl (fun _ => id) (fun _ => rfl) rfl
      fun _ => .inr (.inr ⟨_, rfl, trivial⟩)⟩
  · obtain rfl := Option.some.inj h
    exact ⟨_, .frame rfl rfl rfl (fun _ => id) (fun _ => rfl) rfl
      fun _ => .inr (.inr ⟨_, rfl, trivial⟩)⟩
  · cases h

theorem fail_effect (h : fail s i = some s') : ∃ p, Effect s (.fail i) s' i p := by
  rw [fail.eq_def] at h
  split at h <;> cases h
  all_goals exact ⟨_, .to rfl rfl False.elim⟩

theorem next_effect {answers : ℕ → Answers} (h : next X merged packId s i answers = some s') :
    ∃ p, Effect s (.next i answers) s' i p := by
  -- A move with nothing new in hand.
  have aside {p : Proc U} (hn : stores s (.next i answers) = none) (hseed : p.seed = none)
      (hc : p.Carries → (s.procs i).Carries) :
      ∃ p', Effect s (.next i answers) (s.to i p) i p' := ⟨p, .to hn hseed hc⟩
  cases hp : s.procs i <;> simp only [next, stores, hp, forall_const] at h aside
  case idle => cases h
  case posting u => split at h <;> cases h <;> exact aside rfl id
  case missing u =>
    obtain ⟨cfg, hc, rfl⟩ := Option.map_eq_some_iff.1 h
    exact ⟨_, rfl, .inl ⟨by rw [stores, hp], rfl⟩, fun d hd => .inl ⟨hd, rfl⟩,
      fun _ he => hc.trans he, fun _ => .inr (.inl (hc ▸ Option.some_ne_none cfg))⟩
  case seeding u cfg =>
    cases h
    refine ⟨_, rfl, .inl ⟨by rw [stores, hp], rfl⟩, fun d hd => ?_, fun _ he => ?_, fun hc => ?_⟩
    · cases hl : s.docs.live with
      | some e =>
        simp only [State.to, PackDocs.getOrSeed_of_live hl] at hd ⊢
        exact .inl ⟨hl.symm.trans hd, trivial⟩
      | none =>
        simp only [State.to, PackDocs.getOrSeed_of_none hl, Option.some.injEq] at hd ⊢
        subst hd
        rw [setAt_self, hp]
        exact .inr rfl
    · cases u <;> cases he
    · cases u <;> cases hc
  case holding u d =>
    cases h
    refine ⟨_, .frame rfl (by rw [stores, hp]) rfl (fun _ => id) (fun e => ?_) rfl False.elim⟩
    by_cases he : e = d
    · subst he
      simp [State.to, State.merge]
    · simp [State.to, State.merge, PackDocs.heap_apply_of_ne he]
  case applied =>
    cases h
    exact ⟨_, .frame rfl (by rw [stores, hp]) rfl (fun _ => id) (fun _ => rfl) rfl False.elim⟩
  case sleeping ticket =>
    cases h
    split <;> exact aside rfl id
  case waiting => exact ⟨_, .acquire (p := .locked) (by rw [stores, hp]) rfl False.elim h⟩
  case locked => split at h <;> cases h <;> exact aside rfl id
  case got d =>
    obtain ⟨existing, he, rfl⟩ := Option.map_eq_some_iff.1 h
    exact ⟨_, .frame rfl (by rw [stores, hp]) rfl (fun _ => id) (fun _ => rfl) rfl
      fun _ => .inr (.inl (he ▸ Option.some_ne_none existing))⟩
  case loaded d existing => split at h <;> cases h <;> exact aside rfl fun _ => trivial
  case writing w =>
    exact ⟨_, .acquire (p := .writeLocked w) (by rw [stores, hp]) rfl (fun _ => hp ▸ trivial) h⟩
  case writeLocked w => split at h <;> cases h <;> exact aside rfl fun _ => trivial
  case settled cfg fill =>
    cases h
    exact ⟨_, .frame rfl (by rw [stores, hp]) rfl (fun _ hd => by cases hd) (fun _ => rfl) rfl
      fun _ => .inl (hp ▸ trivial)⟩
  case copying cfg =>
    exact ⟨_, .acquire (p := .copyLocked cfg) (by rw [stores, hp]) rfl (fun _ => hp ▸ trivial) h⟩
  case copyLocked cfg => split at h <;> cases h <;> exact aside rfl fun _ => trivial
  case storing door cfg fill =>
    cases h
    exact aside rfl fun _ => trivial
  case saving door cfg =>
    cases h
    refine ⟨.leaving, ?_, .inr ⟨cfg, by rw [stores, hp], ?_⟩, fun d hd => .inl ?_, fun _ he => ?_,
      False.elim⟩
    · simp [State.to]
    · simp [State.to]
    · simpa [State.to] using hd
    · cases he
  case leaving =>
    cases h
    exact ⟨_, .frame rfl (by rw [stores, hp]) rfl (fun _ => id) (fun _ => rfl) rfl False.elim⟩

theorem step_effect (h : step X merged packId s a = some s') : ∃ i p, Effect s a s' i p := by
  cases a with
  | begin i r => exact ⟨i, begin_effect h⟩
  | next i answers => exact ⟨i, next_effect h⟩
  | fail i => exact ⟨i, fail_effect h⟩

end Effect

end Live

namespace Deletion

/-! ## States -/

/-- The tables in which a pack has rows. -/
inductive Table
  | access
  | blocks
  | threads

/-- Where a party is. -/
inductive Proc
  | idle
  /-- Deletes the pack: is authorised. -/
  | deleting (identity : Identity)
  /-- Removes what is stored. -/
  | removing
  /-- Has removed it: forgets the access list, then the blocks, then the threads. -/
  | unlisting
  | unblocking
  | unthreading
  /-- Has answered success. -/
  | deleted
  /-- Grants access: is authorised. -/
  | granting (identity : Identity) (githubUid : Int64) (level : String)
  | granted (githubUid : Int64) (level : PackLevel)
  /-- Blocks somebody: is authorised, and asks who that is. -/
  | blocking (identity : Identity) (githubUid : Int64) (reason : Option String)
  | judging (githubUid : Int64) (reason : Option String)
  | blocked (githubUid : Int64) (note : Option String)
  /-- Opens an issue: is authorised, and may not be silenced. -/
  | opening (identity : Identity) (title : String)
  | speaking (identity : Identity) (title : String)
  | opened (byUid : Int64)
  | done (answer : Except ApiError Unit)

/-- Whether a deletion has yet to forget the rows of a table, the pack being removed. -/
def Proc.Owes : Proc → Table → Prop
  | unlisting, _ => True
  | unblocking, .blocks | unblocking, .threads => True
  | unthreading, .threads => True
  | _, _ => False

/-- Whether there is no request there. -/
def Proc.AtRest : Proc → Prop
  | idle | deleted | done _ => True
  | _ => False

/-- A pack, what it grants, whom it blocks and why, the threads of all the packs, and the
    parties; then the history. -/
structure State (U : Type) where
  pack : Live.State U
  access : Int64 → Option PackLevel
  blocks : Int64 → Option (Option String)
  threads : List Thread
  procs : ℕ → Proc
  /-- The pack was removed, and nobody has made one since. -/
  gone : Prop
  /-- The configs stored since the pack was removed. -/
  own : PackConfig → Prop
  /-- Who was granted access since the list was forgotten, by who was authorised since. -/
  news : Int64 → Prop
  /-- Whose edit request is from before the pack was removed, or deleted. -/
  old : ℕ → Prop
  /-- Who was authorised to grant since the list was forgotten. -/
  fresh : ℕ → Prop

/-- What a party begins. -/
inductive Request
  | delete (identity : Identity)
  | grant (identity : Identity) (githubUid : Int64) (level : String)
  | block (identity : Identity) (githubUid : Int64) (reason : Option String)
  | openIssue (identity : Identity) (title : String)

/-- What a party is told by the rest of the store: whether somebody is suspended and why,
    who an account is, whether the pack is published, how many threads its author opened of
    late, the id of a new thread, and whether anything but the config is stored of the pack. -/
structure Told where
  suspension : Int64 → Option (Option String)
  identityOf : Int64 → Option Identity
  isPublished : Bool
  recent : ℕ
  threadId : Int64
  tree : Bool

/-- What happens: the pack is edited, or a party begins, goes on, or fails with an error. -/
inductive Act (U : Type)
  | edit (a : Live.Act U)
  | begin (i : ℕ) (r : Request)
  | next (i : ℕ) (told : Told)
  | fail (i : ℕ) (e : ApiError)

/-! ## Requests -/

section Requests

variable {U : Type} (X : Outside) (packId : String) (s : State U) (told : Told)

/-- Whether somebody may do `need` to the pack. -/
def State.authorize (identity : Identity) (need : PackLevel) : Except ApiError Unit :=
  Smrt.authorize identity packId need (told.suspension identity.uid) (s.access identity.uid)

/-- Whether an account may do `need` to the pack: one that never signed in is a plain member. -/
def State.mayUid (uid : Int64) (need : PackLevel) : Bool :=
  (s.authorize packId told ((told.identityOf uid).getD ⟨uid, "", .member⟩) need).toBool

/-- The level that somebody may grant to an account. -/
def State.grantAccess (identity : Identity) (githubUid : Int64) (level : String) :
    Except ApiError PackLevel := do
  s.authorize packId told identity .own
  match PackLevel.parse level with
  | none => .error (.badRequest ("unknown level " ++ X.debug level))
  | some level =>
    if githubUid = identity.uid then
      .error (.badRequest "you already own this pack; a grant to yourself would say nothing")
    else .ok level

/-- The note with which an account may be blocked. -/
def State.blockNote (githubUid : Int64) (reason : Option String) :
    Except ApiError (Option String) :=
  if s.mayUid packId told githubUid .edit then
    .error (.badRequest "that person keeps this pack; take their access away first")
  else tidyReason reason

/-- A write on a pack is refused from whom it blocks. -/
def State.notSilenced (identity : Identity) : Except ApiError Unit := do
  notSuspended identity (told.suspension identity.uid)
  match s.blocks identity.uid with
  | none => .ok ()
  | some (some reason) => .error (.refused ("writing here is suspended. reason: " ++ reason))
  | some none => .error (.refused "writing here is suspended")

/-- How many threads an account may open in a while. -/
def threadsPerWindow : ℕ := 5

/-- Whether somebody may open an issue under a title. -/
def State.openIssue (identity : Identity) (title : String) : Except ApiError Unit := do
  s.notSilenced told identity
  if threadsPerWindow ≤ told.recent then
    .error (.conflict "that is a lot in a short time; give it a few minutes")
  else (trimmed title "an issue needs a title").map fun _ => ()

/-- The issue of an account on the pack. -/
def issue (byUid : Int64) : Thread where
  id := told.threadId
  packId := packId
  kind := .issue
  byUid := byUid
  status := .open
  sourcePack := none
  sourceCommit := none
  mergedCommit := none
  decidedAt := none
  decidedBy := none

end Requests

/-! ## Steps -/

section Step

variable {U : Type} (X : Outside) (merged : Members → List U → Members) (packId : String)
  (s : State U) (i : ℕ)

/-- A party moves. -/
def State.to (p : Proc) : State U := { s with procs := setAt s.procs i p }

@[simp] theorem State.procs_to_self (s : State U) (i : ℕ) (p : Proc) : (s.to i p).procs i = p :=
  setAt_self ..

/-- A party moves on, or answers an error. -/
def State.orFail (r : Except ApiError (State U)) : State U :=
  match r with
  | .ok t => t
  | .error e => s.to i (.done (.error e))

/-- The rows of a table are yet to be forgotten by a deletion that removed the pack. -/
def State.Owes (t : Table) : Prop := ∃ j, (s.procs j).Owes t

/-- A config is stored that somebody made for the pack as it is now. -/
def State.Made (a : Live.Act U) (cfg : PackConfig) : Prop :=
  ∃ i, Live.stores s.pack a = some (i, cfg) ∧ ¬ s.old i

/-- The pack is edited. A config that somebody begins to write while a deletion is not
    through with its rows is not made for the next pack. -/
def edit (a : Live.Act U) : Option (State U) :=
  (Live.step X merged packId s.pack a).map fun pack =>
    { s with
      pack
      gone := s.gone ∧ ∀ cfg, ¬ s.Made a cfg
      own := fun cfg => s.own cfg ∨ s.Made a cfg
      old := match a with
        | .begin i r => setAt s.old i (r.Writes ∧ s.Owes .threads)
        | _ => s.old }

/-- What is stored of the pack is removed. The documents and the lock are not told. -/
def State.remove : State U :=
  { s with
    pack := { s.pack with stored := none }
    gone := True
    own := fun _ => False
    news := fun _ => False
    old := fun j => (s.pack.procs j).Carries }

def forgetPackAccess : State U :=
  { s with access := fun _ => none, news := fun _ => False, fresh := fun _ => False }

def forgetPackBlocks : State U := { s with blocks := fun _ => none }

/-- The threads about the pack go, from either side of a proposal. -/
def forgetPackThreads : State U :=
  { s with threads := s.threads.filter fun t => t.packId ≠ packId ∧ t.sourcePack ≠ some packId }

/-- The account of the emergency token, which nobody has. -/
def breakGlassUid : Int64 := 0

def grantPackAccess (githubUid : Int64) (level : PackLevel) : Except ApiError (State U) :=
  if githubUid = breakGlassUid then .error (.badRequest "uid 0 is reserved")
  else .ok { s with
    access := Function.update s.access githubUid (some level)
    news := Function.update s.news githubUid (s.news githubUid ∨ s.fresh i) }

def blockFromPack (githubUid : Int64) (note : Option String) : Except ApiError (State U) :=
  if githubUid = breakGlassUid then .error (.badRequest "uid 0 is reserved")
  else .ok { s with blocks := Function.update s.blocks githubUid (some note) }

/-- A party begins a request. -/
def begin (r : Request) : Option (State U) :=
  match s.procs i, r with
  | .idle, .delete identity => some (s.to i (.deleting identity))
  | .idle, .grant identity uid level => some (s.to i (.granting identity uid level))
  | .idle, .block identity uid reason => some (s.to i (.blocking identity uid reason))
  | .idle, .openIssue identity title => some (s.to i (.opening identity title))
  | _, _ => none

/-- A party goes on. -/
def next (told : Told) : Option (State U) :=
  match s.procs i with
  | .idle | .deleted | .done _ => none
  | .deleting identity => some (s.orFail i do
    s.authorize packId told identity .own
    if isSafeId packId then .ok (s.to i .removing) else .error (.badRequest "invalid pack id"))
  | .removing => some (s.orFail i
      (if s.pack.stored.isSome ∨ told.tree then .ok (s.remove.to i .unlisting)
      else .error .notFound))
  | .unlisting => some ((forgetPackAccess s).to i .unblocking)
  | .unblocking => some ((forgetPackBlocks s).to i .unthreading)
  | .unthreading => some ((forgetPackThreads packId s).to i .deleted)
  | .granting identity uid level => some (s.orFail i do
    let level ← s.grantAccess X packId told identity uid level
    .ok ({ s with fresh := setAt s.fresh i True }.to i (.granted uid level)))
  | .granted uid level =>
    some (s.orFail i ((grantPackAccess s i uid level).map fun t => t.to i (.done (.ok ()))))
  | .blocking identity uid reason => some (s.orFail i do
    s.authorize packId told identity .edit
    .ok (s.to i (.judging uid reason)))
  | .judging uid reason => some (s.orFail i do
    let note ← s.blockNote packId told uid reason
    .ok (s.to i (.blocked uid note)))
  | .blocked uid note =>
    some (s.orFail i ((blockFromPack s uid note).map fun t => t.to i (.done (.ok ()))))
  | .opening identity title => some (s.orFail i do
    if ¬ told.isPublished then s.authorize packId told identity .view
    .ok (s.to i (.speaking identity title)))
  | .speaking identity title => some (s.orFail i do
    s.openIssue told identity title
    .ok (s.to i (.opened identity.uid)))
  | .opened byUid =>
    some ({ s with threads := s.threads ++ [issue packId told byUid] }.to i (.done (.ok ())))

/-- A party fails, where it can. A deletion that cannot forget the rows of a table leaves the
    others too, and answers success all the same. -/
def fail (e : ApiError) : Option (State U) :=
  match s.procs i with
  | .idle | .deleted | .done _ => none
  | .unlisting | .unblocking | .unthreading => some (s.to i .deleted)
  | _ => some (s.to i (.done (.error e)))

/-- What an action does. -/
def step : Act U → Option (State U)
  | .edit a => edit X merged packId s a
  | .begin i r => begin s i r
  | .next i told => next X packId s i told
  | .fail i e => fail s i e

end Step

/-- Nobody is there yet: the history is that the pack is as it is. -/
structure Init {U : Type} (s : State U) : Prop where
  pack : Live.Init s.pack
  procs (i : ℕ) : s.procs i = .idle
  gone : ¬ s.gone
  own (cfg : PackConfig) : s.pack.stored = some cfg → s.own cfg
  news (uid : Int64) : s.access uid ≠ none → s.news uid
  old (i : ℕ) : ¬ s.old i

/-- A pack that is edited and deleted. -/
def system {U : Type} (X : Outside) (merged : Members → List U → Members) (packId : String) :
    System (State U) (Act U) where
  init := Init
  step := step X merged packId

/-! ## Nothing is bequeathed -/

section Bequeath

variable {U : Type} (packId : String) (s : State U)

/-- There is no request on the pack. -/
def State.Quiet : Prop := (∀ i, s.pack.procs i = .idle) ∧ ∀ i, (s.procs i).AtRest

/-- The pack has no rows in a table. -/
def State.Empty : Table → Prop
  | .access => ∀ uid, s.access uid = none
  | .blocks => ∀ uid, s.blocks uid = none
  | .threads => ∀ t ∈ s.threads, t.packId ≠ packId ∧ t.sourcePack ≠ some packId

/-- When a deleted pack is left there is nothing of it; a document is seeded from a config of
    the pack as it is now; and who was granted nothing since, and owns it neither by rung nor
    by namespace, may do nothing to it. -/
structure BequeathsNothing : Prop where
  left : s.gone → s.Quiet →
    s.pack.stored = none ∧ s.pack.docs.live = none ∧ ∀ t, s.Empty packId t
  document (d : ℕ) : s.pack.docs.live = some d → s.own (s.pack.docs.heap d).seed
  access (identity : Identity) (need : PackLevel) (suspension : Option (Option String)) :
    ¬ s.Owes .access → inherentLevel identity packId = none → ¬ s.news identity.uid →
      ∃ e, Smrt.authorize identity packId need suspension (s.access identity.uid) = .error e

/-- A pack is removed only while it has no live document and nobody carries a config of it;
    nobody begins to write one until the deletion has answered; a deletion forgets all the
    rows; and no row is written for a pack that is gone, but for those that are yet to be
    forgotten. Access is granted only by who was authorised since the list was forgotten. -/
def Orderly : Act U → Prop
  | .edit (.begin _ r) => r.Writes → ¬ s.Owes .threads
  | .edit _ | .begin _ _ => True
  | .next i told => match s.procs i with
    | .removing => s.pack.stored.isSome ∨ told.tree →
      s.pack.docs.live = none ∧ ∀ j, ¬ (s.pack.procs j).Carries
    | .granted _ _ => s.Owes .access ∨ (¬ s.gone ∧ s.fresh i)
    | .blocked _ _ => s.Owes .blocks ∨ ¬ s.gone
    | .opened _ => s.Owes .threads ∨ ¬ s.gone
    | _ => True
  | .fail i _ => ¬ (s.procs i).Owes .threads

end Bequeath

/-! ## The invariant -/

section Invariant

variable {U : Type} {X : Outside} {merged : Members → List U → Members} {packId : String}
  {s s' : State U} {i : ℕ} {p : Proc} {t : Table}

/-- What is stored, edited, or asked for is a config of the pack as it is now; while a
    deletion is not through with its rows, no config is stored or in hand; and the tables it is
    through with are empty until a pack is made. -/
structure Inv (packId : String) (s : State U) : Prop where
  tidy : Live.Tidy s.pack
  stored (cfg : PackConfig) : s.pack.stored = some cfg → s.own cfg
  live (d : ℕ) : s.pack.docs.live = some d → s.own (s.pack.docs.heap d).seed
  seed (i : ℕ) (cfg : PackConfig) : (s.pack.procs i).seed = some cfg → s.own cfg
  old (i : ℕ) : ¬ s.old i
  gone : s.gone → s.pack.stored = none
  clearing : s.Owes .threads → s.gone ∧ ∀ j, ¬ (s.pack.procs j).Carries
  access (uid : Int64) : s.access uid ≠ none → s.news uid ∨ s.Owes .access
  empty (t : Table) : s.gone → ¬ s.Owes t → s.Empty packId t

theorem Proc.Owes.threads (h : p.Owes t) : p.Owes .threads := by
  cases p <;> trivial

/-- What is owed stays so, if the party that moves still owes it. -/
theorem State.Owes.mono (h : s.Owes t) (hprocs : s'.procs = setAt s.procs i p)
    (hi : (s.procs i).Owes t → p.Owes t) : s'.Owes t := by
  obtain ⟨j, hj⟩ := h
  refine ⟨j, ?_⟩
  rw [hprocs]
  by_cases hji : j = i
  · subst hji
    rw [setAt_self]
    exact hi hj
  · rwa [setAt_of_ne _ _ hji]

/-- What is owed was so, if the party that moved owed it. -/
theorem State.Owes.of_mono (h : s'.Owes t) (hprocs : s'.procs = setAt s.procs i p)
    (hp : p.Owes t → (s.procs i).Owes t) : s.Owes t := by
  obtain ⟨j, hj⟩ := h
  rw [hprocs] at hj
  by_cases hji : j = i
  · subst hji
    rw [setAt_self] at hj
    exact ⟨j, hp hj⟩
  · rw [setAt_of_ne _ _ hji] at hj
    exact ⟨j, hj⟩

/-- A party moves, and the pack stays. -/
theorem Inv.frame (h : Inv packId s) (hprocs : s'.procs = setAt s.procs i p)
    (hpack : s'.pack = s.pack) (hgone : s'.gone = s.gone) (hown : s'.own = s.own)
    (hold : s'.old = s.old) (hp : p.Owes .threads → (s.procs i).Owes .threads)
    (haccess : ∀ uid, s'.access uid ≠ none → s'.news uid ∨ s'.Owes .access)
    (hempty : ∀ t, s.gone → ¬ s'.Owes t → s'.Empty packId t) : Inv packId s' where
  tidy := hpack ▸ h.tidy
  stored := by
    rw [hpack, hown]
    exact h.stored
  live := by
    rw [hpack, hown]
    exact h.live
  seed := by
    rw [hpack, hown]
    exact h.seed
  old := hold ▸ h.old
  gone := by
    rw [hgone, hpack]
    exact h.gone
  clearing := by
    rw [hgone, hpack]
    exact fun ho => h.clearing (ho.of_mono hprocs hp)
  access := haccess
  empty := hgone ▸ hempty

/-- A party moves that has nothing to do with a deletion. -/
theorem Inv.aside (h : Inv packId s) (hprocs : s'.procs = setAt s.procs i p)
    (hpack : s'.pack = s.pack) (hgone : s'.gone = s.gone) (hown : s'.own = s.own)
    (hold : s'.old = s.old) (hi : ¬ (s.procs i).Owes .threads) (hp : ¬ p.Owes .threads)
    (haccess : ∀ uid, s'.access uid ≠ none → s'.news uid ∨ s.Owes .access)
    (hempty : ∀ t, s.gone → ¬ s.Owes t → s'.Empty packId t) : Inv packId s' := by
  have hmono {t : Table} (ho : s.Owes t) : s'.Owes t :=
    ho.mono hprocs fun hpi => absurd hpi.threads hi
  exact h.frame hprocs hpack hgone hown hold (fun hpo => absurd hpo hp)
    (fun uid hu => (haccess uid hu).imp_right hmono)
    fun t hg ho => hempty t hg fun hs => ho (hmono hs)

theorem Inv.to (h : Inv packId s) (hi : ¬ (s.procs i).Owes .threads) (hp : ¬ p.Owes .threads) :
    Inv packId (s.to i p) :=
  h.aside rfl rfl rfl rfl rfl hi hp h.access fun t hg ho => by
    have := h.empty t hg ho
    cases t <;> exact this

/-! ### The pack is edited -/

theorem carries_of_stores {ps : Live.State U} {a : Live.Act U} {cfg : PackConfig}
    (h : Live.stores ps a = some (i, cfg)) : (ps.procs i).Carries := by
  rw [Live.stores.eq_def] at h
  split at h
  · split at h
    · next hp =>
      cases h
      rw [hp]
      trivial
    · cases h
  · cases h

theorem Inv.edit (h : Inv packId s) {a : Live.Act U} (hok : Orderly s (.edit a))
    (hs : edit X merged packId s a = some s') : Inv packId s' := by
  obtain ⟨pack, hst, rfl⟩ := Option.map_eq_some_iff.1 hs
  obtain ⟨i, p, he⟩ := Live.step_effect hst
  have hmade {cfg : PackConfig} (hc : Live.stores s.pack a = some (i, cfg)) : s.Made a cfg :=
    ⟨i, hc, h.old i⟩
  have hbegin {i : ℕ} {r : Live.Request U} (ha : a = .begin i r) (hw : r.Writes) :
      ¬ s.Owes .threads := by
    subst ha
    exact hok hw
  refine ⟨h.tidy.step hst, fun cfg hc => ?_, fun d hd => ?_, fun j cfg hc => ?_, fun j => ?_,
    fun hg => ?_, fun ho => ?_, h.access, fun t hg ho => ?_⟩
  · rcases he.stored with ⟨-, hsame⟩ | ⟨cfg', hstores, hnew⟩
    · exact .inl (h.stored cfg (hsame ▸ hc))
    · obtain rfl := Option.some.inj (hnew.symm.trans hc)
      exact .inr (hmade hstores)
  · rcases he.live d hd with ⟨hl, hseed⟩ | hseed
    · exact .inl (hseed ▸ h.live d hl)
    · exact .inl (h.seed i _ hseed)
  · rw [he.procs] at hc
    by_cases hj : j = i
    · rw [hj, setAt_self] at hc
      exact .inl (h.stored cfg (he.seed cfg hc))
    · rw [setAt_of_ne _ _ hj] at hc
      exact .inl (h.seed j cfg hc)
  · cases a with
    | begin i r =>
      exact forall_setAt (P := fun _ q => ¬ q) (fun j _ => h.old j)
        (fun hw => hbegin rfl hw.1 hw.2) j
    | next | fail => exact h.old j
  · rcases he.stored with ⟨-, hsame⟩ | ⟨cfg, hstores, -⟩
    · exact hsame.trans (h.gone hg.1)
    · exact absurd (hmade hstores) (hg.2 cfg)
  · obtain ⟨hg, hc⟩ := h.clearing ho
    refine ⟨⟨hg, fun cfg ⟨j, hj, _⟩ => hc j (carries_of_stores hj)⟩, fun j => ?_⟩
    rw [he.procs]
    refine forall_setAt (P := fun _ q => ¬ Live.Proc.Carries q) (fun j _ => hc j) (fun hp => ?_) j
    rcases he.carries hp with hi | hn | ⟨r, ha, hw⟩
    · exact hc i hi
    · exact hn (h.gone hg)
    · exact hbegin ha hw ho
  · have := h.empty t hg.1 ho
    cases t <;> exact this

/-! ### The pack is deleted -/

/-- What is stored is removed, while there is no document and nobody has a config in hand. -/
theorem Inv.remove (h : Inv packId s) (hlive : s.pack.docs.live = none)
    (hcarries : ∀ j, ¬ (s.pack.procs j).Carries) : Inv packId (s.remove.to i .unlisting) := by
  have howes {t : Table} : (s.remove.to i .unlisting).Owes t :=
    ⟨i, by rw [State.procs_to_self]; trivial⟩
  refine ⟨⟨h.tidy.lock, fun j => ?_, fun hn => absurd hlive hn⟩, fun cfg hc => (nomatch hc),
    fun d hd => (nomatch hlive.symm.trans hd), fun j cfg hc => ?_, hcarries, fun _ => rfl,
    fun _ => ⟨trivial, hcarries⟩, fun _ _ => .inr howes, fun t _ ho => absurd howes ho⟩
  · have hj := h.tidy.inHand j
    have hn := hcarries j
    change Live.InHand _ (s.pack.procs j)
    cases hp : s.pack.procs j <;> rw [hp] at hj hn
    case got d => exact (nomatch hlive.symm.trans hj)
    all_goals first | trivial | exact absurd trivial hn
  · have hn := hcarries j
    change (s.pack.procs j).seed = some cfg at hc
    cases hp : s.pack.procs j <;> rw [hp] at hc hn
    case seeding => exact absurd trivial hn
    all_goals cases hc

theorem Inv.unlist (h : Inv packId s) (hi : s.procs i = .unlisting) :
    Inv packId ((forgetPackAccess s).to i .unblocking) := by
  refine h.frame rfl rfl rfl rfl rfl (fun _ => hi ▸ trivial) (fun uid hu => absurd rfl hu)
    fun t _ ho => ?_
  cases t with
  | access => exact fun _ => rfl
  | blocks | threads => exact absurd ⟨i, by rw [State.procs_to_self]; trivial⟩ ho

theorem Inv.unblock (h : Inv packId s) (hi : s.procs i = .unblocking) :
    Inv packId ((forgetPackBlocks s).to i .unthreading) := by
  have hmono (ho : s.Owes .access) : ((forgetPackBlocks s).to i .unthreading).Owes .access :=
    ho.mono rfl fun hpi => (hi ▸ hpi : Proc.Owes .unblocking .access).elim
  refine h.frame rfl rfl rfl rfl rfl (fun _ => hi ▸ trivial)
    (fun uid hu => (h.access uid hu).imp_right hmono) fun t hg ho => ?_
  cases t with
  | access => exact h.empty .access hg fun hs => ho (hmono hs)
  | blocks => exact fun _ => rfl
  | threads => exact absurd ⟨i, by rw [State.procs_to_self]; trivial⟩ ho

theorem Inv.unthread (h : Inv packId s) (hi : s.procs i = .unthreading) :
    Inv packId ((forgetPackThreads packId s).to i .deleted) := by
  have hmono {t : Table} (ht : ¬ Proc.Owes .unthreading t) (ho : s.Owes t) :
      ((forgetPackThreads packId s).to i .deleted).Owes t :=
    ho.mono rfl fun hpi => absurd (hi ▸ hpi) ht
  refine h.frame rfl rfl rfl rfl rfl False.elim
    (fun uid hu => (h.access uid hu).imp_right (hmono id)) fun t hg ho => ?_
  cases t with
  | access => exact h.empty .access hg fun hs => ho (hmono id hs)
  | blocks => exact h.empty .blocks hg fun hs => ho (hmono id hs)
  | threads => exact fun t ht => of_decide_eq_true (List.mem_filter.1 ht).2

/-! ### Rows are written -/

theorem Inv.grant (h : Inv packId s) {uid : Int64} {level : PackLevel}
    (hi : s.procs i = .granted uid level) (hok : s.Owes .access ∨ (¬ s.gone ∧ s.fresh i))
    (hs : grantPackAccess s i uid level = .ok s') : Inv packId (s'.to i (.done (.ok ()))) := by
  rw [grantPackAccess] at hs
  split_ifs at hs
  cases hs
  refine h.aside rfl rfl rfl rfl rfl (hi ▸ id) id (fun v hv => ?_) fun t hg ho => ?_
  · by_cases hvu : v = uid
    · subst hvu
      refine hok.symm.imp (fun hf => ?_) id
      simp [State.to, hf.2]
    · simp only [State.to, Function.update_of_ne hvu] at hv ⊢
      exact h.access v hv
  · have hempty := h.empty t hg ho
    cases t with
    | access => exact absurd (hok.resolve_left ho).1 (not_not_intro hg)
    | blocks | threads => exact hempty

theorem Inv.block (h : Inv packId s) {uid : Int64} {note : Option String}
    (hi : s.procs i = .blocked uid note) (hok : s.Owes .blocks ∨ ¬ s.gone)
    (hs : blockFromPack s uid note = .ok s') : Inv packId (s'.to i (.done (.ok ()))) := by
  rw [blockFromPack] at hs
  split_ifs at hs
  cases hs
  refine h.aside rfl rfl rfl rfl rfl (hi ▸ id) id h.access fun t hg ho => ?_
  have hempty := h.empty t hg ho
  cases t with
  | blocks => exact absurd hg (hok.resolve_left ho)
  | access | threads => exact hempty

theorem Inv.issue (h : Inv packId s) {told : Told} {byUid : Int64}
    (hi : s.procs i = .opened byUid) (hok : s.Owes .threads ∨ ¬ s.gone) :
    Inv packId ({ s with threads := s.threads ++ [Deletion.issue packId told byUid] }.to i
      (.done (.ok ()))) := by
  refine h.aside rfl rfl rfl rfl rfl (hi ▸ id) id h.access fun t hg ho => ?_
  have hempty := h.empty t hg ho
  cases t with
  | threads => exact absurd hg (hok.resolve_left ho)
  | access | blocks => exact hempty

/-! ## Runs -/

theorem Inv.begin (h : Inv packId s) {r : Request} (hs : begin s i r = some s') :
    Inv packId s' := by
  rw [Deletion.begin.eq_def] at hs
  split at hs <;> cases hs
  all_goals next hp => exact h.to (hp ▸ id) id

theorem Inv.fail (h : Inv packId s) {e : ApiError} (hok : Orderly s (.fail i e))
    (hs : fail s i e = some s') : Inv packId s' := by
  rw [Deletion.fail.eq_def] at hs
  split at hs <;> cases hs
  all_goals exact h.to hok id

/-- A request is refused, or goes on. -/
theorem Inv.orFail_bind {α : Type} (h : Inv packId s) (hi : ¬ (s.procs i).Owes .threads)
    {r : Except ApiError α} {f : α → Except ApiError (State U)}
    (hf : ∀ x, r = .ok x → Inv packId (s.orFail i (f x))) :
    Inv packId (s.orFail i (r >>= f)) := by
  cases r with
  | ok x => exact hf x rfl
  | error e => exact h.to hi id

theorem Inv.next (h : Inv packId s) {told : Told} (hok : Orderly s (.next i told))
    (hs : next X packId s i told = some s') : Inv packId s' := by
  -- A move that has nothing to do with a deletion.
  have aside {p : Proc} (hi : ¬ (s.procs i).Owes .threads) (hp : ¬ p.Owes .threads) :
      Inv packId (s.to i p) := h.to hi hp
  have refused {r : Except ApiError Unit} {f : Unit → Except ApiError (State U)}
      (hi : ¬ (s.procs i).Owes .threads) (hf : Inv packId (s.orFail i (f ()))) :
      Inv packId (s.orFail i (r >>= f)) := h.orFail_bind hi fun _ _ => hf
  cases hp : s.procs i <;>
    simp only [Deletion.next, Orderly, hp, reduceCtorEq, Option.some.injEq] at hs hok aside refused
  case deleting identity =>
    subst hs
    refine refused id ?_
    split <;> exact aside id id
  case removing =>
    subst hs
    split
    · next ht => exact h.remove (hok ht).1 (hok ht).2
    · exact aside id id
  case unlisting =>
    subst hs
    exact h.unlist hp
  case unblocking =>
    subst hs
    exact h.unblock hp
  case unthreading =>
    subst hs
    exact h.unthread hp
  case granting identity uid level =>
    subst hs
    refine h.orFail_bind (hp ▸ id) fun _ _ => ?_
    exact h.aside rfl rfl rfl rfl rfl (hp ▸ id) id h.access fun t hg ho => by
      have hempty := h.empty t hg ho
      cases t <;> exact hempty
  case granted uid level =>
    subst hs
    cases hg : grantPackAccess s i uid level with
    | ok t => exact h.grant hp hok hg
    | error e => exact aside id id
  case blocking identity uid reason =>
    subst hs
    exact refused id (aside id id)
  case judging uid reason =>
    subst hs
    exact h.orFail_bind (hp ▸ id) fun _ _ => aside id id
  case blocked uid note =>
    subst hs
    cases hb : blockFromPack s uid note with
    | ok t => exact h.block hp hok hb
    | error e => exact aside id id
  case opening identity title =>
    subst hs
    split
    · exact refused id (aside id id)
    · exact aside id id
  case speaking identity title =>
    subst hs
    exact refused id (aside id id)
  case opened byUid =>
    subst hs
    exact h.issue hp hok

/-- A deleted pack bequeaths nothing, in a state where the invariant holds. -/
theorem Inv.bequeathsNothing (h : Inv packId s) : BequeathsNothing packId s where
  left hg hq := by
    refine ⟨h.gone hg, of_not_not fun hl => h.tidy.live hl (h.gone hg), fun t =>
      h.empty t hg fun ⟨j, hj⟩ => ?_⟩
    have hrest := hq.2 j
    cases hp : s.procs j <;> rw [hp] at hj hrest <;> first | exact hj.elim | exact hrest.elim
  document := h.live
  access identity need suspension ho hin hnew := by
    have hnone : s.access identity.uid = none :=
      of_not_not fun hu => (h.access identity.uid hu).elim hnew ho
    rw [hnone]
    exact authorize_of_not_granted identity packId need hin suspension

/-- In every run in which a pack is removed only while it has no live document and nobody has
    a config of it in hand, nobody begins to write one until the deletion has answered, the
    rows are all forgotten and none is written for a pack that is gone, a deleted pack
    bequeaths nothing. -/
theorem system_bequeathsNothing (h : (system X merged packId).Reach Orderly s) :
    BequeathsNothing packId s := by
  suffices hinv : Inv packId s from hinv.bequeathsNothing
  refine h.invariant (fun t ht => ?_) fun t a t' hi hok hst => ?_
  · have hidle (j : ℕ) : (t.pack.procs j).seed = none := by rw [ht.pack.procs j]; rfl
    exact {
      tidy := ht.pack.tidy
      stored := ht.own
      live := fun d hd => (nomatch ht.pack.live.symm.trans hd)
      seed := fun j cfg hc => (nomatch (hidle j).symm.trans hc)
      old := ht.old
      gone := fun hg => absurd hg ht.gone
      clearing := fun ⟨j, hj⟩ => by rw [ht.procs j] at hj; exact hj.elim
      access := fun uid hu => .inl (ht.news uid hu)
      empty := fun _ hg => absurd hg ht.gone }
  · cases a with
    | edit a => exact hi.edit hok hst
    | begin i r => exact hi.begin hst
    | next i told => exact hi.next hok hst
    | fail i e => exact hi.fail hok hst

end Invariant

/-- A pack with a config, which grants somebody access, and nobody there. -/
def start : State (String × Json) where
  pack := Live.start (.empty "Industrial")
  access := Function.update (fun _ => none) 42 (some .edit)
  blocks := fun _ => none
  threads := []
  procs := fun _ => .idle
  gone := False
  own := fun _ => True
  news := fun _ => True
  old := fun _ => False
  fresh := fun _ => True

theorem init_start : Init start :=
  ⟨Live.init_start _, fun _ => rfl, id, fun _ _ => trivial, fun _ _ => trivial, fun _ => id⟩

/-- Nobody is suspended, and there is nothing but the config of the pack. -/
def told : Told := ⟨fun _ => none, fun _ => none, true, 0, 1, false⟩

/-- An administrator. -/
def admin : Identity := { uid := 7, login := "admin", role := .admin }

/-- A pack that grants access is deleted. -/
theorem system_bequeathsNothing_delete :
    ∃ s : State (String × Json), s.gone ∧ s.procs 0 = .deleted ∧ s.pack.stored = none ∧
      s.access 42 = none ∧ BequeathsNothing "Industrial" s := by
  have h₀ : (system .none Live.writeMembers "Industrial").Reach Orderly start := .init init_start
  have deleting := h₀.step (a := .begin 0 (.delete admin)) (by exact trivial) rfl
  have removing := deleting.step (a := .next 0 told) (by exact trivial) rfl
  have unlisting := removing.step (a := .next 0 told) (by exact fun _ => ⟨rfl, fun _ => id⟩) rfl
  have unblocking := unlisting.step (a := .next 0 told) (by exact trivial) rfl
  have unthreading := unblocking.step (a := .next 0 told) (by exact trivial) rfl
  have deleted := unthreading.step (a := .next 0 told) (by exact trivial) rfl
  exact ⟨_, trivial, rfl, rfl, rfl, system_bequeathsNothing deleted⟩

/-- Party 0 joins the pack, and then it is deleted. -/
def joinDelete : List (Act (String × Json)) :=
  let go := .edit (.next 0 fun _ => .down)
  [.edit (.begin 0 .join), go, go, .begin 0 (.delete admin), .next 0 told, .next 0 told,
    .next 0 told, .next 0 told, .next 0 told]

/-- Another pack is made under the id. -/
def remake : List (Act (String × Json)) :=
  let go := .edit (.next 0 fun _ => .down)
  [.edit (.begin 0 (.copy Live.retitled)), go, go, go, go]

/-- The deletion has answered success and nobody is there, but the document is, and the pack
    that is made under the id is edited in it. -/
theorem system_bequeathed :
    ∃ s t, (system .none Live.writeMembers "Industrial").Reachable s ∧ s.procs 0 = .deleted ∧
      s.Quiet ∧ s.gone ∧ s.pack.docs.live = some 0 ∧ ¬ BequeathsNothing "Industrial" s ∧
      (system .none Live.writeMembers "Industrial").run s remake = some t ∧
      t.pack.stored = some Live.retitled ∧ t.pack.docs.live = some 0 ∧
      (t.pack.docs.heap 0).seed = .empty "Industrial" := by
  have hrun : ∃ s t, (system .none Live.writeMembers "Industrial").run start joinDelete = some s ∧
      s.procs 0 = .deleted ∧ s.Quiet ∧ s.gone ∧ s.pack.docs.live = some 0 ∧
      (system .none Live.writeMembers "Industrial").run s remake = some t ∧
      t.pack.stored = some Live.retitled ∧ t.pack.docs.live = some 0 ∧
      (t.pack.docs.heap 0).seed = .empty "Industrial" :=
    ⟨_, _, rfl, rfl, ⟨fun | 0 => rfl | _ + 1 => rfl, fun | 0 => trivial | _ + 1 => trivial⟩,
      trivial, rfl, rfl, rfl, rfl, rfl⟩
  obtain ⟨s, t, hs, hdel, hq, hg, hl, ht⟩ := hrun
  have h₀ : (system .none Live.writeMembers "Industrial").Reachable start := .init init_start
  refine ⟨s, t, h₀.run hs, hdel, hq, hg, hl, fun h => ?_, ht⟩
  exact Option.some_ne_none 0 (hl.symm.trans (h.left hg hq).2.1)

end Deletion

end Smrt
