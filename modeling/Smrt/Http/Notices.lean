import Smrt.Accounts.Discussions
import Smrt.Domain.Pack
import Smrt.Http.Access

/-!
# Being told of a discussion

Whoever keeps a pack is told of a thread that is opened on it; whoever keeps it, opened the
thread or spoke on it is told of a comment; and the latter of a settlement, and of an issue that
is opened again (`keepersOf`, `voicesIn`). What somebody was told about a pack is forgotten when
they are let out of it (`revokeAccess`), and at no other moment.

The discussions of the mirror are a system: the requests that speak, settle, let in and out,
create a pack and publish it. Each is answered as a whole, and the rungs stay as they are.

Everything that somebody is shown is about a pack they may read (`MayRead`), as long as nobody
is told as a voice in a thread who may not read it any more, and nobody loses a pack that is
unpublished on which they were told something (`Discreet`): `system_mayRead`. Nothing sees to
that: somebody who was let out of a pack is told of the next comment on a thread of theirs, with
its title (`system_told`).
-/

namespace Smrt

namespace Notices

/-! ## States -/

/-- The accounts, what was said and told, and the visibility that the config and the card of a
    pack have. -/
structure State where
  accounts : Accounts
  discussions : Discussions
  configs : AList fun _ : String => Visibility
  cards : AList fun _ : String => Visibility

/-- What is asked; where the answer of the store of the packs matters, it comes with it: the
    commit that a proposal offers, and the one that a merge wrote. -/
inductive Request
  | openIssue (packId title body : String)
  | openProposal (packId sourcePack title body : String) (offered : Except ApiError String)
  | postComment (id : ℕ) (body : String)
  | mergeProposal (id : ℕ) (written : Except ApiError String)
  | closeThread (id : ℕ)
  | reopenThread (id : ℕ)
  | grantAccess (packId : String) (githubUid : Int64) (level : String)
  | revokeAccess (packId : String) (uid : Int64)
  | createPack (packId : String) (visibility : Visibility)
  | setPackVisibility (packId : String) (visibility : Visibility)

/-- What happens: somebody makes a request, or a pack is built, from its config or from a
    commit, which has a visibility. -/
inductive Act
  | request (headers : Headers) (now : Int64) (r : Request)
  | build (packId : String) (visibility : Visibility)

/-! ## Who is told -/

section Told

variable (s : State) (packId : String)

/-- Whether a pack is published, by its card. -/
def State.isPublished : Bool := s.cards.lookup packId = some .published

/-- Whom the namespace of a pack belongs to, or the operators of the mirror, and whom the pack
    lets edit it. -/
def State.keepersOf : List Int64 :=
  (match packNamespaceUid packId with
    | some uid => [uid]
    | none => s.accounts.users.entries.filterMap fun row =>
      if row.2.role ≠ .member then some row.1 else none) ++
  s.accounts.packAccess.entries.filterMap fun row =>
    if row.1.1 = packId ∧ PackLevel.edit.rank ≤ row.2.level.rank then some row.1.2 else none

/-- Who opened a thread, and who has spoken on it. -/
def State.voicesIn (id : ℕ) (t : ThreadRow) : List Int64 :=
  t.byUid :: s.discussions.speakersOn id

/-- People are told. -/
def State.tell (uids : List Int64) (kind : NoticeKind) (id : ℕ) (actorUid now : Int64) : State :=
  { s with discussions := s.discussions.notify uids kind id actorUid now }

end Told

/-! ## Requests -/

section Requests

variable (s : State) (identity : Identity) (now : Int64)

/-- How long the windows are in which somebody may say so much. -/
def rateWindowSecs : Int64 := 600

def threadsPerWindow : ℕ := 5

def commentsPerWindow : ℕ := 20

def withinRate (recent limit : ℕ) : Except ApiError Unit :=
  refuseIf (limit ≤ recent) (.conflict "that is a lot in a short time; give it a few minutes")

def loadThread (id : ℕ) : Except ApiError ThreadRow :=
  match s.discussions.thread id with
  | some t => .ok t
  | none => .error .notFound

/-- The threads of a published pack are public, the others for whoever may see the pack. -/
def mayReadThreads (packId : String) : Bool :=
  s.isPublished packId || s.accounts.may identity packId .view

/-- A thread is opened, and the keepers of the pack are told. -/
def openThread (packId : String) (kind : ThreadKind) (title body : String)
    (source : Option (String × String)) : State :=
  let opened := s.discussions.openThread packId kind title (trim body) identity.uid source now
  { s with discussions := opened.2 }.tell (s.keepersOf packId) .opened opened.1 identity.uid now

def openIssue (packId title body : String) : Except ApiError State := do
  (if s.isPublished packId then .ok () else s.accounts.authorize identity packId .view)
  s.accounts.notSilenced identity packId
  withinRate (s.discussions.recentThreads identity.uid (now - rateWindowSecs)) threadsPerWindow
  let title ← trimmed title "an issue needs a title"
  .ok (openThread s identity now packId .issue title body none)

def openProposal (packId sourcePack title body : String) (offered : Except ApiError String) :
    Except ApiError State := do
  s.accounts.authorize identity sourcePack .edit
  (if s.isPublished packId then .ok () else s.accounts.authorize identity packId .view)
  refuseIf (sourcePack = packId) (.badRequest "a pack cannot propose to itself; commit instead")
  s.accounts.notSilenced identity packId
  withinRate (s.discussions.recentThreads identity.uid (now - rateWindowSecs)) threadsPerWindow
  let title ← trimmed title "a proposal needs a title"
  let commit ← offered
  .ok (openThread s identity now packId .proposal title body (some (sourcePack, commit)))

/-- The thread that somebody may comment on, and the comment. -/
def mayComment (id : ℕ) (body : String) : Except ApiError (ThreadRow × String) := do
  let t ← loadThread s id
  refuseIf (¬ mayReadThreads s identity t.packId) .forbidden
  s.accounts.notSilenced identity t.packId
  withinRate (s.discussions.recentComments identity.uid (now - rateWindowSecs)) commentsPerWindow
  let body ← trimmed body "an empty comment says nothing"
  refuseIf (4000 < body.length) (.badRequest "that comment is too long")
  .ok (t, body)

/-- Somebody says something, and the voices in the thread and the keepers of the pack are
    told. -/
def postComment (id : ℕ) (body : String) : Except ApiError State := do
  let (t, body) ← mayComment s identity now id body
  match s.discussions.comment id identity.uid body now with
  | none => .error (.internal "FOREIGN KEY constraint failed")
  | some (_, discussions) =>
    let told : State := { s with discussions }
    .ok (told.tell (told.voicesIn id t ++ told.keepersOf t.packId) .comment id identity.uid now)

/-- The thread that somebody may settle: their own, or one of a pack they may edit. -/
def mayDecide (id : ℕ) : Except ApiError ThreadRow := do
  let t ← loadThread s id
  (if t.byUid = identity.uid then .ok () else s.accounts.authorize identity t.packId .edit)
  .ok t

/-- A thread is settled if it is open, and the voices in it are told. -/
def settle (id : ℕ) (t : ThreadRow) (status : ThreadStatus) (commit : Option String)
    (complaint : String) : Except ApiError State :=
  let settled := s.discussions.settleThread id status now identity.uid commit
  let told : State := { s with discussions := settled.2 }
  if settled.1 then .ok (told.tell (told.voicesIn id t) .settled id identity.uid now)
  else .error (.conflict complaint)

def closeThread (id : ℕ) : Except ApiError State := do
  let t ← mayDecide s identity id
  let mine := t.byUid = identity.uid
  let status := match t.kind with
    | .proposal => if mine then .withdrawn else .declined
    | .issue => .closed
  settle s identity now id t status none "this thread was already settled"

/-- The proposal that somebody may merge. -/
def mayMerge (id : ℕ) : Except ApiError ThreadRow := do
  let t ← loadThread s id
  s.accounts.authorize identity t.packId .edit
  refuseIf (t.status ≠ .open) (.conflict ("this proposal is already " ++ t.status.name))
  refuseIf (t.sourcePack.isNone ∨ t.sourceCommit.isNone)
    (.badRequest "this thread offers no state")
  .ok t

def mergeProposal (id : ℕ) (written : Except ApiError String) : Except ApiError State := do
  let t ← mayMerge s identity id
  let commit ← written
  settle s identity now id t .merged (some commit) "this proposal was already settled"

def reopenThread (id : ℕ) : Except ApiError State := do
  let t ← mayDecide s identity id
  let reopened := s.discussions.reopenIssue id
  let told : State := { s with discussions := reopened.2 }
  if reopened.1 then .ok (told.tell (told.voicesIn id t) .settled id identity.uid now)
  else .error (.conflict
    "only a closed issue reopens; a proposal is offered again as a new one")

def grantAccess (debug : String → String) (packId : String) (githubUid : Int64)
    (level : String) : Except ApiError State :=
  (Access.grantAccess debug identity now s.accounts packId githubUid level).map fun accounts =>
    { s with accounts }

/-- Somebody is let out of a pack, and what they were told about it is forgotten. -/
def revokeAccess (packId : String) (uid : Int64) : Except ApiError State :=
  (Access.revokeAccess identity s.accounts packId uid).map fun accounts =>
    { s with accounts, discussions := s.discussions.forgetNotificationsAbout packId uid }

/-- A pack is created as its config is written; one that is there keeps its visibility. -/
def createPack (packId : String) (visibility : Visibility) : Except ApiError State := do
  s.accounts.authorize identity packId .edit
  .ok (if packId ∈ s.configs then s
    else { s with configs := s.configs.insert packId visibility })

/-- The visibility of a pack is set, in its card and in its config. -/
def setPackVisibility (packId : String) (visibility : Visibility) : Except ApiError State := do
  s.accounts.authorize identity packId .own
  refuseIf (¬ isSafeId packId) (.badRequest "invalid pack id")
  refuseIf (packId ∉ s.cards ∧ packId ∉ s.configs) .notFound
  .ok { s with
    cards := if packId ∈ s.cards then s.cards.insert packId visibility else s.cards
    configs := if packId ∈ s.configs then s.configs.insert packId visibility else s.configs }

end Requests

/-! ## Steps -/

section Step

variable (config : MirrorConfig) (debug : String → String)

def handle (s : State) (identity : Identity) (now : Int64) : Request → Except ApiError State
  | .openIssue packId title body => openIssue s identity now packId title body
  | .openProposal packId sourcePack title body offered =>
    openProposal s identity now packId sourcePack title body offered
  | .postComment id body => postComment s identity now id body
  | .mergeProposal id written => mergeProposal s identity now id written
  | .closeThread id => closeThread s identity now id
  | .reopenThread id => reopenThread s identity now id
  | .grantAccess packId githubUid level => grantAccess s identity now debug packId githubUid level
  | .revokeAccess packId uid => revokeAccess s identity packId uid
  | .createPack packId visibility => createPack s identity packId visibility
  | .setPackVisibility packId visibility => setPackVisibility s identity packId visibility

/-- A request is answered; one that is refused changes nothing. -/
def serve (s : State) (headers : Headers) (now : Int64) (r : Request) :
    Except ApiError Unit × State :=
  let (identity, accounts) := s.accounts.resolveIdentity config headers now
  let s : State := { s with accounts }
  match identity with
  | none => (.error .unauthorized, s)
  | some identity => match handle debug s identity now r with
    | .ok s => (.ok (), s)
    | .error e => (.error e, s)

/-- A build of a pack writes its card. -/
def build (s : State) (packId : String) (visibility : Visibility) : Option State :=
  if packId ∈ s.configs then some { s with cards := s.cards.insert packId visibility } else none

def step (s : State) : Act → Option State
  | .request headers now r => some (serve config debug s headers now r).2
  | .build packId visibility => build s packId visibility

/-- The discussions, from any accounts, nothing having been said and no pack created. -/
def system : System State Act where
  init s := s.discussions = .empty ∧ s.configs = ∅ ∧ s.cards = ∅
  step := step config debug

end Step

/-! ## What may be shown -/

/-- An account may read the discussions of a pack. -/
def State.MayRead (s : State) (packId : String) (uid : Int64) : Prop :=
  s.isPublished packId = true ∨ s.accounts.mayUid packId uid .view = true

/-- The voices in a thread that are told of an act on it may read it. -/
def State.Heard (s : State) (id : ℕ) (t : ThreadRow) (actorUid : Int64) : Prop :=
  ∀ uid ∈ Discussions.audience (s.voicesIn id t) actorUid, s.MayRead t.packId uid

/-- Whoever was told something about a pack may see it, published or not. -/
def State.Known (s : State) (packId : String) : Prop :=
  ∀ id n t, s.discussions.notifications.get? id = some n →
    s.discussions.thread n.threadId = some t → t.packId = packId →
    s.accounts.mayUid packId n.uid .view = true

/-- A request that is let through and has people told of an act on a thread tells no voice that
    may not read it, and one that unpublishes a pack takes it from nobody who was told. -/
def DiscreetRequest (s : State) (identity : Identity) (now : Int64) : Request → Prop
  | .postComment id body =>
    ∀ t text, mayComment s identity now id body = .ok (t, text) → s.Heard id t identity.uid
  | .closeThread id =>
    ∀ t, mayDecide s identity id = .ok t → t.status = .open → s.Heard id t identity.uid
  | .reopenThread id =>
    ∀ t, mayDecide s identity id = .ok t → t.kind = .issue → t.status = .closed →
      s.Heard id t identity.uid
  | .mergeProposal id written =>
    ∀ t commit, mayMerge s identity id = .ok t → written = .ok commit → s.Heard id t identity.uid
  | .setPackVisibility packId visibility =>
    s.accounts.authorize identity packId .own = .ok () → s.isPublished packId = true →
      visibility ≠ .published → s.Known packId
  | _ => True

/-- What the actions have to keep to for nobody to be shown what they may not read. -/
def Discreet (config : MirrorConfig) (s : State) : Act → Prop
  | .request headers now r =>
    ∀ identity, (s.accounts.resolveIdentity config headers now).1 = some identity →
      DiscreetRequest s identity now r
  | .build packId visibility =>
    s.isPublished packId = true → visibility ≠ .published → s.Known packId

/-- What everybody was told is of a thread that is there, and that they may read. -/
def Inv (s : State) : Prop :=
  ∀ id n, s.discussions.notifications.get? id = some n →
    ∃ t, s.discussions.thread n.threadId = some t ∧ s.MayRead t.packId n.uid

section Invariant

variable {config : MirrorConfig} {debug : String → String} {s s' : State} {packId : String}
  {uid : Int64} {identity : Identity} {now : Int64} {id : ℕ} {t : ThreadRow}

/-- Whoever has a level on a pack may see it. -/
theorem mayUid_view {a : Accounts} : a.mayUid packId uid .view = true ↔
    ((inherentLevel ((a.identityOf uid).getD ⟨uid, "", .member⟩) packId).or
      (a.packAccessLevel packId uid)).isSome := by
  rw [Accounts.mayUid, Accounts.may, toBool_eq_true, Accounts.authorize, authorize_eq_ok,
    Accounts.identityOf_getD_uid, Option.isSome_iff_exists]
  exact ⟨fun ⟨_, l, hl, _⟩ => ⟨l, hl⟩, fun ⟨l, hl⟩ =>
    ⟨fun h => absurd h (by decide), l, hl, Nat.zero_le _⟩⟩

/-- The keepers of a pack may see it. -/
theorem mayUid_of_mem_keepersOf (h : uid ∈ s.keepersOf packId) :
    s.accounts.mayUid packId uid .view = true := by
  rw [mayUid_view, Option.isSome_or, Bool.or_eq_true, inherentLevel.eq_def,
    Accounts.identityOf_getD_uid]
  rcases List.mem_append.1 h with hkeeps | hgrant
  · refine .inl ?_
    split_ifs with hadmin
    · rfl
    · rcases hp : packNamespaceUid packId with _ | owner <;> rw [hp] at hkeeps
      · -- A pack that is in no namespace is kept by the operators, who own every pack.
        obtain ⟨⟨u, user⟩, hmem, hrow⟩ := List.mem_filterMap.1 hkeeps
        split_ifs at hrow with hrole
        obtain rfl : u = uid := Option.some.inj hrow
        have hu : s.accounts.users.lookup u = some user := AList.mem_lookup_iff.2 hmem
        refine absurd ?_ hadmin
        rw [Accounts.identityOf, hu]
        change Role.admin.rank ≤ user.role.rank
        revert hrole
        cases user.role <;> decide
      · obtain rfl := List.mem_singleton.1 hkeeps
        simp
  · obtain ⟨⟨⟨p, u⟩, grant⟩, hmem, hrow⟩ := List.mem_filterMap.1 hgrant
    split_ifs at hrow with hlevel
    obtain rfl : u = uid := Option.some.inj hrow
    obtain rfl : p = packId := hlevel.1
    refine .inr ?_
    rw [Accounts.packAccessLevel, AList.mem_lookup_iff.2 hmem]
    rfl

/-- A thread that is there stays, of the same pack. -/
def KeepsThreads (s s' : State) : Prop :=
  ∀ id t, s.discussions.thread id = some t →
    ∃ t', s'.discussions.thread id = some t' ∧ t'.packId = t.packId

/-- Nobody is told anything new, the threads stay, and nobody who was told loses their pack. -/
theorem Inv.mono (h : Inv s)
    (hold : ∀ id n, s'.discussions.notifications.get? id = some n →
      s.discussions.notifications.get? id = some n)
    (hthreads : KeepsThreads s s')
    (hread : ∀ id n t, s'.discussions.notifications.get? id = some n →
      s.discussions.thread n.threadId = some t → s.MayRead t.packId n.uid →
      s'.MayRead t.packId n.uid) : Inv s' := by
  intro id n hn
  obtain ⟨t, ht, hm⟩ := h id n (hold id n hn)
  obtain ⟨t', ht', hp⟩ := hthreads n.threadId t ht
  exact ⟨t', ht', hp ▸ hread id n t hn ht hm⟩

/-- More people are told, who may read the thread. -/
theorem Inv.tell (h : Inv s) {uids : List Int64} {kind : NoticeKind} {actorUid : Int64}
    (ht : s.discussions.thread id = some t)
    (huids : ∀ uid ∈ Discussions.audience uids actorUid, s.MayRead t.packId uid) :
    Inv (s.tell uids kind id actorUid now) := by
  intro i n hn
  have hthread : (s.tell uids kind id actorUid now).discussions.thread = s.discussions.thread := by
    funext j
    exact congrArg (fun rows => rows.get? j) Discussions.notify_threads
  rw [hthread]
  rcases Discussions.notify_get? hn with hold | ⟨hid, haud⟩
  · exact h i n hold
  · exact ⟨t, hid ▸ ht, huids n.uid haud⟩

/-! ### Speaking -/

theorem Inv.openThread (h : Inv s) {kind : ThreadKind} {title body : String}
    {source : Option (String × String)} :
    Inv (openThread s identity now packId kind title body source) := by
  let opened := s.discussions.openThread packId kind title (trim body) identity.uid source now
  have hinv : Inv { s with discussions := opened.2 } := by
    refine h.mono (fun _ _ hn => hn) (fun i t ht => ⟨t, ?_, rfl⟩) fun _ _ _ _ _ hr => hr
    -- The new thread has a fresh id.
    exact (Table.get?_insert_of_ne (Table.lt_nextId_of_get? ht).ne).trans ht
  exact hinv.tell Table.get?_insert_nextId fun uid haud =>
    .inr (mayUid_of_mem_keepersOf (Discussions.mem_audience.1 haud).1)

/-- The thread that somebody comments on, or decides, is there. -/
theorem loadThread_eq_ok (h : loadThread s id = .ok t) : s.discussions.thread id = some t := by
  rw [loadThread] at h
  rcases ht : s.discussions.thread id with _ | t' <;> rw [ht] at h
  · cases h
  · exact congrArg some (Except.ok.inj h)

theorem mayComment_eq_ok {body text : String}
    (h : mayComment s identity now id body = .ok (t, text)) :
    s.discussions.thread id = some t := by
  simp only [mayComment, bind_eq_ok] at h
  obtain ⟨t', ht, _, _, _, _, _, _, _, _, _, _, h⟩ := h
  obtain ⟨rfl, -⟩ := Prod.mk.inj (Except.ok.inj h)
  exact loadThread_eq_ok ht

theorem mayDecide_eq_ok (h : mayDecide s identity id = .ok t) :
    s.discussions.thread id = some t := by
  simp only [mayDecide, bind_eq_ok] at h
  obtain ⟨t', ht, _, _, h⟩ := h
  exact Except.ok.inj h ▸ loadThread_eq_ok ht

theorem mayMerge_eq_ok (h : mayMerge s identity id = .ok t) :
    s.discussions.thread id = some t := by
  simp only [mayMerge, bind_eq_ok] at h
  obtain ⟨t', ht, _, _, _, _, _, _, h⟩ := h
  exact Except.ok.inj h ▸ loadThread_eq_ok ht

/-- Somebody speaks: the keepers of the pack are told, and the voices, which may read it. -/
theorem Inv.postComment (h : Inv s) {body : String}
    (hheard : ∀ t text, mayComment s identity now id body = .ok (t, text) →
      s.Heard id t identity.uid)
    (hs : postComment s identity now id body = .ok s') : Inv s' := by
  obtain ⟨⟨t, text⟩, ht, hs⟩ := bind_eq_ok.1 hs
  have hthread := mayComment_eq_ok ht
  simp only [Discussions.comment, hthread, Option.isSome_some, if_true] at hs
  obtain rfl := Except.ok.inj hs
  let comments := s.discussions.comments.insert ⟨id, identity.uid, text, now, none, none⟩
  have hinv : Inv { s with discussions := { s.discussions with comments } } :=
    h.mono (fun _ _ hn => hn) (fun i t ht => ⟨t, ht, rfl⟩) fun _ _ _ _ _ hr => hr
  refine hinv.tell hthread fun uid haud => ?_
  obtain ⟨huid, hactor, hzero⟩ := Discussions.mem_audience.1 haud
  rcases List.mem_append.1 huid with hvoice | hkeeper
  · -- Who speaks is a voice now, but is not told of what they say.
    refine hheard t text ht uid (Discussions.mem_audience.2 ⟨?_, hactor, hzero⟩)
    rcases List.mem_cons.1 hvoice with rfl | hspeaker
    · exact List.mem_cons_self
    · obtain ⟨i, c, hc, hid, hby⟩ := Discussions.mem_speakersOn.1 hspeaker
      rw [Table.get?_insert] at hc
      split_ifs at hc
      · obtain rfl := Option.some.inj hc
        exact absurd hby.symm hactor
      · exact List.mem_cons_of_mem _ (Discussions.mem_speakersOn.2 ⟨i, c, hc, hid, hby⟩)
  · exact .inr (mayUid_of_mem_keepersOf hkeeper)

/-! ### Deciding -/

/-- A row of the threads is changed, which stays of its pack, and the voices are told. -/
theorem Inv.modify (h : Inv s) {f : ThreadRow → ThreadRow} (hf : ∀ t, (f t).packId = t.packId)
    (ht : s.discussions.thread id = some t) {actorUid : Int64} (hheard : s.Heard id t actorUid) :
    Inv (State.tell { s with
      discussions := { s.discussions with threads := s.discussions.threads.modify id f } }
        (s.voicesIn id t) .settled id actorUid now) := by
  let threads := s.discussions.threads.modify id f
  have hthread {t : ThreadRow} (ht : s.discussions.thread id = some t) :
      threads.get? id = some (f t) :=
    Table.get?_modify_self.trans (congrArg (Option.map f) ht)
  have hinv : Inv { s with discussions := { s.discussions with threads } } := by
    refine h.mono (fun _ _ hn => hn) (fun i t ht => ?_) fun _ _ _ _ _ hr => hr
    by_cases hi : i = id
    · exact ⟨f t, hi ▸ hthread (hi ▸ ht), hf t⟩
    · exact ⟨t, (Table.get?_modify_of_ne hi).trans ht, rfl⟩
  exact hinv.tell (hthread ht) fun uid haud => (hf t).symm ▸ hheard uid haud

theorem Inv.settle (h : Inv s) {status : ThreadStatus} {commit : Option String}
    {complaint : String} (ht : s.discussions.thread id = some t)
    (hheard : t.status = .open → s.Heard id t identity.uid)
    (hs : settle s identity now id t status commit complaint = .ok s') : Inv s' := by
  simp only [Notices.settle, Discussions.settleThread, ht, Option.any_some] at hs
  split_ifs at hs with hsettled
  obtain rfl := Except.ok.inj hs
  refine h.modify (fun t => ?_) ht (hheard (of_not_not fun hopen => ?_))
  · change (Smrt.settleThread t.toThread status now identity.uid commit).1.packId = t.packId
    rw [Smrt.settleThread]
    split_ifs <;> rfl
  · rw [settleThread_of_not_open hopen] at hsettled
    exact Bool.false_ne_true hsettled

theorem Inv.closeThread (h : Inv s) (hheard : ∀ t, mayDecide s identity id = .ok t →
    t.status = .open → s.Heard id t identity.uid)
    (hs : closeThread s identity now id = .ok s') : Inv s' := by
  obtain ⟨t, ht, hs⟩ := bind_eq_ok.1 hs
  exact h.settle (mayDecide_eq_ok ht) (hheard t ht) hs

theorem Inv.mergeProposal (h : Inv s) {written : Except ApiError String}
    (hheard : ∀ t commit, mayMerge s identity id = .ok t → written = .ok commit →
      s.Heard id t identity.uid)
    (hs : mergeProposal s identity now id written = .ok s') : Inv s' := by
  obtain ⟨t, ht, hs⟩ := bind_eq_ok.1 hs
  obtain ⟨commit, hw, hs⟩ := bind_eq_ok.1 hs
  exact h.settle (mayMerge_eq_ok ht) (fun _ => hheard t commit ht hw) hs

theorem Inv.reopenThread (h : Inv s) (hheard : ∀ t, mayDecide s identity id = .ok t →
    t.kind = .issue → t.status = .closed → s.Heard id t identity.uid)
    (hs : reopenThread s identity now id = .ok s') : Inv s' := by
  obtain ⟨t, hd, hs⟩ := bind_eq_ok.1 hs
  have ht := mayDecide_eq_ok hd
  simp only [Discussions.reopenIssue, ht, Option.any_some] at hs
  split_ifs at hs with hclosed
  obtain rfl := Except.ok.inj hs
  obtain ⟨hkind, hstatus⟩ := of_decide_eq_true hclosed
  refine h.modify (fun t => ?_) ht (hheard t hd hkind hstatus)
  split_ifs <;> rfl

/-! ### Letting in and out -/

theorem Inv.grantAccess (h : Inv s) {level : String}
    (hs : grantAccess s identity now debug packId uid level = .ok s') : Inv s' := by
  obtain ⟨a, ha, rfl⟩ := map_eq_ok.1 hs
  obtain ⟨-, -, l, -, rfl⟩ := Access.grantAccess_eq_ok ha
  refine h.mono (fun _ _ hn => hn) (fun i t ht => ⟨t, ht, rfl⟩) fun i n t _ _ hread => ?_
  refine hread.imp_right fun hmay => ?_
  -- Whoever is granted something may see the pack, and nobody else is affected.
  rw [mayUid_view, Option.isSome_or, Bool.or_eq_true] at hmay ⊢
  refine hmay.imp_right fun hlevel => ?_
  rw [Accounts.packAccessLevel] at hlevel ⊢
  by_cases hk : (t.packId, n.uid) = (packId, uid)
  · rw [hk, AList.lookup_insert]
    rfl
  · rw [AList.lookup_insert_ne hk]
    exact hlevel

theorem Inv.revokeAccess (h : Inv s)
    (hs : revokeAccess s identity packId uid = .ok s') : Inv s' := by
  obtain ⟨a, ha, rfl⟩ := map_eq_ok.1 hs
  obtain ⟨-, rfl⟩ := Access.revokeAccess_eq_ok ha
  have hkept {i : ℕ} {n : Notice} (hn : (s.discussions.forgetNotificationsAbout packId
      uid).notifications.get? i = some n) : s.discussions.notifications.get? i = some n ∧
        ¬ (n.uid = uid ∧ (s.discussions.thread n.threadId).any fun t => t.packId = packId) := by
    rw [Discussions.forgetNotificationsAbout, Table.get?_filter, Option.filter_eq_some_iff] at hn
    exact ⟨hn.1, of_decide_eq_true hn.2⟩
  refine h.mono (fun i n hn => (hkept hn).1) (fun i t ht => ⟨t, ht, rfl⟩)
    fun i n t hn ht hread => ?_
  refine hread.imp_right fun hmay => ?_
  -- What they were told about the pack is forgotten, so this is somebody else, or another pack.
  have hk : (t.packId, n.uid) ≠ (packId, uid) := by
    intro hk
    obtain ⟨hp, hu⟩ := Prod.mk.inj hk
    exact (hkept hn).2 ⟨hu, by rw [ht]; simpa using hp⟩
  rw [mayUid_view, Option.isSome_or, Bool.or_eq_true] at hmay ⊢
  refine hmay.imp_right fun hlevel => ?_
  rw [Accounts.packAccessLevel] at hlevel ⊢
  change ((s.accounts.packAccess.erase (packId, uid)).lookup _).map _ |>.isSome
  rw [AList.lookup_erase_ne hk]
  exact hlevel

/-! ### Publishing -/

/-- The card of a pack changes: who was told something about it may see it, or it is still
    published. -/
theorem Inv.card (h : Inv s) (packId : String) {cards configs : AList fun _ : String => Visibility}
    (hcards : ∀ p, p ≠ packId → cards.lookup p = s.cards.lookup p)
    (hpack : s.isPublished packId = true → cards.lookup packId = some .published ∨ s.Known packId) :
    Inv { s with cards, configs } := by
  refine h.mono (fun _ _ hn => hn) (fun i t ht => ⟨t, ht, rfl⟩) fun i n t hn ht hread => ?_
  rcases hread with hpub | hmay
  · by_cases hp : t.packId = packId
    · rcases hpack (hp ▸ hpub) with hcard | hknown
      · exact .inl (decide_eq_true (hp ▸ hcard))
      · exact .inr (hp ▸ hknown i n t hn ht hp)
    · refine .inl (decide_eq_true ?_)
      rw [hcards _ hp]
      exact of_decide_eq_true hpub
  · exact .inr hmay

theorem Inv.setPackVisibility (h : Inv s) {visibility : Visibility}
    (hknown : s.accounts.authorize identity packId .own = .ok () → s.isPublished packId = true →
      visibility ≠ .published → s.Known packId)
    (hs : setPackVisibility s identity packId visibility = .ok s') : Inv s' := by
  simp only [Notices.setPackVisibility, bind_eq_ok] at hs
  obtain ⟨_, hauth, _, _, _, _, hs⟩ := hs
  obtain rfl := Except.ok.inj hs
  refine h.card packId (fun p hp => ?_) fun hpub => ?_
  · split_ifs
    · exact AList.lookup_insert_ne hp
    · rfl
  · have hmem : packId ∈ s.cards := AList.lookup_isSome.1 (of_decide_eq_true hpub ▸ rfl)
    rw [if_pos hmem, AList.lookup_insert, Option.some.injEq]
    exact or_iff_not_imp_left.2 (hknown hauth hpub)

theorem Inv.build (h : Inv s) {visibility : Visibility}
    (hknown : s.isPublished packId = true → visibility ≠ .published → s.Known packId)
    (hs : build s packId visibility = some s') : Inv s' := by
  rw [Notices.build] at hs
  split_ifs at hs
  obtain rfl := Option.some.inj hs
  refine h.card packId (fun p hp => AList.lookup_insert_ne hp) fun hpub => ?_
  rw [AList.lookup_insert, Option.some.injEq]
  exact or_iff_not_imp_left.2 (hknown hpub)

theorem Inv.createPack (h : Inv s) {visibility : Visibility}
    (hs : createPack s identity packId visibility = .ok s') : Inv s' := by
  obtain ⟨_, -, hs⟩ := bind_eq_ok.1 hs
  obtain rfl := Except.ok.inj hs
  split_ifs
  · exact h
  · exact h

/-! ## Runs -/

theorem Inv.handle (h : Inv s) {r : Request} (hr : DiscreetRequest s identity now r)
    (hs : handle debug s identity now r = .ok s') : Inv s' := by
  cases r with
  | openIssue packId title body =>
    simp only [Notices.handle, openIssue, bind_eq_ok] at hs
    obtain ⟨_, _, _, _, _, _, _, _, hs⟩ := hs
    exact Except.ok.inj hs ▸ h.openThread
  | openProposal packId sourcePack title body offered =>
    simp only [Notices.handle, openProposal, bind_eq_ok] at hs
    obtain ⟨_, _, _, _, _, _, _, _, _, _, _, _, _, _, hs⟩ := hs
    exact Except.ok.inj hs ▸ h.openThread
  | postComment id body => exact h.postComment hr hs
  | mergeProposal id written => exact h.mergeProposal hr hs
  | closeThread id => exact h.closeThread hr hs
  | reopenThread id => exact h.reopenThread hr hs
  | grantAccess packId githubUid level => exact h.grantAccess hs
  | revokeAccess packId uid => exact h.revokeAccess hs
  | createPack packId visibility => exact h.createPack hs
  | setPackVisibility packId visibility => exact h.setPackVisibility hr hs

/-- A request is answered. -/
theorem Inv.serve (h : Inv s) {headers : Headers} {r : Request}
    (hok : Discreet config s (.request headers now r)) :
    Inv (serve config debug s headers now r).2 := by
  obtain ⟨sessions, hs⟩ := Access.resolveIdentity_snd config s.accounts headers now
  have hid := hok
  simp only [Discreet] at hid
  rw [Notices.serve]
  rcases hr : s.accounts.resolveIdentity config headers now with ⟨_ | identity, b⟩ <;>
    rw [hr] at hs hid
  · obtain rfl : b = _ := hs
    exact h
  · obtain rfl : b = _ := hs
    simp only
    cases hh : Notices.handle debug { s with accounts := { s.accounts with sessions } } identity now
        r with
    | error e => exact h
    | ok t =>
      exact Inv.handle (s := { s with accounts := { s.accounts with sessions } }) h
        (by cases r <;> exact hid identity rfl) hh

/-- In every run in which no voice that may not read a thread is told of it, and no pack on
    which somebody was told something is unpublished to them, everything that anybody is shown
    is about a pack they may read. -/
theorem system_mayRead (h : (system config debug).Reach (Discreet config) s) (unreadOnly : Bool)
    (after : Option ℤ) (limit : Option ℕ) :
    ∀ n ∈ s.discussions.notificationsFor s.accounts uid unreadOnly after limit,
      s.MayRead n.packId uid := by
  suffices hinv : Inv s by
    intro n hn
    obtain ⟨notice, t, hrow, rfl, ht, hp, -⟩ := Discussions.of_mem_notificationsFor hn
    obtain ⟨t', ht', hread⟩ := hinv n.id notice hrow
    obtain rfl := Option.some.inj (ht.symm.trans ht')
    exact hp ▸ hread
  refine h.invariant (fun s hs => ?_) fun s a s' hi hok hst => ?_
  · intro id n hn
    rw [hs.1] at hn
    cases hn
  · cases a with
    | request headers now r =>
      obtain rfl := Option.some.inj hst
      exact hi.serve hok
    | build packId visibility => exact hi.build hok hst

end Invariant

/-- Accounts 42 and 43 have signed in. -/
def start : State where
  accounts := { Accounts.empty with
    users := (∅ : AList fun _ : Int64 => User).insert 42 ⟨"reader", .member⟩ |>.insert 43
      ⟨"other", .member⟩
    sessions := (∅ : AList fun _ : String => Session).insert "reader" ⟨42, 1000⟩ |>.insert "other"
      ⟨43, 1000⟩ }
  discussions := .empty
  configs := ∅
  cards := ∅

/-- A pack is created, which nobody has published; account 43 may edit it, and account 42 may
    see it. -/
def letIn : List Act :=
  [.request Access.operator 1 (.createPack "Industrial" .draft),
    .request Access.operator 1 (.grantAccess "Industrial" 43 "edit"),
    .request Access.operator 1 (.grantAccess "Industrial" 42 "view")]

/-- Account 42 reports something. -/
def report : Act :=
  .request (Access.session "reader") 2 (.openIssue "Industrial" "It crashes" "")

/-- What an account is shown. -/
def shown (s : State) (uid : Int64) : List (String × String) :=
  (s.discussions.notificationsFor s.accounts uid false none none).map fun n => (n.packId, n.title)

/-- Who keeps a pack is shown the report. -/
theorem system_mayRead_opened :
    ∃ s, (system Access.tokened id).Reachable s ∧ shown s 43 = [("Industrial", "It crashes")] ∧
      ∀ n ∈ s.discussions.notificationsFor s.accounts 43 false none none,
        s.MayRead n.packId 43 := by
  have h₀ : (system Access.tokened id).Reach (Discreet Access.tokened) start := .init ⟨rfl, rfl, rfl⟩
  have created := h₀.step (a := .request Access.operator 1 (.createPack "Industrial" .draft))
    (by exact fun _ _ => trivial) rfl
  have keeper := created.step
    (a := .request Access.operator 1 (.grantAccess "Industrial" 43 "edit"))
    (by exact fun _ _ => trivial) rfl
  have reader := keeper.step
    (a := .request Access.operator 1 (.grantAccess "Industrial" 42 "view"))
    (by exact fun _ _ => trivial) rfl
  have reported := reader.step (a := report) (by exact fun _ _ => trivial) rfl
  exact ⟨_, reported.mono fun _ _ _ => trivial, by decide +kernel,
    system_mayRead reported false none none⟩

/-- Who was let out of a pack that is not published is told of the next comment on their report,
    under its title. -/
theorem system_told :
    ∃ s, (system Access.tokened id).Reachable s ∧ ("Industrial", "It crashes") ∈ shown s 42 ∧
      ¬ s.MayRead "Industrial" 42 := by
  have hrun : ((system Access.tokened id).run start (letIn ++
      [report, .request Access.operator 3 (.revokeAccess "Industrial" 42),
        .request Access.operator 4 (.postComment 1 "Not any more")])).map
        (fun s => (shown s 42, s.isPublished "Industrial", s.accounts.mayUid "Industrial" 42 .view)) =
      some ([("Industrial", "It crashes")], false, false) := by
    decide +kernel
  obtain ⟨s, hs, h⟩ := Option.map_eq_some_iff.1 hrun
  simp only [Prod.mk.injEq] at h
  obtain ⟨hshown, hpub, hmay⟩ := h
  have h₀ : (system Access.tokened id).Reachable start := .init ⟨rfl, rfl, rfl⟩
  refine ⟨s, h₀.run hs, hshown ▸ List.mem_singleton_self _, fun hread => ?_⟩
  rcases hread with hread | hread
  · exact Bool.false_ne_true (hpub.symm.trans hread)
  · exact Bool.false_ne_true (hmay.symm.trans hread)

end Notices

end Smrt
