import Smrt.Accounts.Store
import Smrt.Accounts.Threads
import Smrt.Lib.Table

/-!
# Discussions

The threads of the packs, what people said on them, and what people were told. A comment and a
notification are of a thread: none is added to a thread that is not there, and they go with it
when the threads of a pack are forgotten (`forgetPackThreads`).

A list of notifications takes the pack and the title from the thread as it is when the list is
read (`notificationsFor`).
-/

namespace Smrt

/-- A thread with its words. -/
structure ThreadRow extends Thread where
  title : String
  body : String
  createdAt : Int64
  deriving DecidableEq

/-- What somebody said on a thread; a moderator may have hidden it. -/
structure Comment where
  threadId : ℕ
  byUid : Int64
  body : String
  createdAt : Int64
  hiddenAt : Option Int64
  hiddenBy : Option Int64
  deriving DecidableEq

/-- What somebody is told of: that somebody spoke, that a thread was opened on a pack they keep,
    or that theirs was settled, or opened again. -/
inductive NoticeKind
  | comment
  | opened
  | settled
  deriving DecidableEq

/-- That somebody was told of a thread. -/
structure Notice where
  uid : Int64
  kind : NoticeKind
  threadId : ℕ
  actorUid : Int64
  createdAt : Int64
  readAt : Option Int64
  deriving DecidableEq

/-- What somebody is shown of it, with the words of the thread. -/
structure Notification where
  id : ℕ
  kind : NoticeKind
  threadId : ℕ
  packId : String
  title : String
  status : ThreadStatus
  actorUid : Int64
  actorLogin : Option String
  createdAt : Int64
  read : Bool
  deriving DecidableEq

/-- The tables of the discussions. -/
structure Discussions where
  threads : Table ThreadRow
  comments : Table Comment
  notifications : Table Notice

namespace Discussions

/-- Nobody has said anything. -/
def empty : Discussions := ⟨.empty, .empty, .empty⟩

variable (d : Discussions)

/-! ## Threads -/

/-- A thread is opened, on the offer of a commit of another pack if it is a proposal. -/
def openThread (packId : String) (kind : ThreadKind) (title body : String) (byUid : Int64)
    (source : Option (String × String)) (now : Int64) : ℕ × Discussions :=
  let row : ThreadRow :=
    { id := Int64.ofNat d.threads.nextId
      packId
      kind
      byUid
      status := .open
      sourcePack := source.map Prod.fst
      sourceCommit := source.map Prod.snd
      mergedCommit := none
      decidedAt := none
      decidedBy := none
      title
      body
      createdAt := now }
  (d.threads.nextId, { d with threads := d.threads.insert row })

def thread (id : ℕ) : Option ThreadRow := d.threads.get? id

/-- A thread is settled, if it is open. -/
def settleThread (id : ℕ) (status : ThreadStatus) (now decidedBy : Int64)
    (mergedCommit : Option String) : Bool × Discussions :=
  let settle (t : ThreadRow) := Smrt.settleThread t.toThread status now decidedBy mergedCommit
  ((d.thread id).any fun t => (settle t).2,
    { d with threads := d.threads.modify id fun t => { t with toThread := (settle t).1 } })

/-- A closed issue is opened again. -/
def reopenIssue (id : ℕ) : Bool × Discussions :=
  let closed (t : ThreadRow) : Bool := t.kind = .issue ∧ t.status = .closed
  ((d.thread id).any closed,
    { d with threads := d.threads.modify id fun t =>
        if closed t then { t with status := .open, decidedAt := none, decidedBy := none } else t })

/-- The threads of a pack go, from either side of a proposal, and what hangs on them. -/
def forgetPackThreads (packId : String) : Discussions :=
  let threads := d.threads.filter fun _ t => t.packId ≠ packId ∧ t.sourcePack ≠ some packId
  { threads
    comments := d.comments.filter fun _ c => (threads.get? c.threadId).isSome
    notifications := d.notifications.filter fun _ n => (threads.get? n.threadId).isSome }

/-! ## Comments -/

/-- Somebody says something, on a thread that is there. -/
def comment (threadId : ℕ) (byUid : Int64) (body : String) (now : Int64) :
    Option (ℕ × Discussions) :=
  if (d.thread threadId).isSome then
    some (d.comments.nextId,
      { d with comments := d.comments.insert ⟨threadId, byUid, body, now, none, none⟩ })
  else none

/-- The thread that a comment is on. -/
def threadOfComment (id : ℕ) : Option ℕ := (d.comments.get? id).map Comment.threadId

/-- A comment is taken down, or put back. -/
def setCommentHidden (id : ℕ) (hidden : Bool) (byUid now : Int64) : Bool × Discussions :=
  ((d.comments.get? id).isSome,
    { d with comments := d.comments.modify id fun c =>
        if hidden then { c with hiddenAt := some now, hiddenBy := some byUid }
        else { c with hiddenAt := none, hiddenBy := none } })

/-- Everyone who has said something on a thread. -/
def speakersOn (threadId : ℕ) : List Int64 :=
  (d.comments.rows.filterMap fun row =>
    if row.2.threadId = threadId then some row.2.byUid else none).dedup

/-- How many threads somebody opened since a moment. -/
def recentThreads (byUid since : Int64) : ℕ :=
  (d.threads.rows.filter fun row => row.2.byUid = byUid ∧ since < row.2.createdAt).length

/-- How many comments somebody wrote since a moment. -/
def recentComments (byUid since : Int64) : ℕ :=
  (d.comments.rows.filter fun row => row.2.byUid = byUid ∧ since < row.2.createdAt).length

/-! ## Notifications -/

/-- Who is told: each once, and neither whose act it was nor the mirror's own hand. -/
def audience (uids : List Int64) (actorUid : Int64) : List Int64 :=
  ((uids.filter fun u => u ≠ actorUid ∧ u ≠ Accounts.breakGlassUid).insertionSort (· ≤ ·)).dedup

/-- People are told of a thread that is there. -/
def notify (uids : List Int64) (kind : NoticeKind) (threadId : ℕ) (actorUid now : Int64) :
    Discussions :=
  if (d.thread threadId).isSome then
    { d with notifications := (audience uids actorUid).foldl (fun rows uid =>
        rows.insert ⟨uid, kind, threadId, actorUid, now, none⟩) d.notifications }
  else d

/-- What somebody was told about a pack is forgotten. -/
def forgetNotificationsAbout (packId : String) (uid : Int64) : Discussions :=
  { d with notifications := d.notifications.filter fun _ n =>
      ¬ (n.uid = uid ∧ (d.thread n.threadId).any fun t => t.packId = packId) }

/-- What somebody was told, the newest first, on from a last id, and so many at most. -/
def notificationsFor (a : Accounts) (uid : Int64) (unreadOnly : Bool) (after : Option ℤ)
    (limit : Option ℕ) : List Notification :=
  let rows := d.notifications.rows.reverse.filterMap fun (id, n) =>
    match d.thread n.threadId with
    | none => none
    | some t =>
      if n.uid = uid ∧ (unreadOnly → n.readAt = none) ∧ (∀ last ∈ after, (id : ℤ) < last) then
        some
          { id
            kind := n.kind
            threadId := n.threadId
            packId := t.packId
            title := t.title
            status := t.status
            actorUid := n.actorUid
            actorLogin := (a.users.lookup n.actorUid).map User.login
            createdAt := n.createdAt
            read := n.readAt.isSome }
      else none
  match limit with
  | some most => rows.take most
  | none => rows

/-! ## What is told -/

variable {d}

theorem mem_audience {uids : List Int64} {actorUid uid : Int64} :
    uid ∈ audience uids actorUid ↔
      uid ∈ uids ∧ uid ≠ actorUid ∧ uid ≠ Accounts.breakGlassUid := by
  simp [audience]

theorem mem_speakersOn {threadId : ℕ} {uid : Int64} :
    uid ∈ d.speakersOn threadId ↔
      ∃ id c, d.comments.get? id = some c ∧ c.threadId = threadId ∧ c.byUid = uid := by
  rw [speakersOn, List.mem_dedup, List.mem_filterMap]
  constructor
  · rintro ⟨⟨id, c⟩, hmem, hc⟩
    split_ifs at hc with hid
    exact ⟨id, c, Table.get?_eq_some.2 hmem, hid, Option.some.inj hc⟩
  · rintro ⟨id, c, hc, hid, hby⟩
    exact ⟨(id, c), Table.get?_eq_some.1 hc, (if_pos hid).trans (congrArg some hby)⟩

/-- The rows that are added for an audience. -/
theorem get?_foldl_insert {ρ : Type} {mk : Int64 → ρ} {uids : List Int64} {rows : Table ρ}
    {id : ℕ} {row : ρ}
    (h : (uids.foldl (fun rows uid => rows.insert (mk uid)) rows).get? id = some row) :
    rows.get? id = some row ∨ ∃ uid ∈ uids, row = mk uid := by
  induction uids generalizing rows with
  | nil => exact .inl h
  | cons uid uids ih =>
    rcases ih h with hold | ⟨v, hv, hrow⟩
    · rw [Table.get?_insert] at hold
      split_ifs at hold with hid
      · exact .inr ⟨uid, List.mem_cons_self, (Option.some.inj hold).symm⟩
      · exact .inl hold
    · exact .inr ⟨v, List.mem_cons_of_mem _ hv, hrow⟩

/-- A row of the notifications after people were told was there before, or is of somebody in
    the audience. -/
theorem notify_get? {uids : List Int64} {kind : NoticeKind} {threadId : ℕ}
    {actorUid now : Int64} {id : ℕ} {n : Notice}
    (h : (d.notify uids kind threadId actorUid now).notifications.get? id = some n) :
    d.notifications.get? id = some n ∨
      n.threadId = threadId ∧ n.uid ∈ audience uids actorUid := by
  rw [notify] at h
  split_ifs at h
  · rcases get?_foldl_insert h with hold | ⟨uid, huid, rfl⟩
    · exact .inl hold
    · exact .inr ⟨rfl, huid⟩
  · exact .inl h

@[simp] theorem notify_threads {uids : List Int64} {kind : NoticeKind} {threadId : ℕ}
    {actorUid now : Int64} : (d.notify uids kind threadId actorUid now).threads = d.threads := by
  rw [notify]
  split_ifs <;> rfl

@[simp] theorem notify_comments {uids : List Int64} {kind : NoticeKind} {threadId : ℕ}
    {actorUid now : Int64} : (d.notify uids kind threadId actorUid now).comments = d.comments := by
  rw [notify]
  split_ifs <;> rfl

/-- A line of somebody's list is a row of theirs, with the words of the thread as it is. -/
theorem of_mem_notificationsFor {a : Accounts} {uid : Int64} {unreadOnly : Bool}
    {after : Option ℤ} {limit : Option ℕ} {n : Notification}
    (h : n ∈ d.notificationsFor a uid unreadOnly after limit) :
    ∃ notice t, d.notifications.get? n.id = some notice ∧ notice.uid = uid ∧
      d.thread notice.threadId = some t ∧ n.packId = t.packId ∧ n.title = t.title := by
  have hmem : n ∈ d.notificationsFor a uid unreadOnly after none := by
    rcases limit with _ | most
    · exact h
    · exact List.mem_of_mem_take h
  obtain ⟨⟨id, notice⟩, hrow, hn⟩ := List.mem_filterMap.1 hmem
  rcases ht : d.thread notice.threadId with _ | t <;> simp only [ht] at hn
  · cases hn
  · split_ifs at hn with hcond
    obtain rfl := Option.some.inj hn
    exact ⟨notice, t, Table.get?_eq_some.2 (List.mem_reverse.1 hrow), hcond.1, ht, rfl, rfl⟩

end Discussions

end Smrt
