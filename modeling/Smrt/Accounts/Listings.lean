import Mathlib.Data.Prod.Lex
import Smrt.Accounts.Discussions
import Smrt.Lib.Pages

/-!
# Listings of the accounts store

The threads of a pack, newest first (`Discussions.threadsFor`), the comments on a thread, oldest first
(`Discussions.commentsOn`), what somebody was told (`Discussions.notificationsFor`), and who did what
(`AuditLog.listAudit`). Each goes on after a row that is named by its place: by its id, and a thread by
the second it was opened in and its id.

* `pairwise_threadRows` and the like: a listing is in the order of its places;
* `threadRows_after` and the like: after a row, it goes on in this order;
* `threadRows_extends` and the like: rows that are added take nothing out of it.
-/

namespace Smrt

/-- The name of a kind. -/
def ThreadKind.name : ThreadKind → String
  | .issue => "issue"
  | .proposal => "proposal"

/-- A thread as it is listed, with who opened it and how many comments there are. -/
structure ShownThread where
  id : ℕ
  thread : ThreadRow
  byLogin : Option String
  comments : ℕ
  deriving DecidableEq

/-- A comment as it is shown; a hidden one has lost its body. -/
structure ThreadComment where
  id : ℕ
  byUid : Int64
  byLogin : Option String
  body : Option String
  hidden : Bool
  createdAt : Int64
  deriving DecidableEq

/-- What an operator did. -/
structure AuditEntry where
  actorUid : Int64
  actorLogin : String
  action : String
  target : Option String
  detail : Option String
  createdAt : Int64
  deriving DecidableEq

namespace Discussions

variable (d : Discussions)

/-! ## Listings -/

/-- The order of the threads: newest first, and by id within a second. -/
def threadKey (r : ℕ × ThreadRow) : (ℤ ×ₗ ℕ)ᵒᵈ := .toDual (toLex (r.2.createdAt.toInt, r.1))

def threadRows (packId : String) (kind : Option String) (openOnly : Bool) (after : Option (ℤ × ℤ))
    (limit : Option ℕ) : List (ℕ × ThreadRow) :=
  Pages.limited limit ((d.threads.rows.filter fun r =>
    (r.2.packId = packId ∧ (∀ k ∈ kind, r.2.kind.name = k) ∧ (openOnly → r.2.status = .open)) ∧
      ∀ last ∈ after, r.2.createdAt.toInt < last.1 ∨
        r.2.createdAt.toInt = last.1 ∧ (r.1 : ℤ) < last.2).insertionSort
    fun r s => threadKey r ≤ threadKey s)

def showThread (a : Accounts) (r : ℕ × ThreadRow) : ShownThread where
  id := r.1
  thread := r.2
  byLogin := (a.users.lookup r.2.byUid).map User.login
  comments := (d.comments.rows.filter fun c => c.2.threadId = r.1).length

/-- The threads of a pack, on from a place and so many at most. -/
def threadsFor (a : Accounts) (packId : String) (kind : Option String) (openOnly : Bool)
    (after : Option (ℤ × ℤ)) (limit : Option ℕ) : List ShownThread :=
  (d.threadRows packId kind openOnly after limit).map (d.showThread a)

def commentRows (threadId : ℕ) (after : Option ℤ) (limit : Option ℕ) : List (ℕ × Comment) :=
  Pages.limited limit (d.comments.rows.filter fun r =>
    r.2.threadId = threadId ∧ after.getD 0 < r.1)

def showComment (a : Accounts) (r : ℕ × Comment) : ThreadComment where
  id := r.1
  byUid := r.2.byUid
  byLogin := (a.users.lookup r.2.byUid).map User.login
  body := if r.2.hiddenAt.isSome then none else some r.2.body
  hidden := r.2.hiddenAt.isSome
  createdAt := r.2.createdAt

/-- The comments on a thread, on from an id and so many at most. -/
def commentsOn (a : Accounts) (threadId : ℕ) (after : Option ℤ) (limit : Option ℕ) :
    List ThreadComment :=
  (d.commentRows threadId after limit).map (showComment a)

/-- What somebody was told, with the threads it is of. -/
def noticeRows (uid : Int64) (unreadOnly : Bool) : List (ℕ × Notice × ThreadRow) :=
  d.notifications.rows.reverse.filterMap fun (id, n) =>
    if n.uid = uid ∧ (unreadOnly → n.readAt = none) then
      (d.thread n.threadId).map fun t => (id, n, t)
    else none

def showNotice (a : Accounts) (r : ℕ × Notice × ThreadRow) : Notification where
  id := r.1
  kind := r.2.1.kind
  threadId := r.2.1.threadId
  packId := r.2.2.packId
  title := r.2.2.title
  status := r.2.2.status
  actorUid := r.2.1.actorUid
  actorLogin := (a.users.lookup r.2.1.actorUid).map User.login
  createdAt := r.2.1.createdAt
  read := r.2.1.readAt.isSome

variable {d}

theorem notificationsFor_eq {a : Accounts} {uid : Int64} {unreadOnly : Bool} {after : Option ℤ}
    {limit : Option ℕ} : d.notificationsFor a uid unreadOnly after limit =
      (Pages.limited limit ((d.noticeRows uid unreadOnly).filter fun r =>
        ∀ last ∈ after, (r.1 : ℤ) < last)).map (showNotice a) := by
  have hrows : d.notificationsFor a uid unreadOnly after none =
      ((d.noticeRows uid unreadOnly).filter fun r => ∀ last ∈ after, (r.1 : ℤ) < last).map
        (showNotice a) := by
    rw [notificationsFor.eq_def, noticeRows, List.filter_filterMap, List.map_filterMap]
    refine List.filterMap_congr fun x _ => ?_
    dsimp only
    rcases d.thread x.2.threadId with _ | t
    · split_ifs <;> rfl
    · dsimp only
      by_cases hown : x.2.uid = uid ∧ (unreadOnly → x.2.readAt = none)
      · by_cases hafter : ∀ last ∈ after, (x.1 : ℤ) < last
        · simp only [if_pos hown, if_pos (And.intro hown.1 (And.intro hown.2 hafter)),
            Option.map_some, Option.filter_some, decide_eq_true hafter, if_true]
          rfl
        · simp only [if_pos hown, if_neg fun h : _ ∧ _ ∧ _ => hafter h.2.2, Option.map_some,
            Option.filter_some, decide_eq_false hafter, Bool.false_eq_true, if_false,
            Option.map_none]
      · simp only [if_neg hown, if_neg fun h : _ ∧ _ ∧ _ => hown ⟨h.1, h.2.1⟩, Option.filter_none,
          Option.map_none]
  rcases limit with _ | most
  · exact hrows
  · exact (congrArg (List.take most) hrows).trans List.map_take.symm

/-! ## Threads -/

section Threads

variable {packId : String} {kind : Option String} {openOnly : Bool}

/-- A thread is known by its place. -/
theorem eq_of_threadKey_eq {r s : ℕ × ThreadRow} (hr : r ∈ d.threads.rows)
    (hs : s ∈ d.threads.rows) (h : threadKey r = threadKey s) : r = s :=
  Table.eq_of_id_eq d.threads.increasing hr hs
    (congrArg (fun k => (ofLex (OrderDual.ofDual k)).2) h)

theorem mem_threadRows {r : ℕ × ThreadRow} :
    r ∈ d.threadRows packId kind openOnly none none ↔ r ∈ d.threads.rows ∧
      r.2.packId = packId ∧ (∀ k ∈ kind, r.2.kind.name = k) ∧ (openOnly → r.2.status = .open) := by
  rw [threadRows, Pages.limited, List.mem_insertionSort, List.mem_filter]
  simp only [decide_eq_true_eq, Option.not_mem_none, IsEmpty.forall_iff, implies_true, and_true]

theorem pairwise_threadRows :
    (d.threadRows packId kind openOnly none none).Pairwise fun r s => threadKey r < threadKey s :=
  Pages.pairwise_insertionSort (d.threads.nodup_rows.filter _) fun _ hr _ hs =>
    eq_of_threadKey_eq (List.mem_of_mem_filter hr) (List.mem_of_mem_filter hs)

/-- After a thread, the listing goes on in its order. -/
theorem threadRows_after (c : ℕ × ThreadRow) (limit : Option ℕ) :
    d.threadRows packId kind openOnly (some (c.2.createdAt.toInt, (c.1 : ℤ))) limit =
      Pages.limited limit (Pages.after threadKey (some (threadKey c))
        (d.threadRows packId kind openOnly none none)) := by
  have hbelow : ∀ r : ℕ × ThreadRow, (∀ k ∈ some (threadKey c), k < threadKey r) ↔
      r.2.createdAt.toInt < c.2.createdAt.toInt ∨
        r.2.createdAt.toInt = c.2.createdAt.toInt ∧ (r.1 : ℤ) < c.1 := by
    intro r
    simp only [Option.mem_some_iff, forall_eq', threadKey, OrderDual.toDual_lt_toDual,
      Prod.Lex.toLex_lt_toLex, Int.ofNat_lt]
  rw [threadRows, threadRows, Pages.after, Pages.limited, ← Pages.insertionSort_filter
    (d.threads.nodup_rows.filter _) fun _ hr _ hs =>
      eq_of_threadKey_eq (List.mem_of_mem_filter hr) (List.mem_of_mem_filter hs),
    List.filter_filter]
  congr 2
  refine List.filter_congr fun r _ => ?_
  rw [← Bool.decide_and, decide_eq_decide, hbelow]
  simp only [Option.mem_some_iff, forall_eq', Option.not_mem_none, IsEmpty.forall_iff,
    implies_true, and_true]
  exact and_comm

end Threads

/-! ## Comments -/

section Comments

variable {threadId : ℕ}

theorem pairwise_commentRows :
    (d.commentRows threadId none none).Pairwise fun r s => r.1 < s.1 :=
  d.comments.increasing.filter _

/-- After a comment, the discussion goes on in its order. -/
theorem commentRows_after (c : ℕ × Comment) (limit : Option ℕ) :
    d.commentRows threadId (some (c.1 : ℤ)) limit =
      Pages.limited limit (Pages.after Prod.fst (some c.1) (d.commentRows threadId none none)) := by
  rw [commentRows, commentRows, Pages.after, Pages.limited, List.filter_filter]
  congr 1
  refine List.filter_congr fun r _ => ?_
  simp only [Option.mem_some_iff, forall_eq', Option.getD_some, Option.getD_none,
    ← Bool.decide_and, decide_eq_decide]
  omega

end Comments

/-! ## Notifications -/

section Notices

variable {uid : Int64} {unreadOnly : Bool}

theorem mem_noticeRows {r : ℕ × Notice × ThreadRow} :
    r ∈ d.noticeRows uid unreadOnly ↔ (r.1, r.2.1) ∈ d.notifications.rows ∧
      d.thread r.2.1.threadId = some r.2.2 ∧ r.2.1.uid = uid ∧
        (unreadOnly → r.2.1.readAt = none) := by
  rw [noticeRows, List.mem_filterMap]
  constructor
  · rintro ⟨⟨id, n⟩, hmem, hr⟩
    dsimp only at hr
    split_ifs at hr with hown
    obtain ⟨t, ht, rfl⟩ := Option.map_eq_some_iff.1 hr
    exact ⟨List.mem_reverse.1 hmem, ht, hown⟩
  · rintro ⟨hmem, ht, hown⟩
    refine ⟨(r.1, r.2.1), List.mem_reverse.2 hmem, ?_⟩
    dsimp only
    rw [if_pos hown, ht]
    rfl

theorem pairwise_noticeRows : (d.noticeRows uid unreadOnly).Pairwise fun r s =>
    OrderDual.toDual r.1 < OrderDual.toDual s.1 := by
  refine List.Pairwise.filterMap _ ?_ (List.pairwise_reverse.2 d.notifications.increasing)
  intro x y hxy r hr s hs
  have hid : ∀ {x : ℕ × Notice} {r : ℕ × Notice × ThreadRow}, (if x.2.uid = uid ∧
      (unreadOnly → x.2.readAt = none) then (d.thread x.2.threadId).map fun t => (x.1, x.2, t)
      else none) = some r → r.1 = x.1 := by
    intro x r h
    split_ifs at h
    obtain ⟨t, -, rfl⟩ := Option.map_eq_some_iff.1 h
    rfl
  rw [hid hr, hid hs]
  exact hxy

/-- After a notification, the list goes on in its order. -/
theorem notificationsFor_after {a : Accounts} (c : ℕ × Notice × ThreadRow) (limit : Option ℕ) :
    d.notificationsFor a uid unreadOnly (some (c.1 : ℤ)) limit =
      (Pages.limited limit (Pages.after (fun r => OrderDual.toDual r.1)
        (some (OrderDual.toDual c.1)) (d.noticeRows uid unreadOnly))).map (showNotice a) := by
  rw [notificationsFor_eq]
  congr 2
  refine List.filter_congr fun r _ => ?_
  simp only [Option.mem_some_iff, forall_eq', Int.ofNat_lt, OrderDual.toDual_lt_toDual]

theorem notificationsFor_none {a : Accounts} (limit : Option ℕ) :
    d.notificationsFor a uid unreadOnly none limit =
      (Pages.limited limit (d.noticeRows uid unreadOnly)).map (showNotice a) := by
  rw [notificationsFor_eq]
  congr 2
  exact List.filter_eq_self.2 fun r _ => by simp

end Notices

/-! ## Added rows -/

/-- The rows are there in the other tables. -/
structure Extends (d d' : Discussions) : Prop where
  threads : d.threads.Extends d'.threads
  comments : d.comments.Extends d'.comments
  notifications : d.notifications.Extends d'.notifications

theorem extends_self (d : Discussions) : d.Extends d := ⟨fun _ h => h, fun _ h => h, fun _ h => h⟩

namespace Extends

variable {d' : Discussions} (h : d.Extends d')

include h

theorem threadRows {packId : String} {kind : Option String} {openOnly : Bool} :
    d.threadRows packId kind openOnly none none ⊆ d'.threadRows packId kind openOnly none none := by
  intro r hr
  rw [mem_threadRows] at hr ⊢
  exact hr.imp_left fun hmem => h.threads hmem

theorem commentRows {threadId : ℕ} :
    d.commentRows threadId none none ⊆ d'.commentRows threadId none none :=
  List.filter_subset _ h.comments

theorem noticeRows {uid : Int64} {unreadOnly : Bool} :
    d.noticeRows uid unreadOnly ⊆ d'.noticeRows uid unreadOnly := by
  intro r hr
  rw [mem_noticeRows] at hr ⊢
  exact ⟨h.notifications hr.1, h.threads.get? hr.2.1, hr.2.2⟩

end Extends

end Discussions

/-! ## The audit trail -/

/-- Who did what. -/
abbrev AuditLog := Table AuditEntry

namespace AuditLog

variable (log : AuditLog)

/-- How many rows a limit stands for; a negative one is none. -/
def ofInt (limit : ℤ) : Option ℕ := if limit < 0 then none else some limit.toNat

@[simp] theorem ofInt_natCast (n : ℕ) : ofInt n = some n := by
  rw [ofInt, if_neg (Int.not_lt.2 (Int.natCast_nonneg n)), Int.toNat_natCast]

/-- The acts, newest first, on from an id and so many at most. -/
def listAudit (limit : ℤ) (before : Option ℤ) : List (ℕ × AuditEntry) :=
  Pages.limited (ofInt limit) (log.rows.reverse.filter fun r => ∀ last ∈ before, (r.1 : ℤ) < last)

variable {log}

theorem listAudit_none (limit : ℤ) : log.listAudit limit none =
    Pages.limited (ofInt limit) log.rows.reverse := by
  rw [listAudit]
  congr 1
  exact List.filter_eq_self.2 fun r _ => by simp

/-- After an act, the trail goes on in its order. -/
theorem listAudit_after (c : ℕ × AuditEntry) (limit : ℤ) : log.listAudit limit (some (c.1 : ℤ)) =
    Pages.limited (ofInt limit) (Pages.after
      (fun r => OrderDual.toDual r.1) (some (OrderDual.toDual c.1)) log.rows.reverse) := by
  rw [listAudit]
  congr 1
  refine List.filter_congr fun r _ => ?_
  simp only [Option.mem_some_iff, forall_eq', Int.ofNat_lt, OrderDual.toDual_lt_toDual]

end AuditLog

end Smrt
