import Smrt.Http.Notices

/-!
# The ids of the threads

A thread is known by its row id, and a comment by its own. Whoever comments, moderates, merges,
closes or reopens first reads the thread, is authorised for the pack it is of, and then acts by
the id alone, each in its own access of the store; in between, the threads of a pack may be
forgotten because the pack is deleted, and threads may be opened. A new row gets the largest id
there is plus one.

An id names one thread, and who is authorised for a pack changes nothing of another
(`NamesOne`), as long as no thread is opened while the one that was opened last is gone, and no
comment is posted under an id that somebody holds who moderates another pack (`Fresh`):
`system_namesOne`. Nothing sees to that: somebody who may close a thread of a pack that is
deleted closes a thread of another one (`system_wrongThread`).

What changes a thread or a comment is in the log (`discussions_of_changed_eq`).
-/

namespace Smrt

namespace ThreadIds

/-! ## States -/

/-- What somebody asks for. -/
inductive Deed
  | comment (id : ℕ) (body : String)
  | moderate (commentId : ℕ) (hidden : Bool)
  | merge (id : ℕ)
  | close (id : ℕ)
  | reopen (id : ℕ)

/-- How far somebody is who has read a thread: a comment is checked three times over. -/
inductive Phase
  | loaded
  | admitted
  | unsilenced
  | authorized
  deriving DecidableEq

/-- Where a party is. -/
inductive Proc
  | idle
  | asked (identity : Identity) (deed : Deed)
  /-- Moderates: has read which thread the comment is on. -/
  | located (identity : Identity) (commentId : ℕ) (hidden : Bool) (id : ℕ)
  /-- Has read the thread, with its id. -/
  | holding (phase : Phase) (identity : Identity) (deed : Deed) (id : ℕ) (t : ThreadRow)
  | done (answer : Except ApiError Unit)

/-- The discussions and the parties; then the history. -/
structure State where
  discussions : Discussions
  procs : ℕ → Proc
  /-- The ids that were given to threads, the last first. -/
  returned : List ℕ
  /-- The pack for which somebody was authorised, and the one of which they changed something. -/
  changed : List (String × String)

/-- What a party is told by the rest of the store: the accounts, whether packs are published,
    how much somebody wrote of late, the commit that a merge wrote, and the time. -/
structure Told where
  accounts : Accounts
  isPublished : String → Bool
  recent : ℕ
  written : Except ApiError String
  now : Int64

/-- What happens: a thread is opened, the threads of a pack are forgotten, or a party begins, or
    goes on. -/
inductive Act
  | openThread (packId : String) (kind : ThreadKind) (title body : String) (byUid : Int64)
      (source : Option (String × String)) (now : Int64)
  | forgetPackThreads (packId : String)
  | begin (i : ℕ) (identity : Identity) (deed : Deed)
  | next (i : ℕ) (told : Told)

/-! ## Steps -/

section Step

variable (s : State) (i : ℕ) (told : Told)

/-- A party moves. -/
def State.to (p : Proc) : State := { s with procs := setAt s.procs i p }

/-- A party answers. -/
def State.answer (r : Except ApiError Unit) : State := s.to i (.done r)

/-- Something of the thread under an id is changed by who is authorised for a pack. -/
def State.log (packId : String) (id : ℕ) : List (String × String) :=
  match s.discussions.thread id with
  | some t => (packId, t.packId) :: s.changed
  | none => s.changed

/-- What a party that has read a thread is checked for next, and how far it is then. -/
def check (identity : Identity) (t : ThreadRow) : Phase → Deed → Except ApiError Phase
  | .loaded, .comment _ _ => do
    refuseIf (¬ (told.isPublished t.packId || told.accounts.may identity t.packId .view)) .forbidden
    .ok .admitted
  | .admitted, .comment _ _ => do
    told.accounts.notSilenced identity t.packId
    .ok .unsilenced
  | .unsilenced, .comment _ body => do
    Notices.withinRate told.recent Notices.commentsPerWindow
    let body ← trimmed body "an empty comment says nothing"
    refuseIf (4000 < body.length) (.badRequest "that comment is too long")
    .ok .authorized
  | .loaded, .merge _ => do
    told.accounts.authorize identity t.packId .edit
    refuseIf (t.status ≠ .open) (.conflict ("this proposal is already " ++ t.status.name))
    refuseIf (t.sourcePack.isNone ∨ t.sourceCommit.isNone)
      (.badRequest "this thread offers no state")
    .ok .authorized
  | .loaded, .moderate _ _ => do
    told.accounts.authorize identity t.packId .edit
    .ok .authorized
  | .loaded, .close _ | .loaded, .reopen _ => do
    (if t.byUid = identity.uid then .ok ()
      else told.accounts.authorize identity t.packId .edit)
    .ok .authorized
  | phase, _ => .ok phase

/-- A thread is settled by its id, if it is open. -/
def settle (identity : Identity) (id : ℕ) (t : ThreadRow) (status : ThreadStatus)
    (commit : Option String) (complaint : String) : State :=
  let settled := s.discussions.settleThread id status told.now identity.uid commit
  if settled.1 then
    { s with discussions := settled.2, changed := s.log t.packId id }.answer i (.ok ())
  else s.answer i (.error (.conflict complaint))

/-- A party acts, by id. -/
def act (identity : Identity) (id : ℕ) (t : ThreadRow) : Deed → State
  | .comment _ body =>
    match s.discussions.comment id identity.uid (trim body) told.now with
    | none => s.answer i (.error (.internal "FOREIGN KEY constraint failed"))
    | some (_, discussions) =>
      { s with discussions, changed := s.log t.packId id }.answer i (.ok ())
  | .moderate commentId hidden =>
    let moderated := s.discussions.setCommentHidden commentId hidden identity.uid told.now
    match s.discussions.threadOfComment commentId with
    | none => s.answer i (.error .notFound)
    | some id =>
      { s with discussions := moderated.2, changed := s.log t.packId id }.answer i (.ok ())
  | .merge _ =>
    match told.written with
    | .error e => s.answer i (.error e)
    | .ok commit =>
      settle s i told identity id t .merged (some commit) "this proposal was already settled"
  | .close _ =>
    let status := match t.kind with
      | .proposal => if t.byUid = identity.uid then .withdrawn else .declined
      | .issue => .closed
    settle s i told identity id t status none "this thread was already settled"
  | .reopen _ =>
    let reopened := s.discussions.reopenIssue id
    if reopened.1 then
      { s with discussions := reopened.2, changed := s.log t.packId id }.answer i (.ok ())
    else s.answer i (.error (.conflict
      "only a closed issue reopens; a proposal is offered again as a new one"))

/-- A thread is read by its id. -/
def load (identity : Identity) (deed : Deed) (id : ℕ) : State :=
  match s.discussions.thread id with
  | none => s.answer i (.error .notFound)
  | some t => s.to i (.holding .loaded identity deed id t)

/-- A party goes on. -/
def next : Option State :=
  match s.procs i with
  | .idle | .done _ => none
  | .asked identity deed => some (match deed with
    | .moderate commentId hidden => match s.discussions.threadOfComment commentId with
      | none => s.answer i (.error .notFound)
      | some id => s.to i (.located identity commentId hidden id)
    | .comment id _ | .merge id | .close id | .reopen id => load s i identity deed id)
  | .located identity commentId hidden id =>
    some (load s i identity (.moderate commentId hidden) id)
  | .holding .authorized identity deed id t => some (act s i told identity id t deed)
  | .holding phase identity deed id t => some (match check told identity t phase deed with
    | .error e => s.answer i (.error e)
    | .ok phase => s.to i (.holding phase identity deed id t))

def step : Act → Option State
  | .openThread packId kind title body byUid source now =>
    let opened := s.discussions.openThread packId kind title body byUid source now
    some { s with discussions := opened.2, returned := opened.1 :: s.returned }
  | .forgetPackThreads packId =>
    some { s with discussions := s.discussions.forgetPackThreads packId }
  | .begin i identity deed => match s.procs i with
    | .idle => some (s.to i (.asked identity deed))
    | _ => none
  | .next i told => next s i told

/-- The threads, from nothing having been said. -/
def system : System State Act where
  init s := s.discussions = .empty ∧ (∀ i, s.procs i = .idle) ∧ s.returned = [] ∧ s.changed = []
  step := step

end Step

/-! ## One name, one thread -/

/-- An id is given to one thread only, and who was authorised for a pack changed nothing of
    another. -/
structure NamesOne (s : State) : Prop where
  returned : s.returned.Nodup
  changed : ∀ x ∈ s.changed, x.1 = x.2

/-- The comment that a party moderates, on a thread that it has read of a pack. -/
def Proc.moderates : Proc → Option (ℕ × String)
  | .holding _ _ (.moderate commentId _) _ t => some (commentId, t.packId)
  | _ => none

/-- The thread that a party comments on as it goes on, with its pack. -/
def Proc.comments : Proc → Option (ℕ × String)
  | .holding .authorized _ (.comment _ _) id t => some (id, t.packId)
  | _ => none

/-- A thread is opened only while the one opened last is there; a comment is posted under an id
    that nobody holds who moderates another pack. -/
def Fresh (s : State) : Act → Prop
  | .openThread .. => ∀ id ∈ s.returned.head?, (s.discussions.thread id).isSome
  | .next i _ => ∀ x ∈ (s.procs i).comments, (s.discussions.thread x.1).isSome → ∀ j packId,
      (s.procs j).moderates = some (s.discussions.comments.nextId, packId) → packId = x.2
  | _ => True

/-! ## What a step does to the discussions -/

/-- What becomes of the discussions while no comment is posted: a thread that was given an id is
    the one that had it, or gone; and a comment is the one that was there, on the same thread,
    and there as long as the thread is. -/
structure Follows (returned : List ℕ) (d d' : Discussions) : Prop where
  thread (id : ℕ) (t' : ThreadRow) : id ∈ returned → d'.thread id = some t' →
    ∃ t, d.thread id = some t ∧ t.packId = t'.packId
  comment (c id : ℕ) : d'.threadOfComment c = some id →
    d.threadOfComment c = some id ∧ (d'.thread id).isSome
  kept (c id : ℕ) : d.threadOfComment c = some id → (d'.thread id).isSome →
    d'.threadOfComment c = some id

/-- Every comment is on a thread that is there. -/
def Hang (d : Discussions) : Prop := ∀ c id, d.threadOfComment c = some id → (d.thread id).isSome

section Discussions

variable {d : Discussions} {returned : List ℕ} {packId : String} {id : ℕ}

/-- A thread is opened, under an id that was not given yet. -/
theorem follows_openThread (hang : Hang d) (hnew : d.threads.nextId ∉ returned)
    {kind : ThreadKind} {title body : String} {byUid now : Int64}
    {source : Option (String × String)} :
    Follows returned d (d.openThread packId kind title body byUid source now).2 where
  thread i t' hi ht' :=
    ⟨t', (Table.get?_insert_of_ne fun he => hnew (he ▸ hi)).symm.trans ht', rfl⟩
  comment c i hc := by
    obtain ⟨t, ht⟩ := Option.isSome_iff_exists.1 (hang c i hc)
    refine ⟨hc, Option.isSome_iff_exists.2 ⟨t, ?_⟩⟩
    exact (Table.get?_insert_of_ne (Table.lt_nextId_of_get? ht).ne).trans ht
  kept _ _ hc _ := hc

/-- The threads of a pack are forgotten, with their comments. -/
theorem follows_forgetPackThreads : Follows returned d (d.forgetPackThreads packId) where
  thread i t' _ ht' := by
    refine ⟨t', ?_, rfl⟩
    change (d.threads.filter _).get? i = some t' at ht'
    rw [Table.get?_filter, Option.filter_eq_some_iff] at ht'
    exact ht'.1
  comment c i hc := by
    obtain ⟨row, hrow, rfl⟩ := Option.map_eq_some_iff.1 hc
    change (d.comments.filter _).get? c = some row at hrow
    rw [Table.get?_filter, Option.filter_eq_some_iff] at hrow
    exact ⟨congrArg (Option.map Comment.threadId) hrow.1, hrow.2⟩
  kept c i hc ht := by
    obtain ⟨row, hrow, rfl⟩ := Option.map_eq_some_iff.1 hc
    refine congrArg (Option.map Comment.threadId) ?_ |>.trans (Option.map_some ..)
    change (d.comments.filter _).get? c = some row
    rw [Table.get?_filter, Option.filter_eq_some_iff]
    exact ⟨hrow, ht⟩

/-- A thread changes, and stays of its pack. -/
theorem follows_modify (hang : Hang d) {f : ThreadRow → ThreadRow}
    (hf : ∀ t, (f t).packId = t.packId) :
    Follows returned d { d with threads := d.threads.modify id f } where
  thread i t' _ ht' := by
    change (d.threads.modify id f).get? i = some t' at ht'
    rw [Table.get?_modify] at ht'
    split_ifs at ht'
    · obtain ⟨t, ht, rfl⟩ := Option.map_eq_some_iff.1 ht'
      exact ⟨t, ht, (hf t).symm⟩
    · exact ⟨t', ht', rfl⟩
  comment c i hc := by
    refine ⟨hc, ?_⟩
    change ((d.threads.modify id f).get? i).isSome
    rw [Table.get?_modify]
    split_ifs
    · rw [Option.isSome_map]
      exact hang c i hc
    · exact hang c i hc
  kept _ _ hc _ := hc

/-- A comment is hidden, or shown. -/
theorem follows_setCommentHidden (hang : Hang d) {c : ℕ} {hidden : Bool} {byUid now : Int64} :
    Follows returned d (d.setCommentHidden c hidden byUid now).2 := by
  have hsame (j : ℕ) : (d.setCommentHidden c hidden byUid now).2.threadOfComment j =
      d.threadOfComment j := by
    rw [Discussions.threadOfComment, Discussions.setCommentHidden, Table.get?_modify]
    by_cases hj : j = c
    · rw [if_pos hj, Option.map_map]
      refine congrArg (fun f => Option.map f (d.comments.get? j)) (funext fun row => ?_)
      simp only [Function.comp_apply]
      split_ifs <;> rfl
    · rw [if_neg hj]
      rfl
  exact ⟨fun _ t' _ ht' => ⟨t', ht', rfl⟩, fun j i hj => ⟨(hsame j).symm.trans hj,
    hang j i ((hsame j).symm.trans hj)⟩, fun j i hj _ => (hsame j).trans hj⟩

end Discussions

/-! ## The invariant -/

/-- What a party has in hand is right: the thread it read is still under its id, or gone, of the
    same pack; and a comment that it moderates is still on that thread, or on one of its pack, or
    gone. -/
def Proc.Right (returned : List ℕ) (d : Discussions) : Proc → Prop
  | located _ c _ id => id ∈ returned ∧ ((d.thread id).isSome → d.threadOfComment c = some id)
  | holding _ _ deed id t => id ∈ returned ∧ (∀ t', d.thread id = some t' → t'.packId = t.packId) ∧
      match deed with
      | .moderate c _ => ∀ j t', d.threadOfComment c = some j → d.thread j = some t' →
          t'.packId = t.packId
      | _ => True
  | _ => True

/-- The ids were given in increasing order, and to all the threads there are; the comments hang
    on threads; what the parties have in hand is right; and who was authorised for a pack changed
    nothing of another. -/
structure Inv (s : State) : Prop where
  decreasing : s.returned.Pairwise (· > ·)
  known (id : ℕ) : (s.discussions.thread id).isSome → id ∈ s.returned
  hang : Hang s.discussions
  right (i : ℕ) : (s.procs i).Right s.returned s.discussions
  changed : ∀ x ∈ s.changed, x.1 = x.2

section Invariant

variable {s s' : State} {i id : ℕ} {p : Proc} {d d' : Discussions} {returned : List ℕ}
  {told : Told} {identity : Identity} {deed : Deed} {t : ThreadRow}

/-- What is right stays right, as the discussions change and ids are given. -/
theorem Proc.Right.follow (h : p.Right returned d) (hf : Follows returned d d')
    (hknown : ∀ id, (d.thread id).isSome → id ∈ returned) (hang : Hang d) {returned' : List ℕ}
    (hsub : returned ⊆ returned') : p.Right returned' d' := by
  cases p with
  | idle | asked | done => trivial
  | located identity c hidden id =>
    refine ⟨hsub h.1, fun ht => ?_⟩
    obtain ⟨t', ht'⟩ := Option.isSome_iff_exists.1 ht
    obtain ⟨t, hold, -⟩ := hf.thread id t' h.1 ht'
    exact hf.kept c id (h.2 (hold ▸ rfl)) ht
  | holding phase identity deed id t =>
    obtain ⟨hid, hthread, hdeed⟩ := h
    refine ⟨hsub hid, fun t' ht' => ?_, ?_⟩
    · obtain ⟨t₀, hold, hp⟩ := hf.thread id t' hid ht'
      exact hp ▸ hthread t₀ hold
    · cases deed with
      | comment | merge | close | reopen => trivial
      | moderate c hidden =>
        intro j t' hj ht'
        obtain ⟨hcomment, -⟩ := hf.comment c j hj
        obtain ⟨t₀, hold, hp⟩ := hf.thread j t' (hknown j (hang c j hcomment)) ht'
        exact hp ▸ hdeed j t₀ hcomment hold

/-- A party moves. -/
theorem Inv.to (h : Inv s) (hp : p.Right s.returned s.discussions) : Inv (s.to i p) where
  decreasing := h.decreasing
  known := h.known
  hang := h.hang
  right := forall_setAt (P := fun _ (q : Proc) => q.Right s.returned s.discussions)
    (fun j _ => h.right j) hp
  changed := h.changed

theorem Inv.answer (h : Inv s) (r : Except ApiError Unit) : Inv (s.answer i r) := h.to trivial

/-- The discussions change, no comment being posted; the log is right. -/
theorem Inv.follow (h : Inv s) (hf : Follows s.returned s.discussions d)
    (hdecreasing : returned.Pairwise (· > ·)) (hsub : s.returned ⊆ returned)
    (hknown : ∀ id, (d.thread id).isSome → id ∈ returned) {changed : List (String × String)}
    (hchanged : ∀ x ∈ changed, x.1 = x.2) :
    Inv { s with discussions := d, returned, changed } where
  decreasing := hdecreasing
  known := hknown
  hang c id hc := (hf.comment c id hc).2
  right j := (h.right j).follow hf h.known h.hang hsub
  changed := hchanged

/-- What is logged of a thread that is of the pack, or gone, is right. -/
theorem Inv.log (h : Inv s) {packId : String}
    (ht : ∀ t', s.discussions.thread id = some t' → t'.packId = packId) :
    ∀ x ∈ s.log packId id, x.1 = x.2 := by
  intro x hx
  rw [State.log] at hx
  rcases hid : s.discussions.thread id with _ | t' <;> rw [hid] at hx
  · exact h.changed x hx
  · rcases List.mem_cons.1 hx with rfl | hx
    · exact (ht t' hid).symm
    · exact h.changed x hx

/-! ### Threads come and go -/

/-- A thread is opened while the one opened last is there: its id is larger than all that were
    given. -/
theorem Inv.openThread (h : Inv s) {packId : String} {kind : ThreadKind} {title body : String}
    {byUid now : Int64} {source : Option (String × String)}
    (hok : ∀ id ∈ s.returned.head?, (s.discussions.thread id).isSome) :
    Inv { s with
      discussions := (s.discussions.openThread packId kind title body byUid source now).2
      returned := s.discussions.threads.nextId :: s.returned } := by
  have hlt : ∀ id ∈ s.returned, s.discussions.threads.nextId > id := by
    intro id hid
    cases hr : s.returned with
    | nil => rw [hr] at hid; cases hid
    | cons last rest =>
      obtain ⟨t, ht⟩ := Option.isSome_iff_exists.1 (hok last (by rw [hr]; rfl))
      have hlast : last < s.discussions.threads.nextId := Table.lt_nextId_of_get? ht
      have hdec := h.decreasing
      rw [hr] at hid hdec
      rcases List.mem_cons.1 hid with rfl | hid
      · exact hlast
      · exact ((List.pairwise_cons.1 hdec).1 id hid).trans hlast
  refine h.follow (follows_openThread h.hang fun hmem => (hlt _ hmem).ne rfl)
    (List.pairwise_cons.2 ⟨hlt, h.decreasing⟩) (List.subset_cons_self ..) (fun id hid => ?_)
    h.changed
  by_cases hnew : id = s.discussions.threads.nextId
  · exact hnew ▸ List.mem_cons_self
  · refine List.mem_cons_of_mem _ (h.known id ?_)
    obtain ⟨t, ht⟩ := Option.isSome_iff_exists.1 hid
    exact Option.isSome_iff_exists.2 ⟨t, (Table.get?_insert_of_ne hnew).symm.trans ht⟩

theorem Inv.forgetPackThreads (h : Inv s) {packId : String} :
    Inv { s with discussions := s.discussions.forgetPackThreads packId } := by
  refine h.follow follows_forgetPackThreads h.decreasing (List.Subset.refl _) (fun id hid => ?_)
    h.changed
  obtain ⟨t, ht⟩ := Option.isSome_iff_exists.1 hid
  change (s.discussions.threads.filter _).get? id = some t at ht
  rw [Table.get?_filter, Option.filter_eq_some_iff] at ht
  exact h.known id (Option.isSome_iff_exists.2 ⟨t, ht.1⟩)

/-! ### Parties act -/

/-- A thread changes that a party is authorised for. -/
theorem Inv.modify (h : Inv s) {f : ThreadRow → ThreadRow} (hf : ∀ t, (f t).packId = t.packId)
    {packId : String} (ht : ∀ t', s.discussions.thread id = some t' → t'.packId = packId) :
    Inv { s with
      discussions := { s.discussions with threads := s.discussions.threads.modify id f }
      changed := s.log packId id } := by
  refine h.follow (follows_modify h.hang hf) h.decreasing (List.Subset.refl _) (fun j hj => ?_)
    (h.log ht)
  obtain ⟨t', ht'⟩ := Option.isSome_iff_exists.1 hj
  change (s.discussions.threads.modify id f).get? j = some t' at ht'
  rw [Table.get?_modify] at ht'
  split_ifs at ht'
  · obtain ⟨t, ht, -⟩ := Option.map_eq_some_iff.1 ht'
    exact h.known j (Option.isSome_iff_exists.2 ⟨t, ht⟩)
  · exact h.known j (Option.isSome_iff_exists.2 ⟨t', ht'⟩)

theorem Inv.settle (h : Inv s) {status : ThreadStatus} {commit : Option String}
    {complaint : String}
    (ht : ∀ t', s.discussions.thread id = some t' → t'.packId = t.packId) :
    Inv (settle s i told identity id t status commit complaint) := by
  simp only [ThreadIds.settle]
  split_ifs
  · refine Inv.answer (h.modify (fun t => ?_) ht) _
    change (Smrt.settleThread t.toThread status told.now identity.uid commit).1.packId = t.packId
    rw [Smrt.settleThread]
    split_ifs <;> rfl
  · exact h.answer _

/-- A comment is posted on a thread that a party is authorised for, under an id that nobody holds
    who moderates another pack. -/
theorem Inv.comment (h : Inv s) {row : Comment} {packId : String}
    (hrow : row.threadId = id) (hid : (s.discussions.thread id).isSome)
    (ht : ∀ t', s.discussions.thread id = some t' → t'.packId = packId)
    (hok : ∀ j packId', (s.procs j).moderates = some (s.discussions.comments.nextId, packId') →
      packId' = packId) :
    Inv { s with
      discussions := { s.discussions with comments := s.discussions.comments.insert row }
      changed := s.log packId id } := by
  -- The comments after: the new one, and those that were there.
  have hcomment (c j : ℕ) : ((s.discussions.comments.insert row).get? c).map Comment.threadId =
      some j ↔ (c = s.discussions.comments.nextId ∧ j = id) ∨
        (c ≠ s.discussions.comments.nextId ∧ s.discussions.threadOfComment c = some j) := by
    rw [Table.get?_insert]
    split_ifs with hc
    · simp [hc, hrow, eq_comm]
    · simp [hc, Discussions.threadOfComment]
  refine ⟨h.decreasing, h.known, fun c j hc => ?_, fun j => ?_, h.log ht⟩
  · rcases (hcomment c j).1 hc with ⟨-, rfl⟩ | ⟨-, hold⟩
    · exact hid
    · exact h.hang c j hold
  · have hright := h.right j
    have hok' := hok j
    change (s.procs j).Right s.returned _
    cases hp : s.procs j <;> rw [hp] at hright hok' <;> try trivial
    case located identity c hidden i =>
      refine ⟨hright.1, fun hi => (hcomment c i).2 (.inr ⟨?_, hright.2 hi⟩)⟩
      rintro rfl
      have hnone := hright.2 hi
      rw [Discussions.threadOfComment, Table.get?_of_nextId_le (Nat.le_refl _)] at hnone
      cases hnone
    case holding phase identity deed i t =>
      refine ⟨hright.1, hright.2.1, ?_⟩
      cases deed with
      | comment | merge | close | reopen => trivial
      | moderate c hidden =>
        intro k t' hk ht'
        rcases (hcomment c k).1 hk with ⟨rfl, rfl⟩ | ⟨-, hold⟩
        · exact (ht t' ht').trans (hok' t.packId rfl).symm
        · exact hright.2.2 k t' hold ht'

/-- A comment is hidden or shown by who is authorised for what it is on. -/
theorem Inv.moderate (h : Inv s) {c : ℕ} {hidden : Bool} {byUid now : Int64} {packId : String}
    (ht : ∀ t', s.discussions.thread id = some t' → t'.packId = packId) :
    Inv { s with
      discussions := (s.discussions.setCommentHidden c hidden byUid now).2
      changed := s.log packId id } :=
  h.follow (follows_setCommentHidden h.hang) h.decreasing (List.Subset.refl _) h.known (h.log ht)

theorem Inv.act (h : Inv s) (hp : s.procs i = .holding .authorized identity deed id t)
    (hok : Fresh s (.next i told)) : Inv (act s i told identity id t deed) := by
  obtain ⟨-, hthread, hdeed⟩ : (Proc.holding .authorized identity deed id t).Right s.returned
      s.discussions := hp ▸ h.right i
  cases deed with
  | comment id' body =>
    simp only [ThreadIds.act, Discussions.comment]
    by_cases hid : (s.discussions.thread id).isSome
    · simp only [if_pos hid]
      refine Inv.answer (h.comment rfl hid hthread fun j packId hj => ?_) _
      exact hok (id, t.packId) (by rw [hp]; rfl) hid j packId hj
    · simp only [if_neg hid]
      exact h.answer _
  | moderate c hidden =>
    simp only [ThreadIds.act]
    rcases hc : s.discussions.threadOfComment c with _ | j
    · exact h.answer _
    · exact Inv.answer (h.moderate fun t' => hdeed j t' hc) _
  | merge =>
    simp only [ThreadIds.act]
    rcases told.written with e | commit
    · exact h.answer _
    · exact h.settle hthread
  | close => exact h.settle hthread
  | reopen =>
    simp only [ThreadIds.act]
    by_cases hr : (s.discussions.reopenIssue id).1
    · simp only [if_pos hr]
      refine Inv.answer (h.modify (fun t => ?_) hthread) _
      simp only
      split_ifs <;> rfl
    · simp only [if_neg hr]
      exact h.answer _

/-- A thread is read: a comment that is moderated was on it, if it is there. -/
theorem Inv.load (h : Inv s)
    (hdeed : ∀ c hidden, deed = .moderate c hidden → (s.discussions.thread id).isSome →
      s.discussions.threadOfComment c = some id) : Inv (load s i identity deed id) := by
  simp only [ThreadIds.load]
  rcases ht : s.discussions.thread id with _ | t
  · exact h.answer _
  · have hid : (s.discussions.thread id).isSome := ht ▸ rfl
    have hsame : ∀ t', s.discussions.thread id = some t' → t'.packId = t.packId := by
      intro t' ht'
      rw [Option.some.inj (ht'.symm.trans ht)]
    refine h.to ⟨h.known id hid, hsame, ?_⟩
    cases deed with
    | comment | merge | close | reopen => trivial
    | moderate c hidden =>
      intro j t' hj ht'
      obtain rfl := Option.some.inj ((hdeed c hidden rfl hid).symm.trans hj)
      exact hsame t' ht'

/-- One step of a party. -/
theorem Inv.next (h : Inv s) (hok : Fresh s (.next i told)) (hs : next s i told = some s') :
    Inv s' := by
  rw [ThreadIds.next.eq_def] at hs
  rcases hp : s.procs i with _ | ⟨identity, deed⟩ | ⟨identity, c, hidden, id⟩ |
    ⟨phase, identity, deed, id, t⟩ | answer <;> simp only [hp] at hs
  · cases hs
  · obtain rfl := Option.some.inj hs
    cases deed with
    | comment | merge | close | reopen => exact h.load fun _ _ he => (nomatch he)
    | moderate c hidden =>
      rcases hc : s.discussions.threadOfComment c with _ | id <;> simp only [hc]
      · exact h.answer _
      · have hright : (Proc.located identity c hidden id).Right s.returned s.discussions :=
          ⟨h.known id (h.hang c id hc), fun _ => hc⟩
        exact h.to hright
  · obtain rfl := Option.some.inj hs
    have hright : (Proc.located identity c hidden id).Right s.returned s.discussions :=
      hp ▸ h.right i
    refine h.load fun c' hidden' he hid => ?_
    obtain ⟨rfl, rfl⟩ := Deed.moderate.inj he
    exact hright.2 hid
  · -- What was read is right however far the party is with its checks.
    have hright : (Proc.holding phase identity deed id t).Right s.returned s.discussions :=
      hp ▸ h.right i
    have hcheck : Inv (match check told identity t phase deed with
        | .error e => s.answer i (.error e)
        | .ok phase => s.to i (.holding phase identity deed id t)) := by
      rcases check told identity t phase deed with e | phase'
      · exact h.answer _
      · exact h.to hright
    cases phase with
    | authorized =>
      obtain rfl := Option.some.inj hs
      exact h.act hp hok
    | loaded | admitted | unsilenced =>
      obtain rfl := Option.some.inj hs
      exact hcheck
  · cases hs

/-- In every run in which no thread is opened while the one that was opened last is gone, and no
    comment is posted under an id that somebody holds who moderates another pack, an id names one
    thread, and who is authorised for a pack changes nothing of another. -/
theorem system_namesOne (h : system.Reach Fresh s) : NamesOne s := by
  suffices hinv : Inv s from
    ⟨hinv.decreasing.imp fun hab => (ne_of_gt hab), hinv.changed⟩
  refine h.invariant (fun s hs => ?_) fun s a s' hi hok hst => ?_
  · obtain ⟨hd, hprocs, hreturned, hchanged⟩ := hs
    refine ⟨by rw [hreturned]; exact .nil, fun id hid => ?_, fun c id hc => ?_, fun i => ?_,
      by rw [hchanged]; exact List.forall_mem_nil _⟩
    · rw [hd] at hid
      cases hid
    · rw [hd] at hc
      cases hc
    · rw [hprocs]
      trivial
  · cases a with
    | openThread => exact Option.some.inj hst ▸ hi.openThread hok
    | forgetPackThreads => exact Option.some.inj hst ▸ hi.forgetPackThreads
    | begin i identity deed =>
      simp only [system, step] at hst
      rcases hp : s.procs i <;> simp only [hp] at hst <;> cases hst
      exact hi.to trivial
    | next i told => exact hi.next hok hst

/-! ### The log -/

/-- What is changed of a thread that is there is in the log. -/
theorem log_ne {packId : String} (hid : (s.discussions.thread id).isSome) :
    s.log packId id ≠ s.changed := by
  obtain ⟨t, ht⟩ := Option.isSome_iff_exists.1 hid
  rw [State.log, ht]
  exact fun he => absurd (congrArg List.length he) (by simp)

/-- A step of a party that logs nothing leaves the discussions as they are. -/
theorem discussions_of_changed_eq (hang : Hang s.discussions) (hs : next s i told = some s')
    (hlog : s'.changed = s.changed) : s'.discussions = s.discussions := by
  have hload (identity : Identity) (deed : Deed) (id : ℕ) :
      (load s i identity deed id).discussions = s.discussions := by
    rw [ThreadIds.load]
    split <;> rfl
  have hsettle {identity : Identity} {id : ℕ} {t : ThreadRow} {status : ThreadStatus}
      {commit : Option String} {complaint : String}
      (hlog : (settle s i told identity id t status commit complaint).changed = s.changed) :
      (settle s i told identity id t status commit complaint).discussions = s.discussions := by
    simp only [ThreadIds.settle] at hlog ⊢
    split_ifs at hlog ⊢ with hsettled
    · obtain ⟨t', ht', -⟩ := (Option.any_eq_true ..).1 hsettled
      exact absurd hlog (log_ne (ht' ▸ rfl))
    · rfl
  rw [ThreadIds.next.eq_def] at hs
  rcases hp : s.procs i with _ | ⟨identity, deed⟩ | ⟨identity, c, hidden, id⟩ |
    ⟨phase, identity, deed, id, t⟩ | answer <;> simp only [hp] at hs
  · cases hs
  · obtain rfl := Option.some.inj hs
    cases deed with
    | comment | merge | close | reopen => exact hload ..
    | moderate c hidden => rcases hc : s.discussions.threadOfComment c <;> simp only [hc] <;> rfl
  · obtain rfl := Option.some.inj hs
    exact hload ..
  · have hcheck : (match check told identity t phase deed with
        | .error e => s.answer i (.error e)
        | .ok phase => s.to i (.holding phase identity deed id t)).discussions =
          s.discussions := by
      rcases check told identity t phase deed <;> rfl
    cases phase with
    | loaded | admitted | unsilenced =>
      obtain rfl := Option.some.inj hs
      exact hcheck
    | authorized =>
      obtain rfl := Option.some.inj hs
      cases deed with
      | comment id' body =>
        simp only [ThreadIds.act, Discussions.comment] at hlog ⊢
        by_cases hid : (s.discussions.thread id).isSome
        · simp only [if_pos hid] at hlog
          exact absurd hlog (log_ne hid)
        · simp only [if_neg hid]
          rfl
      | moderate c hidden =>
        simp only [ThreadIds.act] at hlog ⊢
        rcases hc : s.discussions.threadOfComment c with _ | j <;> simp only [hc] at hlog ⊢
        · rfl
        · exact absurd hlog (log_ne (hang c j hc))
      | merge =>
        simp only [ThreadIds.act] at hlog ⊢
        rcases hw : told.written with e | commit <;> simp only [hw] at hlog ⊢
        · rfl
        · exact hsettle hlog
      | close => exact hsettle hlog
      | reopen =>
        simp only [ThreadIds.act] at hlog ⊢
        split_ifs at hlog ⊢ with hreopened
        · obtain ⟨t', ht', -⟩ := (Option.any_eq_true ..).1 hreopened
          exact absurd hlog (log_ne (ht' ▸ rfl))
        · rfl
  · cases hs

end Invariant

/-! ## Runs -/

/-- Nothing was said. -/
def start : State := ⟨.empty, fun _ => .idle, [], []⟩

/-- Account 42 opens an issue on a pack. -/
def issue (packId : String) : Act := .openThread packId .issue "It crashes" "On start." 42 none 1

/-- A member, and what it is told. -/
def member : Identity := ⟨42, "member", .member⟩

def told : Told := ⟨.empty, fun _ => true, 0, .ok "", 2⟩

/-- An issue is opened, and closed by who opened it. -/
theorem system_namesOne_close :
    ∃ s, system.Reachable s ∧ s.returned = [1] ∧
      s.changed = [("u/42/Industrial", "u/42/Industrial")] ∧
      (s.discussions.thread 1).any (fun t => t.status = .closed) ∧ NamesOne s := by
  have h₀ : system.Reach Fresh start := .init ⟨rfl, fun _ => rfl, rfl, rfl⟩
  have opened := h₀.step (a := issue "u/42/Industrial") (by intro id hid; cases hid) rfl
  have asked := opened.step (a := .begin 0 member (.close 1)) (by exact trivial) rfl
  have loaded := asked.step (a := .next 0 told) (by intro x hx; cases hx) rfl
  have checked := loaded.step (a := .next 0 told) (by intro x hx; cases hx) rfl
  have closed := checked.step (a := .next 0 told) (by intro x hx; cases hx) rfl
  exact ⟨_, closed.mono fun _ _ _ => trivial, by decide +kernel, by decide +kernel,
    by decide +kernel, system_namesOne closed⟩

/-- Somebody may close an issue of a pack; the pack is deleted, and an issue is opened on another
    one, which gets its id, and is closed. -/
theorem system_wrongThread :
    ∃ s, system.Reachable s ∧ s.returned = [1, 1] ∧
      s.changed = [("u/42/Industrial", "Create")] ∧
      (s.discussions.thread 1).map (fun t => (t.packId, t.status)) = some ("Create", .closed) ∧
      ¬ NamesOne s := by
  have hrun : ∃ s, system.run start
      [issue "u/42/Industrial", .begin 0 member (.close 1), .next 0 told, .next 0 told,
        .forgetPackThreads "u/42/Industrial",
        .openThread "Create" .issue "Belts" "They stop." 7 none 2, .next 0 told] = some s ∧
      s.returned = [1, 1] ∧ s.changed = [("u/42/Industrial", "Create")] ∧
      (s.discussions.thread 1).map (fun t => (t.packId, t.status)) = some ("Create", .closed) :=
    ⟨_, rfl, by decide +kernel, by decide +kernel, by decide +kernel⟩
  obtain ⟨s, hs, hreturned, hchanged, hthread⟩ := hrun
  have h₀ : system.Reachable start := .init ⟨rfl, fun _ => rfl, rfl, rfl⟩
  refine ⟨s, h₀.run hs, hreturned, hchanged, hthread, fun h => ?_⟩
  exact absurd h.returned (by rw [hreturned]; decide)

end ThreadIds

end Smrt
