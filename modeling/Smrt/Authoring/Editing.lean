import Smrt.Authoring.PackDocs
import Smrt.Lib.Broadcast
import Smrt.Lib.Causal

/-!
# Editors of one pack

An editor of a pack catches up with the document of the mirror in a session, posts what it changes,
and is told what others change on the stream of the pack. A session is opened by fetching what the
document holds, and is there once the answer has come; what the stream brings meanwhile goes
nowhere. The requests of the editors come in any order, and some of them never.

An update is a set of operations on the document, which may follow operations of others: those of
its session before it, and any that the session shows.

As long as the document is not forgotten (`Keeps`):

* `reach_places`: every update that was pushed is in one place, on its way, in hand, merged or lost;
* `reach_tells`: the room is told only what is merged, and a session holds nothing else but its own
  changes; what is merged it holds, or it will be told to the room, or was since the mirror
  answered.
-/

namespace Smrt

namespace Editing

open Broadcast Causal

/-- The name of an update: what a document is seeded with, or the changes of a session, in turn. -/
inductive Name
  | seed (doc : ℕ)
  | push (session clock : ℕ)
  deriving DecidableEq

/-- What the room of a pack is told: an update, or that something was saved or committed, or who is
    there. -/
inductive Event
  | doc (u : Update Name)
  | other
  deriving DecidableEq

def Event.update : Event → Option (Update Name)
  | doc u => some u
  | other => none

/-! ## Editors -/

/-- A session. `since` says how much the room had been told when the mirror answered. -/
structure Session where
  /-- What the document of the mirror held. -/
  fetched : List (Update Name)
  heard : List (Update Name)
  pushed : List (Update Name)
  since : ℕ

/-- What the document of a session holds. -/
def Session.held (p : Session) : List (Update Name) := p.fetched ++ p.heard ++ p.pushed

/-- A stream of events: the place of the mirror's receiver, and what it sent that has not arrived
    yet, each with its place. -/
structure Stream where
  place : ℕ
  wire : List (ℕ × Event)

/-- An editor: its stream, how many fetches of it the mirror has yet to answer, the answers that are
    on their way, and the session that it is in. -/
structure Editor where
  stream : Option Stream
  asked : ℕ
  answered : List Session
  session : Option ℕ

structure State where
  docs : PackDocs (Update Name)
  /-- What the room was told. -/
  told : List Event
  sessions : ℕ → Session
  /-- How many sessions there were. -/
  next : ℕ
  editors : ℕ → Editor
  /-- The requests on their way to the mirror. -/
  posts : List (Update Name)
  /-- The requests that have a document in hand. -/
  handling : List (Update Name × ℕ)
  /-- The updates that are merged, and that the room has yet to be told. -/
  telling : List (Update Name)
  /-- The updates whose request was lost. -/
  lost : List (Update Name)

/-- `BACKLOG`. -/
def backlog : ℕ := 32

/-- The updates that are merged into the live document. -/
def merged (docs : PackDocs (Update Name)) : List (Update Name) :=
  docs.live.elim [] fun d => (docs.heap d).applied

/-- What the live document holds. -/
def kept (docs : PackDocs (Update Name)) : List (Update Name) :=
  docs.live.elim [] fun d => ⟨.seed d, []⟩ :: (docs.heap d).applied

def State.edit (s : State) (e : ℕ) (ed : Editor) : State :=
  { s with editors := setAt s.editors e ed }

/-! ## The system -/

/-- What happens. -/
inductive Act
  /-- A stream is opened, or opened again. -/
  | subscribe (e : ℕ)
  | cut (e : ℕ)
  /-- The session is closed, and another one is asked for. -/
  | reopen (e : ℕ)
  | close (e : ℕ)
  /-- The mirror answers with the document, seeded from the config if there is none. -/
  | answer (e : ℕ) (cfg : PackConfig)
  | refuse (e : ℕ)
  /-- The answer arrives: there is a session. -/
  | seat (e i : ℕ)
  /-- What is on screen is written into the document of the session. -/
  | push (e : ℕ) (after : List Name)
  | lose (i : ℕ)
  | hold (i : ℕ) (cfg : PackConfig)
  | merge (i : ℕ)
  | publish (i : ℕ)
  /-- The room is told something else. -/
  | tell
  /-- The mirror sends the next event on the stream. -/
  | send (e : ℕ)
  /-- An event arrives. -/
  | arrive (e : ℕ)
  /-- A write goes around the document. -/
  | forget

/-- What the changes of a session follow that it makes next. -/
def Session.previous (p : Session) (n : ℕ) : List Name :=
  if p.pushed.length = 0 then [] else [.push n (p.pushed.length - 1)]

/-- The next changes of a session, as an update. -/
def Session.update (p : Session) (n : ℕ) (after : List Name) : Update Name :=
  ⟨.push n p.pushed.length, p.previous n ++ after⟩

def Session.push (p : Session) (u : Update Name) : Session := { p with pushed := p.pushed ++ [u] }

/-- A stream without the event that arrives. -/
def Stream.pop (w : Stream) : Stream := { w with wire := w.wire.tail }

/-- An event goes on the stream; a receiver that is told that it lagged goes on. -/
def Stream.take (w : Stream) : Received Event × ℕ → Option Stream
  | (.message e, place) => some ⟨place, w.wire ++ [(w.place, e)]⟩
  | (.lagged _, place) => some { w with place }
  | (.nothing, _) => none

/-- The receiver of a stream gets the next event that is kept. -/
def Stream.send (told : List Event) (w : Stream) : Option Stream :=
  w.take (recv backlog told w.place)

def Session.hear (p : Session) (u : Update Name) : Session := { p with heard := p.heard ++ [u] }

def State.change (s : State) (n : ℕ) (p : Session) : State :=
  { s with sessions := setAt s.sessions n p }

/-- The session that there is, if there is one, takes an update from the room. -/
def State.receive (s : State) : Option ℕ → Event → State
  | some n, .doc u => s.change n ((s.sessions n).hear u)
  | _, _ => s

def step (s : State) : Act → Option State
  | .subscribe e => some (s.edit e { s.editors e with stream := some ⟨s.told.length, []⟩ })
  | .cut e => some (s.edit e { s.editors e with stream := none })
  | .reopen e =>
    some (s.edit e { s.editors e with session := none, asked := (s.editors e).asked + 1 })
  | .close e => some (s.edit e { s.editors e with session := none })
  | .answer e cfg =>
    if 0 < (s.editors e).asked then
      some { s.edit e { s.editors e with
          asked := (s.editors e).asked - 1
          answered := (s.editors e).answered ++
            [⟨kept (s.docs.getOrSeed cfg).1, [], [], s.told.length⟩] } with
        docs := (s.docs.getOrSeed cfg).1 }
    else none
  | .refuse e =>
    if 0 < (s.editors e).asked then
      some (s.edit e { s.editors e with asked := (s.editors e).asked - 1 })
    else none
  | .seat e i =>
    (s.editors e).answered[i]?.map fun p =>
      { (s.edit e { s.editors e with
          answered := (s.editors e).answered.eraseIdx i
          session := some s.next }).change s.next p with
        next := s.next + 1 }
  | .push e after =>
    (s.editors e).session.bind fun n =>
      if after ⊆ shown (s.sessions n).held then
        let u := (s.sessions n).update n after
        some { s.change n ((s.sessions n).push u) with posts := s.posts ++ [u] }
      else none
  | .lose i =>
    s.posts[i]?.map fun u => { s with posts := s.posts.eraseIdx i, lost := s.lost ++ [u] }
  | .hold i cfg =>
    s.posts[i]?.map fun u =>
      { s with
        docs := (s.docs.getOrSeed cfg).1
        posts := s.posts.eraseIdx i
        handling := s.handling ++ [(u, (s.docs.getOrSeed cfg).2)] }
  | .merge i =>
    s.handling[i]?.map fun p =>
      { s with
        docs := s.docs.apply p.2 p.1
        handling := s.handling.eraseIdx i
        telling := s.telling ++ [p.1] }
  | .publish i =>
    s.telling[i]?.map fun u =>
      { s with telling := s.telling.eraseIdx i, told := s.told ++ [.doc u] }
  | .tell => some { s with told := s.told ++ [.other] }
  | .send e =>
    (s.editors e).stream.bind fun w => (w.send s.told).map fun w' =>
      s.edit e { s.editors e with stream := some w' }
  | .arrive e =>
    (s.editors e).stream.bind fun w => w.wire.head?.map fun p =>
      (s.edit e { s.editors e with stream := some w.pop }).receive
        (s.editors e).session p.2
  | .forget => some { s with docs := s.docs.forget }

/-- The mirror has just started. -/
def system : System State Act where
  init s := s.docs.live = none ∧ s.told = [] ∧ s.next = 0 ∧
    (∀ e, s.editors e = ⟨none, 0, [], none⟩) ∧
    s.posts = [] ∧ s.handling = [] ∧ s.telling = [] ∧ s.lost = []
  step := step

/-- The document is not forgotten. -/
def Keeps (_ : State) : Act → Prop
  | .forget => False
  | _ => True

/-! ## Documents -/

section Docs

variable {docs : PackDocs (Update Name)} {d : ℕ} {u : Update Name}

theorem mem_kept : u ∈ kept docs ↔
    (∃ d, docs.live = some d ∧ u = ⟨.seed d, []⟩) ∨ u ∈ merged docs := by
  rw [kept, merged]
  rcases docs.live with _ | d
  · simp
  · simp

/-- Seeding a document merges nothing. -/
theorem merged_getOrSeed (cfg : PackConfig) : merged (docs.getOrSeed cfg).1 = merged docs := by
  rcases hlive : docs.live with _ | d
  · rw [PackDocs.getOrSeed_of_none hlive, merged, merged, hlive]
    exact congrArg Doc.applied (setAt_self ..)
  · rw [PackDocs.getOrSeed_of_live hlive]

theorem live_getOrSeed_of_some (h : docs.live = some d) (cfg : PackConfig) :
    (docs.getOrSeed cfg).1.live = some d := by
  rw [PackDocs.getOrSeed_of_live h, h]

theorem kept_getOrSeed_subset (cfg : PackConfig) (hu : u ∈ kept docs) :
    u ∈ kept (docs.getOrSeed cfg).1 := by
  rw [mem_kept] at hu ⊢
  rcases hu with ⟨d, hd, rfl⟩ | hu
  · exact .inl ⟨d, live_getOrSeed_of_some hd cfg, rfl⟩
  · exact .inr ((merged_getOrSeed cfg).symm ▸ hu)

theorem merged_apply (h : docs.live = some d) : merged (docs.apply d u) = merged docs ++ [u] := by
  rw [merged, merged, PackDocs.live_apply, h]
  exact congrArg Doc.applied (PackDocs.heap_apply_self d u)

end Docs

/-! ## Where the updates are -/

section Edit

variable {s : State} {e n : ℕ} {ed : Editor} {p : Session}

/-- What holds of every editor, when one is edited. -/
theorem forall_edit {P : Editor → Prop} (h : ∀ e', P (s.editors e')) (hed : P ed) (e' : ℕ) :
    P ((s.edit e ed).editors e') := by
  show P (setAt s.editors e ed e')
  by_cases he : e' = e
  · rw [he, setAt_self]
    exact hed
  · rw [setAt_of_ne _ _ he]
    exact h e'

/-- What holds of every session, when one is changed. -/
theorem forall_change {P : ℕ → Session → Prop} {m : ℕ} (h : ∀ n' < m, P n' (s.sessions n'))
    (hp : P n p) : ∀ n' < m, P n' ((s.change n p).sessions n') := by
  intro n' hn'
  show P n' (setAt s.sessions n p n')
  by_cases he : n' = n
  · rw [he, setAt_self]
    exact hp
  · rw [setAt_of_ne _ _ he]
    exact h n' hn'

end Edit

/-- The updates that were pushed. -/
def State.Pushed (s : State) (u : Update Name) : Prop := ∃ n < s.next, u ∈ (s.sessions n).pushed

/-- The updates wherever they are: on their way, in hand, merged or lost. -/
def State.everywhere (s : State) : List (Update Name) :=
  s.posts ++ s.handling.map Prod.fst ++ merged s.docs ++ s.lost

/-- The updates of a session are named by it, in turn. -/
def Session.Named (p : Session) (n : ℕ) : Prop :=
  ∀ (k : ℕ) (u : Update Name), p.pushed[k]? = some u → u.name = .push n k

/-- Every update that was pushed is in one place. -/
structure Places (s : State) : Prop where
  inHand : ∀ p ∈ s.handling, s.docs.live = some p.2
  once : s.everywhere.Nodup
  made : ∀ u, u ∈ s.everywhere ↔ s.Pushed u
  named : ∀ n < s.next, (s.sessions n).Named n
  unpushed : ∀ e, ∀ p ∈ (s.editors e).answered, p.pushed = []
  seated : ∀ e n, (s.editors e).session = some n → n < s.next

section Places

variable {s s' : State} {a : Act} {e n : ℕ}

theorem Places.edit (h : Places s) {ed : Editor} (ha : ∀ p ∈ ed.answered, p.pushed = [])
    (hs : ∀ n, ed.session = some n → n < s.next) : Places (s.edit e ed) where
  inHand := h.inHand
  once := h.once
  made := h.made
  named := h.named
  unpushed := forall_edit (P := fun ed => ∀ p ∈ ed.answered, p.pushed = []) h.unpushed ha
  seated := forall_edit (P := fun ed => ∀ n, ed.session = some n → n < s.next) h.seated hs

/-- An update that goes from one place to another. -/
theorem Places.move (h : Places s) (hin : ∀ p ∈ s'.handling, s'.docs.live = some p.2)
    (hperm : s'.everywhere.Perm s.everywhere) (hs : s'.sessions = s.sessions)
    (hn : s'.next = s.next) (he : s'.editors = s.editors) : Places s' where
  inHand := hin
  once := hperm.nodup_iff.2 h.once
  made u := by
    rw [hperm.mem_iff, h.made, State.Pushed, State.Pushed, hs, hn]
  named := by
    rw [hs, hn]
    exact h.named
  unpushed := by
    rw [he]
    exact h.unpushed
  seated := by
    rw [he, hn]
    exact h.seated

theorem perm_of_getElem? {α : Type*} {l : List α} {i : ℕ} {a : α} (h : l[i]? = some a) :
    l.Perm (a :: l.eraseIdx i) := by
  obtain ⟨hi, rfl⟩ := List.getElem?_eq_some_iff.1 h
  exact (List.getElem_cons_eraseIdx_perm hi).symm

/-- Documents that hold what they held. -/
theorem Places.answer (h : Places s) (cfg : PackConfig) :
    Places { s with docs := (s.docs.getOrSeed cfg).1 } :=
  h.move (fun p hp => live_getOrSeed_of_some (h.inHand p hp) cfg)
    (by rw [State.everywhere, State.everywhere, merged_getOrSeed]) rfl rfl rfl

theorem Places.seat (h : Places s) {i : ℕ} {p : Session}
    (hp : (s.editors e).answered[i]? = some p) :
    Places { (s.edit e { s.editors e with
        answered := (s.editors e).answered.eraseIdx i
        session := some s.next }).change s.next p with
      next := s.next + 1 } := by
  have hpushed : p.pushed = [] := h.unpushed e p (List.mem_of_getElem? hp)
  have hold (n : ℕ) (hn : n < s.next) : setAt s.sessions s.next p n = s.sessions n :=
    setAt_of_ne _ _ hn.ne
  refine ⟨h.inHand, h.once, fun u => (h.made u).trans ?_, fun n hn => ?_, ?_, ?_⟩
  · constructor
    · rintro ⟨n, hn, hu⟩
      refine ⟨n, Nat.lt_succ_of_lt hn, ?_⟩
      show u ∈ (setAt s.sessions s.next p n).pushed
      rwa [hold n hn]
    · rintro ⟨n, hn, hu⟩
      have hu : u ∈ (setAt s.sessions s.next p n).pushed := hu
      rcases Nat.lt_succ_iff_lt_or_eq.1 hn with hn | rfl
      · exact ⟨n, hn, hold n hn ▸ hu⟩
      · rw [setAt_self, hpushed] at hu
        exact absurd hu List.not_mem_nil
  · show (setAt s.sessions s.next p n).Named n
    rcases Nat.lt_succ_iff_lt_or_eq.1 hn with hn | rfl
    · rw [hold n hn]
      exact h.named n hn
    · rw [setAt_self]
      intro k u hu
      rw [hpushed] at hu
      exact absurd hu (by simp)
  · exact forall_edit (P := fun ed => ∀ p ∈ ed.answered, p.pushed = []) h.unpushed
      fun p hp => h.unpushed e p (List.mem_of_mem_eraseIdx hp)
  · exact forall_edit (P := fun ed => ∀ n, ed.session = some n → n < s.next + 1)
      (fun e n hn => Nat.lt_succ_of_lt (h.seated e n hn)) (by simp)

theorem Places.push (h : Places s) (hn : n < s.next) {u : Update Name}
    (hname : u.name = .push n (s.sessions n).pushed.length) :
    Places { s.change n ((s.sessions n).push u) with posts := s.posts ++ [u] } := by
  have hself : ((s.change n ((s.sessions n).push u)).sessions n) = (s.sessions n).push u :=
    setAt_self ..
  have hother (m : ℕ) (hm : m ≠ n) :
      (s.change n ((s.sessions n).push u)).sessions m = s.sessions m := setAt_of_ne _ _ hm
  have hpushed (v : Update Name) : State.Pushed
      { s.change n ((s.sessions n).push u) with posts := s.posts ++ [u] } v ↔
        s.Pushed v ∨ v = u := by
    constructor
    · rintro ⟨m, hm, hv⟩
      have hv : v ∈ ((s.change n ((s.sessions n).push u)).sessions m).pushed := hv
      by_cases he : m = n
      · rw [he, hself] at hv
        rcases List.mem_append.1 hv with hv | hv
        · exact .inl ⟨n, hn, hv⟩
        · exact .inr (List.mem_singleton.1 hv)
      · rw [hother m he] at hv
        exact .inl ⟨m, hm, hv⟩
    · rintro (⟨m, hm, hv⟩ | rfl)
      · refine ⟨m, hm, ?_⟩
        show v ∈ ((s.change n ((s.sessions n).push u)).sessions m).pushed
        by_cases he : m = n
        · rw [he] at hv ⊢
          rw [hself]
          exact List.mem_append_left _ hv
        · rwa [hother m he]
      · refine ⟨n, hn, ?_⟩
        show v ∈ ((s.change n ((s.sessions n).push v)).sessions n).pushed
        rw [hself]
        exact List.mem_append_right _ (List.mem_singleton_self v)
  have hperm : (State.everywhere
      { s.change n ((s.sessions n).push u) with posts := s.posts ++ [u] }).Perm
        (u :: s.everywhere) := by
    show (s.posts ++ [u] ++ s.handling.map Prod.fst ++ merged s.docs ++ s.lost).Perm _
    rw [State.everywhere, List.append_assoc, List.append_assoc, List.append_assoc,
      List.append_assoc, List.append_assoc]
    exact List.perm_middle
  have hnot : u ∉ s.everywhere := by
    rw [h.made]
    rintro ⟨m, hm, hu⟩
    obtain ⟨k, hk⟩ := List.mem_iff_getElem?.1 hu
    have hk' := h.named m hm k u hk
    rw [hname, Name.push.injEq] at hk'
    obtain ⟨rfl, rfl⟩ := hk'
    rw [List.getElem?_eq_none (Nat.le_refl _)] at hk
    exact absurd hk (Option.some_ne_none u).symm
  refine ⟨h.inHand, hperm.nodup_iff.2 (List.nodup_cons.2 ⟨hnot, h.once⟩), fun v => ?_, ?_,
    h.unpushed, h.seated⟩
  · rw [hperm.mem_iff, List.mem_cons, hpushed, h.made, or_comm]
  · refine forall_change (P := fun m p => p.Named m) h.named fun k v hv => ?_
    have hv : ((s.sessions n).pushed ++ [u])[k]? = some v := hv
    rw [List.getElem?_append] at hv
    split_ifs at hv with hk
    · exact h.named n hn k v hv
    · obtain rfl : k = (s.sessions n).pushed.length := by
        obtain ⟨hlt, -⟩ := List.getElem?_eq_some_iff.1 hv
        rw [List.length_singleton] at hlt
        omega
      rw [Nat.sub_self] at hv
      obtain rfl : u = v := Option.some_injective _ hv
      exact hname

end Places

section Steps

variable {s s' : State} {a : Act} {e : ℕ}

/-- Taking an event changes what a session has heard, at most. -/
theorem receive_cases (s : State) (session : Option ℕ) (ev : Event) :
    s.receive session ev = s ∨ ∃ n u, session = some n ∧ ev = .doc u ∧
      s.receive session ev = s.change n ((s.sessions n).hear u) := by
  rcases session with _ | n
  · exact .inl rfl
  · rcases ev with u | _
    · exact .inr ⟨n, u, rfl, rfl, rfl⟩
    · exact .inl rfl

theorem Places.hear (h : Places s) (n : ℕ) (u : Update Name) :
    Places (s.change n ((s.sessions n).hear u)) := by
  have hpushed (m : ℕ) :
      ((s.change n ((s.sessions n).hear u)).sessions m).pushed = (s.sessions m).pushed := by
    show (setAt s.sessions n _ m).pushed = _
    by_cases he : m = n
    · rw [he, setAt_self]
      rfl
    · rw [setAt_of_ne _ _ he]
  refine ⟨h.inHand, h.once, fun v => (h.made v).trans ?_, fun m hm k v hv => ?_, h.unpushed,
    h.seated⟩
  · exact exists_congr fun m => and_congr_right fun _ => by rw [hpushed m]
  · rw [hpushed] at hv
    exact h.named m hm k v hv

theorem Places.lose (h : Places s) {i : ℕ} {u : Update Name} (hu : s.posts[i]? = some u) :
    Places { s with posts := s.posts.eraseIdx i, lost := s.lost ++ [u] } := by
  refine h.move h.inHand (List.perm_iff_count.2 fun v => ?_) rfl rfl rfl
  have hcount := (perm_of_getElem? hu).count_eq v
  rw [List.count_cons] at hcount
  simp only [State.everywhere, List.count_append, List.count_singleton]
  omega

theorem Places.hold (h : Places s) {i : ℕ} {u : Update Name} (hu : s.posts[i]? = some u)
    (cfg : PackConfig) :
    Places { s with
      docs := (s.docs.getOrSeed cfg).1
      posts := s.posts.eraseIdx i
      handling := s.handling ++ [(u, (s.docs.getOrSeed cfg).2)] } := by
  refine h.move (fun p hp => ?_) (List.perm_iff_count.2 fun v => ?_) rfl rfl rfl
  · rcases List.mem_append.1 hp with hp | hp
    · exact live_getOrSeed_of_some (h.inHand p hp) cfg
    · rw [List.mem_singleton.1 hp]
      exact PackDocs.live_getOrSeed cfg
  · have hcount := (perm_of_getElem? hu).count_eq v
    rw [List.count_cons] at hcount
    simp only [State.everywhere, List.count_append, List.count_singleton, List.map_append,
      List.map_cons, List.map_nil, merged_getOrSeed]
    omega

theorem Places.merge (h : Places s) {i : ℕ} {p : Update Name × ℕ}
    (hp : s.handling[i]? = some p) :
    Places { s with
      docs := s.docs.apply p.2 p.1
      handling := s.handling.eraseIdx i
      telling := s.telling ++ [p.1] } := by
  have hlive := h.inHand p (List.mem_of_getElem? hp)
  refine h.move (fun q hq => h.inHand q (List.mem_of_mem_eraseIdx hq))
    (List.perm_iff_count.2 fun v => ?_) rfl rfl rfl
  have hcount := ((perm_of_getElem? hp).map Prod.fst).count_eq v
  rw [List.map_cons, List.count_cons] at hcount
  simp only [State.everywhere, List.count_append, List.count_singleton, merged_apply hlive]
  omega

theorem Places.step (h : Places s) (hok : Keeps s a) (hst : step s a = some s') : Places s' := by
  cases a with
  | subscribe e | cut e =>
    obtain rfl := Option.some.inj hst
    exact h.edit (h.unpushed e) (h.seated e)
  | reopen e | close e =>
    obtain rfl := Option.some.inj hst
    exact h.edit (h.unpushed e) (by simp)
  | answer e cfg =>
    rw [Editing.step] at hst
    split_ifs at hst
    obtain rfl := Option.some.inj hst
    refine (h.answer cfg).edit (fun p hp => ?_) (h.seated e)
    rcases List.mem_append.1 hp with hp | hp
    · exact h.unpushed e p hp
    · rw [List.mem_singleton.1 hp]
  | refuse e =>
    rw [Editing.step] at hst
    split_ifs at hst
    obtain rfl := Option.some.inj hst
    exact h.edit (h.unpushed e) (h.seated e)
  | seat e i =>
    obtain ⟨p, hp, rfl⟩ := Option.map_eq_some_iff.1 hst
    exact h.seat hp
  | push e after =>
    obtain ⟨n, hn, hst⟩ := Option.bind_eq_some_iff.1 hst
    split_ifs at hst
    obtain rfl := Option.some.inj hst
    exact h.push (h.seated e n hn) rfl
  | lose i =>
    obtain ⟨u, hu, rfl⟩ := Option.map_eq_some_iff.1 hst
    exact h.lose hu
  | hold i cfg =>
    obtain ⟨u, hu, rfl⟩ := Option.map_eq_some_iff.1 hst
    exact h.hold hu cfg
  | merge i =>
    obtain ⟨p, hp, rfl⟩ := Option.map_eq_some_iff.1 hst
    exact h.merge hp
  | publish i =>
    obtain ⟨u, -, rfl⟩ := Option.map_eq_some_iff.1 hst
    exact ⟨h.inHand, h.once, h.made, h.named, h.unpushed, h.seated⟩
  | tell =>
    obtain rfl := Option.some.inj hst
    exact ⟨h.inHand, h.once, h.made, h.named, h.unpushed, h.seated⟩
  | send e =>
    obtain ⟨w, -, hst⟩ := Option.bind_eq_some_iff.1 hst
    obtain ⟨w', -, rfl⟩ := Option.map_eq_some_iff.1 hst
    exact h.edit (h.unpushed e) (h.seated e)
  | arrive e =>
    obtain ⟨w, -, hst⟩ := Option.bind_eq_some_iff.1 hst
    obtain ⟨p, -, rfl⟩ := Option.map_eq_some_iff.1 hst
    have hed : Places (s.edit e { s.editors e with stream := some w.pop }) :=
      h.edit (h.unpushed e) (h.seated e)
    rcases receive_cases _ (s.editors e).session p.2 with hr | ⟨n, u, -, -, hr⟩
    · rw [hr]
      exact hed
    · rw [hr]
      exact hed.hear n u
  | forget => exact hok.elim

theorem reach_places (h : system.Reach Keeps s) : Places s := by
  refine h.invariant (fun s hs => ?_) fun s a s' h hok hst => h.step hok hst
  obtain ⟨hlive, -, hnext, hed, hposts, hhand, -, hlost⟩ := hs
  have hempty : s.everywhere = [] := by
    rw [State.everywhere, merged, hlive, hposts, hhand, hlost]
    rfl
  refine ⟨?_, hempty ▸ List.nodup_nil, fun u => ?_, ?_, ?_, ?_⟩
  · rw [hhand]
    exact fun p hp => absurd hp List.not_mem_nil
  · rw [hempty, State.Pushed, hnext]
    simp
  · rw [hnext]
    exact fun n hn => absurd hn (Nat.not_lt_zero n)
  · intro e p hp
    rw [hed e] at hp
    exact absurd hp List.not_mem_nil
  · intro e n hn
    rw [hed e] at hn
    exact absurd hn (Option.some_ne_none n).symm

end Steps

/-! ## What sessions hold -/

/-- A session holds what the document of the mirror does, of what the mirror had when it answered,
    or had yet to tell the room, or has told it since. -/
structure Sound (docs : PackDocs (Update Name)) (told : List Event) (telling : List (Update Name))
    (p : Session) : Prop where
  fetched : ∀ u ∈ p.fetched, u ∈ kept docs
  seed : ∃ d, docs.live = some d ∧ ⟨.seed d, []⟩ ∈ p.fetched
  heard : ∀ u ∈ p.heard, u ∈ merged docs
  since : p.since ≤ told.length
  caught : ∀ u ∈ merged docs,
    u ∈ p.fetched ∨ u ∈ telling ∨ ∃ i, p.since ≤ i ∧ told[i]? = some (.doc u)

/-- The room is told only what is merged, and sessions hold nothing else. -/
structure Tells (s : State) : Prop where
  telling : ∀ u ∈ s.telling, u ∈ merged s.docs
  told : ∀ u, .doc u ∈ s.told → u ∈ merged s.docs
  place : ∀ e w, (s.editors e).stream = some w → w.place ≤ s.told.length
  wire : ∀ e w, (s.editors e).stream = some w → ∀ p ∈ w.wire, p.2 ∈ s.told
  sessions : ∀ n < s.next, Sound s.docs s.told s.telling (s.sessions n)
  answers : ∀ e, ∀ p ∈ (s.editors e).answered, Sound s.docs s.told s.telling p

section Sound

variable {docs : PackDocs (Update Name)} {told : List Event} {telling : List (Update Name)}
  {p : Session} {u : Update Name}

theorem Sound.answer (h : Sound docs told telling p) (cfg : PackConfig) :
    Sound (docs.getOrSeed cfg).1 told telling p where
  fetched u hu := kept_getOrSeed_subset cfg (h.fetched u hu)
  seed :=
    let ⟨d, hd, hp⟩ := h.seed
    ⟨d, live_getOrSeed_of_some hd cfg, hp⟩
  heard u hu := (merged_getOrSeed cfg).symm ▸ h.heard u hu
  since := h.since
  caught u hu := h.caught u (merged_getOrSeed cfg ▸ hu)

theorem Sound.merge (h : Sound docs told telling p) {d : ℕ} (hd : docs.live = some d) :
    Sound (docs.apply d u) told (telling ++ [u]) p where
  fetched v hv := by
    have hheld := h.fetched v hv
    rw [mem_kept] at hheld ⊢
    rw [merged_apply hd]
    exact hheld.imp id fun hv => List.mem_append_left _ hv
  seed := h.seed
  heard v hv := by
    rw [merged_apply hd]
    exact List.mem_append_left _ (h.heard v hv)
  since := h.since
  caught v hv := by
    rw [merged_apply hd] at hv
    rcases List.mem_append.1 hv with hv | hv
    · exact (h.caught v hv).imp id (Or.imp (List.mem_append_left _) id)
    · exact .inr (.inl (List.mem_append_right _ hv))

/-- What the room was told stays at its place. -/
theorem getElem?_concat {α : Type*} {l : List α} {i : ℕ} {a b : α} (h : l[i]? = some a) :
    (l ++ [b])[i]? = some a := by
  obtain ⟨hi, -⟩ := List.getElem?_eq_some_iff.1 h
  rw [List.getElem?_append_left hi, h]

theorem Sound.publish (h : Sound docs told telling p) {i : ℕ} (hu : telling[i]? = some u) :
    Sound docs (told ++ [.doc u]) (telling.eraseIdx i) p where
  fetched := h.fetched
  seed := h.seed
  heard := h.heard
  since := by
    rw [List.length_append]
    exact Nat.le_add_right_of_le h.since
  caught v hv := by
    rcases h.caught v hv with hv | hv | ⟨j, hj, ht⟩
    · exact .inl hv
    · rcases List.mem_cons.1 ((perm_of_getElem? hu).mem_iff.1 hv) with rfl | hv
      · exact .inr (.inr ⟨told.length, h.since, List.getElem?_concat_length⟩)
      · exact .inr (.inl hv)
    · exact .inr (.inr ⟨j, hj, getElem?_concat ht⟩)

theorem Sound.tell (h : Sound docs told telling p) : Sound docs (told ++ [.other]) telling p where
  fetched := h.fetched
  seed := h.seed
  heard := h.heard
  since := by
    rw [List.length_append]
    exact Nat.le_add_right_of_le h.since
  caught v hv := (h.caught v hv).imp id
    (Or.imp id fun ⟨j, hj, ht⟩ => ⟨j, hj, getElem?_concat ht⟩)

theorem Sound.hear (h : Sound docs told telling p) (hu : u ∈ merged docs) :
    Sound docs told telling (p.hear u) where
  fetched := h.fetched
  seed := h.seed
  heard v hv := by
    rcases List.mem_append.1 hv with hv | hv
    · exact h.heard v hv
    · rwa [List.mem_singleton.1 hv]
  since := h.since
  caught := h.caught

/-- An answer of the mirror. -/
theorem sound_answer {d : ℕ} (hd : docs.live = some d) :
    Sound docs told telling ⟨kept docs, [], [], told.length⟩ where
  fetched _ hu := hu
  seed := ⟨d, hd, mem_kept.2 (.inl ⟨d, hd, rfl⟩)⟩
  heard _ hu := absurd hu List.not_mem_nil
  since := Nat.le_refl _
  caught _ hu := .inl (mem_kept.2 (.inr hu))

end Sound

section Tells

variable {s s' : State} {a : Act} {e : ℕ}

theorem Tells.edit (h : Tells s) {ed : Editor}
    (hplace : ∀ w, ed.stream = some w → w.place ≤ s.told.length)
    (hwire : ∀ w, ed.stream = some w → ∀ p ∈ w.wire, p.2 ∈ s.told)
    (ha : ∀ p ∈ ed.answered, Sound s.docs s.told s.telling p) : Tells (s.edit e ed) where
  telling := h.telling
  told := h.told
  place := forall_edit (P := fun ed => ∀ w, ed.stream = some w → w.place ≤ s.told.length)
    h.place hplace
  wire := forall_edit (P := fun ed => ∀ w, ed.stream = some w → ∀ p ∈ w.wire, p.2 ∈ s.told)
    h.wire hwire
  sessions := h.sessions
  answers := forall_edit (P := fun ed => ∀ p ∈ ed.answered, Sound s.docs s.told s.telling p)
    h.answers ha

theorem Tells.change (h : Tells s) {n : ℕ} {p : Session}
    (hp : Sound s.docs s.told s.telling p) : Tells (s.change n p) where
  telling := h.telling
  told := h.told
  place := h.place
  wire := h.wire
  sessions := forall_change (P := fun _ p => Sound s.docs s.told s.telling p) h.sessions hp
  answers := h.answers

theorem Tells.answer (h : Tells s) (cfg : PackConfig) :
    Tells { s with docs := (s.docs.getOrSeed cfg).1 } where
  telling u hu := (merged_getOrSeed cfg).symm ▸ h.telling u hu
  told u hu := (merged_getOrSeed cfg).symm ▸ h.told u hu
  place := h.place
  wire := h.wire
  sessions n hn := (h.sessions n hn).answer cfg
  answers e p hp := (h.answers e p hp).answer cfg

theorem Tells.merge (h : Tells s) {d : ℕ} (hd : s.docs.live = some d) (u : Update Name) :
    Tells { s with docs := s.docs.apply d u, telling := s.telling ++ [u] } where
  telling v hv := by
    show v ∈ merged (s.docs.apply d u)
    rw [merged_apply hd]
    rcases List.mem_append.1 hv with hv | hv
    · exact List.mem_append_left _ (h.telling v hv)
    · exact List.mem_append_right _ hv
  told v hv := by
    show v ∈ merged (s.docs.apply d u)
    rw [merged_apply hd]
    exact List.mem_append_left _ (h.told v hv)
  place := h.place
  wire := h.wire
  sessions n hn := (h.sessions n hn).merge hd
  answers e p hp := (h.answers e p hp).merge hd

theorem Tells.publish (h : Tells s) {i : ℕ} {u : Update Name} (hu : s.telling[i]? = some u) :
    Tells { s with telling := s.telling.eraseIdx i, told := s.told ++ [.doc u] } where
  telling v hv := h.telling v (List.mem_of_mem_eraseIdx hv)
  told v hv := by
    rcases List.mem_append.1 hv with hv | hv
    · exact h.told v hv
    · obtain rfl : v = u := by simpa using hv
      exact h.telling v (List.mem_of_getElem? hu)
  place e w hw := by
    rw [List.length_append]
    exact Nat.le_add_right_of_le (h.place e w hw)
  wire e w hw p hp := List.mem_append_left _ (h.wire e w hw p hp)
  sessions n hn := (h.sessions n hn).publish hu
  answers e p hp := (h.answers e p hp).publish hu

theorem Tells.tell (h : Tells s) : Tells { s with told := s.told ++ [.other] } where
  telling := h.telling
  told v hv := by
    rcases List.mem_append.1 hv with hv | hv
    · exact h.told v hv
    · exact absurd hv (by simp)
  place e w hw := by
    rw [List.length_append]
    exact Nat.le_add_right_of_le (h.place e w hw)
  wire e w hw p hp := List.mem_append_left _ (h.wire e w hw p hp)
  sessions n hn := (h.sessions n hn).tell
  answers e p hp := (h.answers e p hp).tell

/-- What the mirror sends on a stream the room was told. -/
theorem send_cases {told : List Event} {w w' : Stream} (h : w.send told = some w') :
    (w.place < oldest backlog told ∧ w' = ⟨oldest backlog told, w.wire⟩) ∨
    (oldest backlog told ≤ w.place ∧ ∃ ev : Event, told[w.place]? = some ev ∧
      w' = ⟨w.place + 1, w.wire ++ [(w.place, ev)]⟩) := by
  rw [Stream.send] at h
  rcases recv_cases backlog told w.place with ⟨hlt, hr⟩ | ⟨hle, ev, hev, hr⟩ | ⟨-, hr⟩
  · rw [hr] at h
    exact .inl ⟨hlt, (Option.some.inj h).symm⟩
  · rw [hr] at h
    exact .inr ⟨hle, ev, hev, (Option.some.inj h).symm⟩
  · rw [hr] at h
    exact absurd h (Option.some_ne_none w').symm

theorem Tells.send (h : Tells s) {w w' : Stream} (hw : (s.editors e).stream = some w)
    (hs : w.send s.told = some w') :
    Tells (s.edit e { s.editors e with stream := some w' }) := by
  refine h.edit (fun v hv => ?_) (fun v hv p hp => ?_) (h.answers e)
  · obtain rfl : w' = v := Option.some.inj hv
    rcases send_cases hs with ⟨-, rfl⟩ | ⟨-, ev, hev, rfl⟩
    · exact Nat.sub_le ..
    · exact (List.getElem?_eq_some_iff.1 hev).1
  · obtain rfl : w' = v := Option.some.inj hv
    rcases send_cases hs with ⟨-, rfl⟩ | ⟨-, ev, hev, rfl⟩
    · exact h.wire e w hw p hp
    · rcases List.mem_append.1 hp with hp | hp
      · exact h.wire e w hw p hp
      · rw [List.mem_singleton.1 hp]
        exact List.mem_of_getElem? hev

theorem Tells.arrive (h : Tells s) {w : Stream} {p : ℕ × Event}
    (hw : (s.editors e).stream = some w) (hp : w.wire.head? = some p)
    (hseat : ∀ n, (s.editors e).session = some n → n < s.next) :
    Tells ((s.edit e { s.editors e with stream := some w.pop }).receive
      (s.editors e).session p.2) := by
  have hed : Tells (s.edit e { s.editors e with stream := some w.pop }) := by
    refine h.edit (fun v hv => ?_) (fun v hv q hq => ?_) (h.answers e)
    · obtain rfl := Option.some.inj hv
      exact h.place e w hw
    · obtain rfl := Option.some.inj hv
      exact h.wire e w hw q (List.mem_of_mem_tail hq)
  rcases receive_cases (s.edit e { s.editors e with stream := some w.pop })
    (s.editors e).session p.2 with hr | ⟨n, u, hn, hu, hr⟩
  · rw [hr]
    exact hed
  · have htold : u ∈ merged s.docs :=
      h.told u (hu ▸ h.wire e w hw p (List.mem_of_head? hp))
    have hn : n < s.next := hseat n hn
    rw [hr]
    exact hed.change ((hed.sessions n hn).hear htold)

theorem Tells.step (h : Tells s) (hp : Places s) (hok : Keeps s a) (hst : step s a = some s') :
    Tells s' := by
  cases a with
  | subscribe e =>
    obtain rfl := Option.some.inj hst
    refine h.edit (fun w hw => ?_) (fun w hw q hq => ?_) (h.answers e)
    · obtain rfl := Option.some.inj hw
      exact Nat.le_refl _
    · obtain rfl := Option.some.inj hw
      exact absurd hq List.not_mem_nil
  | cut e =>
    obtain rfl := Option.some.inj hst
    exact h.edit (by simp) (by simp) (h.answers e)
  | reopen e | close e =>
    obtain rfl := Option.some.inj hst
    exact h.edit (h.place e) (h.wire e) (h.answers e)
  | answer e cfg =>
    rw [Editing.step] at hst
    split_ifs at hst
    obtain rfl := Option.some.inj hst
    refine (h.answer cfg).edit (h.place e) (h.wire e) fun q hq => ?_
    rcases List.mem_append.1 hq with hq | hq
    · exact (h.answers e q hq).answer cfg
    · rw [List.mem_singleton.1 hq]
      exact sound_answer (PackDocs.live_getOrSeed cfg)
  | refuse e =>
    rw [Editing.step] at hst
    split_ifs at hst
    obtain rfl := Option.some.inj hst
    exact h.edit (h.place e) (h.wire e) (h.answers e)
  | seat e i =>
    obtain ⟨q, hq, rfl⟩ := Option.map_eq_some_iff.1 hst
    have hsound := h.answers e q (List.mem_of_getElem? hq)
    have hed : Tells (s.edit e { s.editors e with
        answered := (s.editors e).answered.eraseIdx i
        session := some s.next }) :=
      h.edit (h.place e) (h.wire e) fun q hq => h.answers e q (List.mem_of_mem_eraseIdx hq)
    refine ⟨hed.telling, hed.told, hed.place, hed.wire, fun n hn => ?_, hed.answers⟩
    show Sound s.docs s.told s.telling (setAt s.sessions s.next q n)
    rcases Nat.lt_succ_iff_lt_or_eq.1 hn with hn | rfl
    · rw [setAt_of_ne _ _ hn.ne]
      exact h.sessions n hn
    · rw [setAt_self]
      exact hsound
  | push e after =>
    obtain ⟨n, hn, hst⟩ := Option.bind_eq_some_iff.1 hst
    split_ifs at hst
    obtain rfl := Option.some.inj hst
    have hsound := h.sessions n (hp.seated e n hn)
    have hch := h.change (n := n) (p := (s.sessions n).push ((s.sessions n).update n after))
      ⟨hsound.fetched, hsound.seed, hsound.heard, hsound.since, hsound.caught⟩
    exact ⟨hch.telling, hch.told, hch.place, hch.wire, hch.sessions, hch.answers⟩
  | lose i =>
    obtain ⟨u, -, rfl⟩ := Option.map_eq_some_iff.1 hst
    exact ⟨h.telling, h.told, h.place, h.wire, h.sessions, h.answers⟩
  | hold i cfg =>
    obtain ⟨u, -, rfl⟩ := Option.map_eq_some_iff.1 hst
    have hans := h.answer cfg
    exact ⟨hans.telling, hans.told, hans.place, hans.wire, hans.sessions, hans.answers⟩
  | merge i =>
    obtain ⟨q, hq, rfl⟩ := Option.map_eq_some_iff.1 hst
    have hmerge := h.merge (hp.inHand q (List.mem_of_getElem? hq)) q.1
    exact ⟨hmerge.telling, hmerge.told, hmerge.place, hmerge.wire, hmerge.sessions, hmerge.answers⟩
  | publish i =>
    obtain ⟨u, hu, rfl⟩ := Option.map_eq_some_iff.1 hst
    exact h.publish hu
  | tell =>
    obtain rfl := Option.some.inj hst
    exact h.tell
  | send e =>
    obtain ⟨w, hw, hst⟩ := Option.bind_eq_some_iff.1 hst
    obtain ⟨w', hs, rfl⟩ := Option.map_eq_some_iff.1 hst
    exact h.send hw hs
  | arrive e =>
    obtain ⟨w, hw, hst⟩ := Option.bind_eq_some_iff.1 hst
    obtain ⟨q, hq, rfl⟩ := Option.map_eq_some_iff.1 hst
    exact h.arrive hw hq (hp.seated e)
  | forget => exact hok.elim

theorem reach_tells (h : system.Reach Keeps s) : Tells s := by
  refine h.invariant_of (fun s => reach_places) (fun s hs => ?_)
    fun s a s' hp h hok hst => h.step hp hok hst
  obtain ⟨-, htold, hnext, hed, -, -, htelling, -⟩ := hs
  refine ⟨?_, ?_, ?_, ?_, ?_, ?_⟩
  · rw [htelling]
    exact fun u hu => absurd hu List.not_mem_nil
  · rw [htold]
    exact fun u hu => absurd hu List.not_mem_nil
  · intro e w hw
    rw [hed e] at hw
    exact absurd hw (Option.some_ne_none w).symm
  · intro e w hw
    rw [hed e] at hw
    exact absurd hw (Option.some_ne_none w).symm
  · rw [hnext]
    exact fun n hn => absurd hn (Nat.not_lt_zero n)
  · intro e p hp
    rw [hed e] at hp
    exact absurd hp List.not_mem_nil

end Tells

end Editing

end Smrt
