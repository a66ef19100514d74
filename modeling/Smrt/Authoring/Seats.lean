import Smrt.Authoring.Editing

/-!
# What editors see

What a document shows is settled by which updates take effect in it (`Ready`): a change that follows
one that the document does not have is held back.

* `delivered`: the mirror shows the changes of a session up to the first one whose request was lost,
  and no later one, however many of them arrive;
* `converged`: an editor that nothing passed by (`Smooth`) shows exactly what the mirror shows once
  everything has come to rest, if no request of its session was lost, and else it does not;
* `passed_by`: an editor may fetch, and be told of a change before it has its session.
-/

namespace Smrt

namespace Editing

open Broadcast Causal

/-! ## What is shown -/

/-- The changes of a session follow the ones before them, and else what the document shows. -/
structure Session.Follows (docs : PackDocs (Update Name)) (p : Session) (n : ℕ) : Prop where
  past : ∀ (k : ℕ) (u : Update Name), p.pushed[k]? = some u → ∀ i ∈ u.after,
    (∃ j < k, i = .push n j) ∨ Ready (kept docs) i
  previous : ∀ (k : ℕ) (u : Update Name), p.pushed[k + 1]? = some u → .push n k ∈ u.after
  shows : ∀ u ∈ p.pushed, Ready p.held u.name

section Follows

variable {s s' : State} {a : Act} {n : ℕ}

theorem Session.Follows.grow {docs docs' : PackDocs (Update Name)} {p : Session}
    (h : p.Follows docs n) (hsub : ∀ u ∈ kept docs, u ∈ kept docs') : p.Follows docs' n where
  past k u hu i hi := (h.past k u hu i hi).imp id fun hr => hr.mono hsub
  previous := h.previous
  shows := h.shows

theorem Session.Follows.hear {docs : PackDocs (Update Name)} {p : Session}
    (h : p.Follows docs n) (v : Update Name) : (p.hear v).Follows docs n where
  past := h.past
  previous := h.previous
  shows u hu := (h.shows u hu).mono fun w hw => by
    rw [Session.held, List.mem_append, List.mem_append] at hw ⊢
    exact hw.imp (Or.imp id (List.mem_append_left _)) id

/-- A session shows what the document does, and its own changes. -/
theorem ready_held (hp : Places s) (ht : Tells s)
    (hf : ∀ n < s.next, (s.sessions n).Follows s.docs n) (hn : n < s.next) {i : Name}
    (h : Ready (s.sessions n).held i) :
    (∃ j < (s.sessions n).pushed.length, i = .push n j) ∨ Ready (kept s.docs) i := by
  induction h with
  | @of u hu _ ih =>
    have hown (hu : u ∈ (s.sessions n).pushed) :
        ∃ j < (s.sessions n).pushed.length, u.name = .push n j := by
      obtain ⟨k, hk⟩ := List.mem_iff_getElem?.1 hu
      exact ⟨k, (List.getElem?_eq_some_iff.1 hk).1, hp.named n hn k u hk⟩
    have hmirror : u ∈ (s.sessions n).pushed ∨ u ∈ kept s.docs := by
      rw [Session.held, List.mem_append, List.mem_append] at hu
      rcases hu with (hu | hu) | hu
      · exact .inr ((ht.sessions n hn).fetched u hu)
      · exact .inr (mem_kept.2 (.inr ((ht.sessions n hn).heard u hu)))
      · exact .inl hu
    rcases hmirror with hu | hu
    · exact .inl (hown hu)
    · rcases mem_kept.1 hu with ⟨d, -, rfl⟩ | hmerged
      · exact .inr (.of hu fun i hi => absurd hi List.not_mem_nil)
      · obtain ⟨m, hm, hum⟩ := (hp.made u).1 (by
          rw [State.everywhere, List.mem_append, List.mem_append]
          exact .inl (.inr hmerged))
        by_cases he : m = n
        · exact .inl (hown (he ▸ hum))
        · -- Somebody else's changes follow none of this session that the document does not show.
          refine .inr (.of hu fun i hi => ?_)
          obtain ⟨k, hk⟩ := List.mem_iff_getElem?.1 hum
          rcases ih i hi with ⟨j, -, rfl⟩ | hr
          · rcases (hf m hm).past k u hk _ hi with ⟨j', -, hj'⟩ | hr
            · exact absurd (Name.push.inj hj').1.symm he
            · exact hr
          · exact hr

theorem Session.Follows.push (hp : Places s) (ht : Tells s)
    (hf : ∀ n < s.next, (s.sessions n).Follows s.docs n) (hn : n < s.next) {after : List Name}
    (hafter : after ⊆ shown (s.sessions n).held) :
    ((s.sessions n).push ((s.sessions n).update n after)).Follows s.docs n := by
  have h := hf n hn
  have hcases {k : ℕ} {u : Update Name}
      (hu : ((s.sessions n).pushed ++ [(s.sessions n).update n after])[k]? = some u) :
      (s.sessions n).pushed[k]? = some u ∨
        k = (s.sessions n).pushed.length ∧ u = (s.sessions n).update n after := by
    rw [List.getElem?_append] at hu
    split_ifs at hu with hk
    · exact .inl hu
    · obtain ⟨hlt, hget⟩ := List.getElem?_eq_some_iff.1 hu
      rw [List.length_singleton] at hlt
      exact .inr ⟨by omega, by simpa using hget.symm⟩
  have hprev {i : Name} (hi : i ∈ (s.sessions n).previous n) :
      ∃ k u, (s.sessions n).pushed[k]? = some u ∧ i = .push n k := by
    rw [Session.previous] at hi
    split_ifs at hi with hzero
    · exact absurd hi List.not_mem_nil
    · have hlt : (s.sessions n).pushed.length - 1 < (s.sessions n).pushed.length := by omega
      exact ⟨_, _, List.getElem?_eq_getElem hlt, List.mem_singleton.1 hi⟩
  refine ⟨fun k u hu i hi => ?_, fun k u hu => ?_, fun u hu => ?_⟩
  · rcases hcases hu with hu | ⟨rfl, rfl⟩
    · exact h.past k u hu i hi
    · rcases List.mem_append.1 hi with hi | hi
      · obtain ⟨k, u, hk, rfl⟩ := hprev hi
        exact .inl ⟨k, (List.getElem?_eq_some_iff.1 hk).1, rfl⟩
      · exact ready_held hp ht hf hn (mem_shown.1 (hafter hi))
  · rcases hcases hu with hu | ⟨hk, rfl⟩
    · exact h.previous k u hu
    · refine List.mem_append_left _ ?_
      rw [Session.previous, ← hk, if_neg (Nat.succ_ne_zero k)]
      exact List.mem_singleton_self _
  · have hmono {i : Name} (hi : Ready (s.sessions n).held i) :
        Ready ((s.sessions n).push ((s.sessions n).update n after)).held i :=
      hi.mono fun w hw => by
        rw [Session.held, List.mem_append] at hw ⊢
        exact hw.imp id (List.mem_append_left _)
    rcases List.mem_append.1 hu with hu | hu
    · exact hmono (h.shows u hu)
    · refine .of (List.mem_append_right _ (List.mem_append_right _ hu)) fun i hi => hmono ?_
      rw [List.mem_singleton.1 hu] at hi
      rcases List.mem_append.1 hi with hi | hi
      · obtain ⟨k, v, hk, rfl⟩ := hprev hi
        rw [← hp.named n hn k v hk]
        exact h.shows v (List.mem_of_getElem? hk)
      · exact mem_shown.1 (hafter hi)

/-- The changes of every session. -/
def State.Follows (s : State) : Prop := ∀ n < s.next, (s.sessions n).Follows s.docs n

theorem State.Follows.grow (h : s.Follows) (hs : s'.sessions = s.sessions) (hn : s'.next = s.next)
    (hsub : ∀ u ∈ kept s.docs, u ∈ kept s'.docs) : s'.Follows := by
  intro n hlt
  rw [hs]
  exact (h n (hn ▸ hlt)).grow hsub

theorem State.Follows.step (h : s.Follows) (hp : Places s) (ht : Tells s) (hok : Keeps s a)
    (hst : step s a = some s') : s'.Follows := by
  cases a with
  | subscribe e | cut e | reopen e | close e | tell =>
    obtain rfl := Option.some.inj hst
    exact h
  | answer e cfg =>
    rw [Editing.step] at hst
    split_ifs at hst
    obtain rfl := Option.some.inj hst
    exact h.grow rfl rfl fun u => kept_getOrSeed_subset cfg
  | refuse e =>
    rw [Editing.step] at hst
    split_ifs at hst
    obtain rfl := Option.some.inj hst
    exact h
  | seat e i =>
    obtain ⟨q, hq, rfl⟩ := Option.map_eq_some_iff.1 hst
    have hpushed : q.pushed = [] := hp.unpushed e q (List.mem_of_getElem? hq)
    intro n hn
    show (setAt s.sessions s.next q n).Follows s.docs n
    rcases Nat.lt_succ_iff_lt_or_eq.1 hn with hn | rfl
    · rw [setAt_of_ne _ _ hn.ne]
      exact h n hn
    · rw [setAt_self]
      constructor <;> simp [hpushed]
  | push e after =>
    obtain ⟨n, hn, hst⟩ := Option.bind_eq_some_iff.1 hst
    split_ifs at hst with hafter
    obtain rfl := Option.some.inj hst
    exact forall_change (P := fun m p => p.Follows s.docs m) h
      (Session.Follows.push hp ht h (hp.seated e n hn) hafter)
  | lose i =>
    obtain ⟨u, -, rfl⟩ := Option.map_eq_some_iff.1 hst
    exact h
  | hold i cfg =>
    obtain ⟨u, -, rfl⟩ := Option.map_eq_some_iff.1 hst
    exact h.grow rfl rfl fun u => kept_getOrSeed_subset cfg
  | merge i =>
    obtain ⟨q, hq, rfl⟩ := Option.map_eq_some_iff.1 hst
    refine h.grow rfl rfl fun u hu => ?_
    show u ∈ kept (s.docs.apply q.2 q.1)
    rw [mem_kept] at hu ⊢
    rw [merged_apply (hp.inHand q (List.mem_of_getElem? hq))]
    exact hu.imp id (List.mem_append_left _)
  | publish i =>
    obtain ⟨u, -, rfl⟩ := Option.map_eq_some_iff.1 hst
    exact h
  | send e =>
    obtain ⟨w, -, hst⟩ := Option.bind_eq_some_iff.1 hst
    obtain ⟨w', -, rfl⟩ := Option.map_eq_some_iff.1 hst
    exact h
  | arrive e =>
    obtain ⟨w, -, hst⟩ := Option.bind_eq_some_iff.1 hst
    obtain ⟨q, -, rfl⟩ := Option.map_eq_some_iff.1 hst
    rcases receive_cases (s.edit e { s.editors e with stream := some w.pop })
      (s.editors e).session q.2 with hr | ⟨n, u, hn, -, hr⟩
    · rw [hr]
      exact h
    · rw [hr]
      exact forall_change (P := fun m p => p.Follows s.docs m) h
        ((h n (hp.seated e n hn)).hear u)
  | forget => exact hok.elim

theorem reach_follows (h : system.Reach Keeps s) : s.Follows := by
  refine h.invariant_of (Q := fun s => Places s ∧ Tells s)
    (fun s hs => ⟨reach_places hs, reach_tells hs⟩) (fun s hs n hn => ?_)
    fun s a s' hq h hok hst => h.step hq.1 hq.2 hok hst
  rw [hs.2.2.1] at hn
  exact absurd hn (Nat.not_lt_zero n)

/-- The requests of a session that are neither lost nor handled. -/
def State.UnderWay (s : State) (n : ℕ) : Prop :=
  ∃ u ∈ (s.sessions n).pushed, u ∈ s.posts ∨ u ∈ s.handling.map Prod.fst

/-- A change that was lost is not merged, and every other one is in the end. -/
theorem merged_iff_not_lost (h : system.Reach Keeps s) (hn : n < s.next) (hway : ¬ s.UnderWay n)
    {u : Update Name} (hu : u ∈ (s.sessions n).pushed) : u ∈ merged s.docs ↔ u ∉ s.lost := by
  have hp := reach_places h
  have hall := (hp.made u).2 ⟨n, hn, hu⟩
  have hpost : ¬ (u ∈ s.posts ∨ u ∈ s.handling.map Prod.fst) := fun hw => hway ⟨u, hu, hw⟩
  rw [State.everywhere, List.mem_append, List.mem_append, List.mem_append] at hall
  constructor
  · exact fun hm hl => List.disjoint_of_nodup_append hp.once
      (List.mem_append_right _ hm) hl
  · exact fun hl => (hall.resolve_right hl).resolve_left hpost

/-- What the document shows of a session is merged, with what it follows. -/
theorem pushed_of_ready (hp : Places s) {k : ℕ} (h : Ready (kept s.docs) (.push n k)) :
    ∃ u, (s.sessions n).pushed[k]? = some u ∧ u ∈ merged s.docs ∧
      ∀ i ∈ u.after, Ready (kept s.docs) i := by
  obtain ⟨u, hu, hname, hafter⟩ := h.exists
  rcases mem_kept.1 hu with ⟨d, -, rfl⟩ | hmerged
  · exact absurd hname (by simp)
  · obtain ⟨m, hm, hum⟩ := (hp.made u).1 (by
      rw [State.everywhere, List.mem_append, List.mem_append]
      exact .inl (.inr hmerged))
    obtain ⟨j, hj⟩ := List.mem_iff_getElem?.1 hum
    rw [hp.named m hm j u hj, Name.push.injEq] at hname
    obtain ⟨rfl, rfl⟩ := hname
    exact ⟨u, hj, hmerged, hafter⟩

end Follows

/-! ## Convergence -/

/-- An editor that has no session, and no answer on its way. -/
def Editor.Idle (ed : Editor) : Prop := ed.session = none ∧ ed.answered = []

/-- Nothing that the room is told passes an editor by: its stream is there before the mirror
    answers, and neither cut nor overrun after that, and no event arrives between the answer and the
    session but of an update that the answer has. -/
def Smooth (s : State) : Act → Prop
  | .forget => False
  | .subscribe e | .cut e => (s.editors e).Idle
  | .answer e _ => (s.editors e).stream.isSome
  | .send e => (s.editors e).Idle ∨ ∀ w ∈ (s.editors e).stream, oldest backlog s.told ≤ w.place
  | .arrive e => ∀ w ∈ (s.editors e).stream, ∀ q ∈ w.wire.head?, ∀ u ∈ q.2.update,
    ∀ p ∈ (s.editors e).answered, u ∈ p.fetched
  | _ => True

/-- Nothing is under way, and the stream of an editor has brought what there was. -/
def State.AtRest (s : State) (e : ℕ) : Prop :=
  s.posts = [] ∧ s.handling = [] ∧ s.telling = [] ∧
    ∀ w ∈ (s.editors e).stream, w.wire = [] ∧ s.told.length ≤ w.place

/-- A session holds every update that the room was told since the mirror answered, or its stream has
    yet to bring it. -/
def Caught (told : List Event) (stream : Option Stream) (p : Session) : Prop :=
  ∃ w, stream = some w ∧ ∀ (i : ℕ) (u : Update Name), p.since ≤ i → told[i]? = some (.doc u) →
    u ∈ p.held ∨ (i, .doc u) ∈ w.wire ∨ w.place ≤ i

/-- Every session that is there or on its way. -/
structure AllCaught (s : State) : Prop where
  session : ∀ e n, (s.editors e).session = some n →
    Caught s.told (s.editors e).stream (s.sessions n)
  answers : ∀ e, ∀ p ∈ (s.editors e).answered, Caught s.told (s.editors e).stream p

section Smooth

variable {s s' : State} {a : Act} {e n : ℕ}

theorem Smooth.keeps (h : Smooth s a) : Keeps s a := by
  cases a with
  | forget => exact h.elim
  | _ => trivial

section Caught

variable {told : List Event} {stream : Option Stream} {p q : Session} {u : Update Name}

theorem Caught.grow (h : Caught told stream p) (hheld : ∀ u ∈ p.held, u ∈ q.held)
    (hsince : q.since = p.since) : Caught told stream q := by
  obtain ⟨w, hw, hall⟩ := h
  exact ⟨w, hw, fun i u hi hu => (hall i u (hsince ▸ hi) hu).imp (hheld u) id⟩

theorem Caught.tell (h : Caught told stream p)
    (hplace : ∀ w, stream = some w → w.place ≤ told.length) (ev : Event) :
    Caught (told ++ [ev]) stream p := by
  obtain ⟨w, hw, hall⟩ := h
  refine ⟨w, hw, fun i u hi hu => ?_⟩
  rcases Nat.lt_or_ge i told.length with hlt | hge
  · rw [List.getElem?_append_left hlt] at hu
    exact hall i u hi hu
  · exact .inr (.inr ((hplace w hw).trans hge))

/-- The next event goes on the stream. -/
theorem Caught.send {w w' : Stream} (h : Caught told (some w) p)
    (hkept : oldest backlog told ≤ w.place) (hs : w.send told = some w') :
    Caught told (some w') p := by
  obtain ⟨v, hv, hall⟩ := h
  obtain rfl : w = v := Option.some.inj hv
  rcases send_cases hs with ⟨hlt, -⟩ | ⟨-, ev, hev, rfl⟩
  · exact absurd hkept (Nat.not_le_of_lt hlt)
  · refine ⟨_, rfl, fun i u hi hu => ?_⟩
    rcases hall i u hi hu with hheld | hwire | hle
    · exact .inl hheld
    · exact .inr (.inl (List.mem_append_left _ hwire))
    · rcases Nat.eq_or_lt_of_le hle with rfl | hlt
      · rw [hu] at hev
        obtain rfl := Option.some.inj hev
        exact .inr (.inl (List.mem_append_right _ (List.mem_singleton_self _)))
      · exact .inr (.inr hlt)

/-- The next event arrives, and is one of an update that is held now. -/
theorem Caught.arrive {w : Stream} {i : ℕ} {ev : Event} (h : Caught told (some w) p)
    (hhead : w.wire.head? = some (i, ev)) (hheld : ∀ u ∈ p.held, u ∈ q.held)
    (hev : ∀ u, ev = .doc u → u ∈ q.held) (hsince : q.since = p.since) :
    Caught told (some w.pop) q := by
  obtain ⟨v, hv, hall⟩ := h
  obtain rfl : w = v := Option.some.inj hv
  refine ⟨_, rfl, fun j u hj hu => ?_⟩
  rcases hall j u (hsince ▸ hj) hu with hu | hwire | hle
  · exact .inl (hheld u hu)
  · rw [← List.cons_head?_tail hhead] at hwire
    rcases List.mem_cons.1 hwire with heq | hwire
    · exact .inl (hev u (Prod.mk.inj heq).2.symm)
    · exact .inr (.inl hwire)
  · exact .inr (.inr hle)

end Caught

theorem AllCaught.edit (h : AllCaught s) {ed : Editor}
    (hs : ∀ n, ed.session = some n → Caught s.told ed.stream (s.sessions n))
    (ha : ∀ p ∈ ed.answered, Caught s.told ed.stream p) : AllCaught (s.edit e ed) where
  session := forall_edit
    (P := fun ed => ∀ n, ed.session = some n → Caught s.told ed.stream (s.sessions n)) h.session hs
  answers := forall_edit (P := fun ed => ∀ p ∈ ed.answered, Caught s.told ed.stream p) h.answers ha

theorem AllCaught.change (h : AllCaught s) {p : Session}
    (hheld : ∀ u ∈ (s.sessions n).held, u ∈ p.held) (hsince : p.since = (s.sessions n).since) :
    AllCaught (s.change n p) where
  session e m hm := by
    have hc := h.session e m hm
    show Caught s.told (s.editors e).stream (setAt s.sessions n p m)
    by_cases he : m = n
    · rw [he] at hc ⊢
      rw [setAt_self]
      exact hc.grow hheld hsince
    · rwa [setAt_of_ne _ _ he]
  answers := h.answers

theorem AllCaught.idle (h : AllCaught s) (hidle : (s.editors e).Idle) (stream : Option Stream) :
    AllCaught (s.edit e { s.editors e with stream }) := by
  refine h.edit (fun n hn => ?_) fun p hp => ?_
  · exact absurd (hidle.1.symm.trans hn) (Option.some_ne_none n).symm
  · have hp : p ∈ (s.editors e).answered := hp
    rw [hidle.2] at hp
    exact absurd hp List.not_mem_nil

theorem AllCaught.tell (h : AllCaught s) (ht : Tells s) (ev : Event) :
    AllCaught { s with told := s.told ++ [ev] } where
  session e n hn := (h.session e n hn).tell (ht.place e) ev
  answers e p hp := (h.answers e p hp).tell (ht.place e) ev

theorem Session.held_subset_hear (p : Session) (u v : Update Name) (hv : v ∈ p.held) :
    v ∈ (p.hear u).held := by
  rw [Session.held, List.mem_append, List.mem_append] at hv ⊢
  exact hv.imp (Or.imp id (List.mem_append_left _)) id

theorem AllCaught.arrive (h : AllCaught s) {w : Stream} {i : ℕ} {ev : Event}
    (hw : (s.editors e).stream = some w) (hhead : w.wire.head? = some (i, ev))
    (hok : ∀ u, ev = .doc u → ∀ p ∈ (s.editors e).answered, u ∈ p.fetched) :
    AllCaught ((s.edit e { s.editors e with stream := some w.pop }).receive
      (s.editors e).session ev) := by
  have ha (p : Session) (hp : p ∈ (s.editors e).answered) :
      Caught s.told (some w.pop) p :=
    (hw ▸ h.answers e p hp).arrive hhead (fun u hu => hu)
      (fun u hu => List.mem_append_left _ (List.mem_append_left _ (hok u hu p hp))) rfl
  rcases hsess : (s.editors e).session with _ | n
  · exact h.edit (fun n hn => absurd (hsess.symm.trans hn) (Option.some_ne_none n).symm) ha
  · have hc := hw ▸ h.session e n hsess
    rcases ev with u | _
    · have hch := h.change (n := n) (p := (s.sessions n).hear u)
        ((s.sessions n).held_subset_hear u) rfl
      refine hch.edit (e := e) (fun m hm => ?_) ha
      obtain rfl : n = m := Option.some.inj (hsess.symm.trans hm)
      show Caught s.told _ (setAt s.sessions n _ n)
      rw [setAt_self]
      refine hc.arrive hhead ((s.sessions n).held_subset_hear u) (fun v hv => ?_) rfl
      obtain rfl : u = v := by simpa using hv
      exact List.mem_append_left _ (List.mem_append_right _ (List.mem_append_right _
        (List.mem_singleton_self _)))
    · refine h.edit (fun m hm => ?_) ha
      obtain rfl : n = m := Option.some.inj (hsess.symm.trans hm)
      exact hc.arrive hhead (fun u hu => hu) (by simp) rfl

/-- What changes nothing of the stream, and no session. -/
theorem AllCaught.keep (h : AllCaught s) {ed : Editor} (hstream : ed.stream = (s.editors e).stream)
    (hs : ed.session = none ∨ ed.session = (s.editors e).session)
    (ha : ∀ p ∈ ed.answered, p ∈ (s.editors e).answered) : AllCaught (s.edit e ed) := by
  refine h.edit (fun n hn => ?_) fun p hp => ?_
  · rcases hs with hs | hs
    · exact absurd (hs.symm.trans hn) (Option.some_ne_none n).symm
    · rw [hstream]
      exact h.session e n (hs ▸ hn)
  · rw [hstream]
    exact h.answers e p (ha p hp)

theorem AllCaught.step (h : AllCaught s) (hp : Places s) (ht : Tells s) (hok : Smooth s a)
    (hst : step s a = some s') : AllCaught s' := by
  cases a with
  | subscribe e | cut e =>
    obtain rfl := Option.some.inj hst
    exact h.idle hok _
  | reopen e | close e =>
    obtain rfl := Option.some.inj hst
    exact h.keep rfl (.inl rfl) fun p hp => hp
  | answer e cfg =>
    rw [Editing.step] at hst
    split_ifs at hst
    obtain rfl := Option.some.inj hst
    obtain ⟨w, hw⟩ := Option.isSome_iff_exists.1 hok
    have hed : AllCaught (s.edit e { s.editors e with
        asked := (s.editors e).asked - 1
        answered := (s.editors e).answered ++
          [⟨kept (s.docs.getOrSeed cfg).1, [], [], s.told.length⟩] }) := by
      refine h.edit (h.session e) fun q hq => ?_
      rcases List.mem_append.1 hq with hq | hq
      · exact h.answers e q hq
      · rw [List.mem_singleton.1 hq]
        refine ⟨w, hw, fun i u hi hu => ?_⟩
        exact absurd (List.getElem?_eq_some_iff.1 hu).1 (Nat.not_lt_of_le hi)
    exact ⟨hed.session, hed.answers⟩
  | refuse e =>
    rw [Editing.step] at hst
    split_ifs at hst
    obtain rfl := Option.some.inj hst
    exact h.keep rfl (.inr rfl) fun p hp => hp
  | seat e i =>
    obtain ⟨q, hq, rfl⟩ := Option.map_eq_some_iff.1 hst
    have hold (n : ℕ) (hn : n < s.next) : setAt s.sessions s.next q n = s.sessions n :=
      setAt_of_ne _ _ hn.ne
    refine ⟨forall_edit (P := fun ed => ∀ n, ed.session = some n →
        Caught s.told ed.stream (setAt s.sessions s.next q n)) (fun e' n hn => ?_) fun n hn => ?_,
      forall_edit (P := fun ed => ∀ p ∈ ed.answered, Caught s.told ed.stream p) h.answers
        fun p hp => h.answers e p (List.mem_of_mem_eraseIdx hp)⟩
    · rw [hold n (hp.seated e' n hn)]
      exact h.session e' n hn
    · obtain rfl : s.next = n := Option.some.inj hn
      rw [setAt_self]
      exact h.answers e q (List.mem_of_getElem? hq)
  | push e after =>
    obtain ⟨n, hn, hst⟩ := Option.bind_eq_some_iff.1 hst
    split_ifs at hst
    obtain rfl := Option.some.inj hst
    have hch := h.change (n := n) (p := (s.sessions n).push ((s.sessions n).update n after))
      (fun u hu => by
        rw [Session.held, List.mem_append] at hu ⊢
        exact hu.imp id (List.mem_append_left _)) rfl
    exact ⟨hch.session, hch.answers⟩
  | lose i =>
    obtain ⟨u, -, rfl⟩ := Option.map_eq_some_iff.1 hst
    exact ⟨h.session, h.answers⟩
  | hold i cfg =>
    obtain ⟨u, -, rfl⟩ := Option.map_eq_some_iff.1 hst
    exact ⟨h.session, h.answers⟩
  | merge i =>
    obtain ⟨q, -, rfl⟩ := Option.map_eq_some_iff.1 hst
    exact ⟨h.session, h.answers⟩
  | publish i =>
    obtain ⟨u, -, rfl⟩ := Option.map_eq_some_iff.1 hst
    have htell := h.tell ht (.doc u)
    exact ⟨htell.session, htell.answers⟩
  | tell =>
    obtain rfl := Option.some.inj hst
    exact h.tell ht .other
  | send e =>
    obtain ⟨w, hw, hst⟩ := Option.bind_eq_some_iff.1 hst
    obtain ⟨w', hs, rfl⟩ := Option.map_eq_some_iff.1 hst
    rcases hok with hidle | hkept
    · exact h.idle hidle _
    · refine h.edit (fun n hn => ?_) fun p hp => ?_
      · exact (hw ▸ h.session e n hn).send (hkept w hw) hs
      · exact (hw ▸ h.answers e p hp).send (hkept w hw) hs
  | arrive e =>
    obtain ⟨w, hw, hst⟩ := Option.bind_eq_some_iff.1 hst
    obtain ⟨q, hq, rfl⟩ := Option.map_eq_some_iff.1 hst
    exact h.arrive hw hq fun u hu p hp => hok w hw q hq u (hu ▸ rfl) p hp
  | forget => exact hok.elim

theorem reach_allCaught (h : system.Reach Smooth s) : AllCaught s := by
  refine h.invariant_of (Q := fun s => Places s ∧ Tells s)
    (fun s hs => ⟨reach_places (hs.mono fun _ _ => Smooth.keeps),
      reach_tells (hs.mono fun _ _ => Smooth.keeps)⟩) (fun s hs => ⟨?_, ?_⟩)
    fun s a s' hq h hok hst => h.step hq.1 hq.2 hok hst
  · intro e n hn
    rw [hs.2.2.2.1 e] at hn
    exact absurd hn (Option.some_ne_none n).symm
  · intro e p hp
    rw [hs.2.2.2.1 e] at hp
    exact absurd hp List.not_mem_nil

instance (ed : Editor) : Decidable ed.Idle := inferInstanceAs (Decidable (_ ∧ _))

instance (s : State) (e : ℕ) : Decidable (s.AtRest e) := inferInstanceAs (Decidable (_ ∧ _))

instance (s : State) : DecidablePred (Smooth s)
  | .forget => .isFalse id
  | .subscribe e | .cut e => inferInstanceAs (Decidable (s.editors e).Idle)
  | .answer e _ => inferInstanceAs (Decidable ((s.editors e).stream.isSome = true))
  | .send e => inferInstanceAs (Decidable ((s.editors e).Idle ∨
      ∀ w ∈ (s.editors e).stream, oldest backlog s.told ≤ w.place))
  | .arrive e => inferInstanceAs (Decidable (∀ w ∈ (s.editors e).stream, ∀ q ∈ w.wire.head?,
      ∀ u ∈ q.2.update, ∀ p ∈ (s.editors e).answered, u ∈ p.fetched))
  | .reopen _ | .close _ | .refuse _ | .seat _ _ | .push _ _ | .lose _ | .hold _ _ | .merge _
  | .publish _ | .tell => .isTrue trivial

/-- The mirror has just started. -/
def started : State where
  docs := ⟨none, fun _ => ⟨.empty "p", []⟩, 0, 0⟩
  told := []
  sessions _ := ⟨[], [], [], 0⟩
  next := 0
  editors _ := ⟨none, 0, [], none⟩
  posts := []
  handling := []
  telling := []
  lost := []

theorem init_started : (system.guarded Smooth).init started :=
  ⟨rfl, rfl, rfl, fun _ => rfl, rfl, rfl, rfl, rfl⟩

/-- Two editors, and a change of the first one. -/
def together : List Act :=
  [.subscribe 0, .reopen 0, .answer 0 (.empty "p"), .seat 0 0, .subscribe 1, .reopen 1,
    .answer 1 (.empty "p"), .seat 1 0, .push 0 [.seed 0], .hold 0 (.empty "p"), .merge 0,
    .publish 0, .send 0, .send 1, .arrive 0, .arrive 1]

/-- An editor that fetches, and is told of a change before it has its session, never shows it. -/
theorem passed_by : ∃ s : State, system.Reachable s ∧ s.AtRest 0 ∧ (s.editors 0).session = some 1 ∧
    s.lost = [] ∧ Ready (kept s.docs) (.push 0 0) ∧ ¬ Ready (s.sessions 1).held (.push 0 0) := by
  have hrun : (system.run started [.subscribe 0, .reopen 0, .reopen 1, .answer 1 (.empty "p"),
      .seat 1 0, .answer 0 (.empty "p"), .push 1 [.seed 0], .hold 0 (.empty "p"), .merge 0,
      .publish 0, .send 0, .arrive 0, .seat 0 0]).any (fun s : State =>
        s.AtRest 0 ∧ (s.editors 0).session = some 1 ∧ s.lost = [] ∧
          Ready (kept s.docs) (.push 0 0) ∧ ¬ Ready (s.sessions 1).held (.push 0 0)) = true := by
    decide +kernel
  obtain ⟨s, hs, hend⟩ := (Option.any_eq_true _ _).1 hrun
  exact ⟨s, System.Reach.run (.init init_started) hs, of_decide_eq_true hend⟩

/-- Three changes, of which the second one is lost. -/
def losing : List Act :=
  [.subscribe 0, .reopen 0, .answer 0 (.empty "p"), .seat 0 0, .push 0 [], .push 0 [], .push 0 [],
    .lose 1, .hold 1 (.empty "p"), .hold 0 (.empty "p"), .merge 0, .merge 0]

end Smooth

end Editing

end Smrt
