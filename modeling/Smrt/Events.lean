import Smrt.Http.Auth
import Smrt.Lib.Broadcast
import Smrt.Lib.System

/-!
# The events of the mirror

What moves on the mirror is published on one channel, and whoever listens refetches the view that an
event names: the index, a pack, the moderation queue or the curated lists (`MirrorEvent`). A
subscription passes on the events that its role may hear, and goes on silently when it was too slow
for some of them (`Subscription.next`).

A subscriber that has read everything has had the last event of each topic (`Current`) as long as no
event is pushed out of the channel unread that is the last one of its topic (`Kept`): `system_current`.
When one is, the subscriber reads to the end and has not had it (`system_stale`): the events that it
still gets are about something else.
-/

namespace Smrt

namespace Events

/-! ## Events -/

/-- How many events the channel keeps. -/
def backlog : ℕ := 64

inductive MirrorEvent
  | registry (what : String)
  | pack (packId what : String)
  | moderation (what : String)
  | catalog (what : String)
  deriving DecidableEq

/-- What an event makes a view refetch. -/
inductive Topic
  | registry
  | pack (packId : String)
  | moderation
  | catalog
  deriving DecidableEq

def MirrorEvent.topic : MirrorEvent → Topic
  | .registry _ => .registry
  | .pack packId _ => .pack packId
  | .moderation _ => .moderation
  | .catalog _ => .catalog

/-- The name of an event on the wire. -/
def MirrorEvent.name : MirrorEvent → String
  | .registry _ => "registry"
  | .pack _ _ => "pack"
  | .moderation _ => "moderation"
  | .catalog _ => "catalog"

/-- Whether an event is for a role. -/
def MirrorEvent.reaches (event : MirrorEvent) (role : Role) : Bool :=
  match event with
  | .moderation _ => Role.admin.rank ≤ role.rank
  | _ => true

/-- Who may hear an event may hear all of its topic. -/
theorem reaches_of_topic_eq {e e' : MirrorEvent} {role : Role} (h : e.topic = e'.topic)
    (he : e.reaches role = true) : e'.reaches role = true := by
  cases e <;> cases e' <;> first | exact he | cases h

/-- A listener: since when it listens, where it is, and what it was given. -/
structure Subscription where
  role : Role
  since : ℕ
  place : ℕ
  received : List (ℕ × MirrorEvent)
  deriving DecidableEq

/-- A listener goes on to a place; an event it may hear is passed on, all else is not. -/
def Subscription.pass (s : Subscription) (got : Broadcast.Received MirrorEvent) (place : ℕ) :
    Subscription :=
  match got with
  | .message e =>
    { s with
      place
      received := if e.reaches s.role then s.received ++ [(s.place, e)] else s.received }
  | _ => { s with place }

/-- One round of the loop of a listener. -/
def Subscription.next (s : Subscription) (sent : List MirrorEvent) : Subscription :=
  let got := Broadcast.recv backlog sent s.place
  s.pass got.1 got.2

/-! ## The system -/

/-- All that was published, and who listens. -/
structure State where
  sent : List MirrorEvent
  subs : ℕ → Option Subscription

inductive Act
  | publish (event : MirrorEvent)
  | subscribe (i : ℕ) (role : Role)
  | next (i : ℕ)
  | drop (i : ℕ)

def step (s : State) : Act → Option State
  | .publish event => some { s with sent := s.sent ++ [event] }
  | .subscribe i role =>
    match s.subs i with
    | some _ => none
    | none => some { s with subs := setAt s.subs i (some ⟨role, s.sent.length, s.sent.length, []⟩) }
  | .next i => (s.subs i).map fun sub => { s with subs := setAt s.subs i (some (sub.next s.sent)) }
  | .drop i => some { s with subs := setAt s.subs i none }

def system : System State Act where
  init s := s.sent = [] ∧ ∀ i, s.subs i = none
  step := step

/-! ## What a listener has had -/

/-- Nothing is left to read. -/
def Drained (s : State) (sub : Subscription) : Prop := sub.place = s.sent.length

/-- Of each topic with an event since a listener listens that it may hear, it has had an event no
    earlier than the last one. -/
def Current (s : State) (sub : Subscription) : Prop :=
  ∀ k e, sub.since ≤ k → s.sent[k]? = some e → e.reaches sub.role = true →
    ∃ j e', (j, e') ∈ sub.received ∧ k ≤ j ∧ e'.topic = e.topic

/-- The event that is pushed out of the channel is not one that somebody may hear, has not read, and
    will not have a later one of its topic instead. -/
def Kept (s : State) : Act → Prop
  | .publish event => ∀ i sub lost, s.subs i = some sub → backlog ≤ s.sent.length →
      sub.place ≤ s.sent.length - backlog → s.sent[s.sent.length - backlog]? = some lost →
      lost.reaches sub.role = true →
      ∃ k e, s.sent.length - backlog < k ∧ (s.sent ++ [event])[k]? = some e ∧ e.topic = lost.topic
  | _ => True

/-! ## What a round does -/

section Next

variable {sent : List MirrorEvent} {sub : Subscription}

/-- A listener is at a place of what was sent, and what it was given is of before, and its to hear. -/
structure Subscription.Sound (sent : List MirrorEvent) (sub : Subscription) : Prop where
  since_le : sub.since ≤ sub.place
  place_le : sub.place ≤ sent.length
  received : ∀ j e, (j, e) ∈ sub.received →
    j < sub.place ∧ sent[j]? = some e ∧ e.reaches sub.role = true

/-- An event of each topic that a listener is owed was given to it, or is there to be read. -/
def Subscription.Due (sent : List MirrorEvent) (sub : Subscription) : Prop :=
  ∀ k e, sub.since ≤ k → sent[k]? = some e → e.reaches sub.role = true →
    (∃ j e', (j, e') ∈ sub.received ∧ k ≤ j ∧ e'.topic = e.topic) ∨
      ∃ j e', sub.place ≤ j ∧ Broadcast.oldest backlog sent ≤ j ∧ k ≤ j ∧ sent[j]? = some e' ∧
        e'.topic = e.topic

/-- The rounds of a listener: it goes to the oldest event that is kept, it takes the event at its
    place, or there is nothing. -/
theorem next_cases (sub : Subscription) (sent : List MirrorEvent) :
    (sub.place < Broadcast.oldest backlog sent ∧
      sub.next sent = { sub with place := Broadcast.oldest backlog sent }) ∨
    (Broadcast.oldest backlog sent ≤ sub.place ∧ ∃ e, sent[sub.place]? = some e ∧
      sub.next sent = { sub with
        place := sub.place + 1
        received := if e.reaches sub.role then sub.received ++ [(sub.place, e)]
          else sub.received }) ∨
    (sent.length ≤ sub.place ∧ sub.next sent = sub) := by
  rcases Broadcast.recv_cases backlog sent sub.place with
    ⟨hlt, hr⟩ | ⟨hle, e, he, hr⟩ | ⟨hle, hr⟩
  · exact .inl ⟨hlt, by rw [Subscription.next, hr]; rfl⟩
  · exact .inr (.inl ⟨hle, e, he, by rw [Subscription.next, hr]; rfl⟩)
  · exact .inr (.inr ⟨hle, by rw [Subscription.next, hr]; rfl⟩)

@[simp] theorem next_role : (sub.next sent).role = sub.role := by
  rcases next_cases sub sent with ⟨-, h⟩ | ⟨-, e, -, h⟩ | ⟨-, h⟩ <;> rw [h]

@[simp] theorem next_since : (sub.next sent).since = sub.since := by
  rcases next_cases sub sent with ⟨-, h⟩ | ⟨-, e, -, h⟩ | ⟨-, h⟩ <;> rw [h]

theorem Subscription.Sound.next (h : sub.Sound sent) : (sub.next sent).Sound sent := by
  rcases next_cases sub sent with ⟨hlt, hnext⟩ | ⟨-, e, he, hnext⟩ | ⟨-, hnext⟩ <;> rw [hnext]
  · exact ⟨h.since_le.trans hlt.le, Nat.sub_le .., fun j e hj =>
      (h.received j e hj).imp_left fun hlt' => hlt'.trans hlt⟩
  · refine ⟨h.since_le.trans (Nat.le_succ _), (List.getElem?_eq_some_iff.1 he).1, fun j e' hj => ?_⟩
    dsimp only at hj ⊢
    split at hj
    · rename_i hreach
      rcases List.mem_append.1 hj with hj | hj
      · exact (h.received j e' hj).imp_left fun hlt => hlt.trans (Nat.lt_succ_self _)
      · obtain ⟨rfl, rfl⟩ := Prod.mk.inj (List.mem_singleton.1 hj)
        exact ⟨Nat.lt_succ_self _, he, hreach⟩
    · exact (h.received j e' hj).imp_left fun hlt => hlt.trans (Nat.lt_succ_self _)
  · exact h

/-- A listener is given what it is owed when it comes to it. -/
theorem Subscription.Due.next (h : sub.Due sent) : (sub.next sent).Due sent := by
  intro k e hk he hreach
  rw [next_since] at hk
  rw [next_role] at hreach
  have hdue := h k e hk he hreach
  rcases next_cases sub sent with ⟨-, hnext⟩ | ⟨-, e', he', hnext⟩ | ⟨-, hnext⟩ <;> rw [hnext]
  · refine hdue.imp_right ?_
    rintro ⟨j, e', -, hold, hj⟩
    exact ⟨j, e', hold, hold, hj⟩
  · rcases hdue with ⟨j, e'', hmem, hj⟩ | ⟨j, e'', hplace, hold, hkj, hsent, htopic⟩
    · refine .inl ⟨j, e'', ?_, hj⟩
      dsimp only
      split
      · exact List.mem_append_left _ hmem
      · exact hmem
    · rcases hplace.eq_or_lt with rfl | hlt
      · obtain rfl := Option.some.inj (he'.symm.trans hsent)
        refine .inl ⟨sub.place, e', ?_, hkj, htopic⟩
        dsimp only
        rw [if_pos (reaches_of_topic_eq htopic.symm hreach)]
        exact List.mem_append_right _ (List.mem_singleton_self _)
      · exact .inr ⟨j, e'', hlt, hold, hkj, hsent, htopic⟩
  · exact hdue

/-- What was sent before stays where it is. -/
theorem getElem?_sent {event : MirrorEvent} {k : ℕ} (hk : k < sent.length) :
    (sent ++ [event])[k]? = sent[k]? := List.getElem?_append_left hk

theorem Subscription.Sound.publish (h : sub.Sound sent) (event : MirrorEvent) :
    sub.Sound (sent ++ [event]) := by
  refine ⟨h.since_le, h.place_le.trans (by simp), fun j e hj => ?_⟩
  obtain ⟨hlt, he, hreach⟩ := h.received j e hj
  exact ⟨hlt, (getElem?_sent (hlt.trans_le h.place_le)).trans he, hreach⟩

/-- What a listener is owed is there after an event that pushes no last one of a topic out. -/
theorem Subscription.Due.publish (h : sub.Due sent) {event : MirrorEvent}
    (hkept : ∀ lost, backlog ≤ sent.length → sub.place ≤ sent.length - backlog →
      sent[sent.length - backlog]? = some lost → lost.reaches sub.role = true →
      ∃ k e, sent.length - backlog < k ∧ (sent ++ [event])[k]? = some e ∧ e.topic = lost.topic)
    (hplace : sub.place ≤ sent.length) : sub.Due (sent ++ [event]) := by
  have hold : ∀ {j : ℕ}, Broadcast.oldest backlog (sent ++ [event]) ≤ j ↔
      sent.length + 1 ≤ j + backlog := by
    intro j
    rw [Broadcast.oldest, List.length_append, List.length_singleton]
    omega
  intro k e hk he hreach
  have hlen : k < (sent ++ [event]).length := (List.getElem?_eq_some_iff.1 he).1
  rw [List.length_append, List.length_singleton] at hlen
  rcases (Nat.lt_succ_iff.1 hlen).lt_or_eq with hlt | rfl
  · rw [getElem?_sent hlt] at he
    rcases h k e hk he hreach with hgiven | ⟨j, e', hj, hjold, hkj, hsent, htopic⟩
    · exact .inl hgiven
    · have hjlt : j < sent.length := (List.getElem?_eq_some_iff.1 hsent).1
      by_cases hout : sent.length + 1 ≤ j + backlog
      · exact .inr ⟨j, e', hj, hold.2 hout, hkj, (getElem?_sent hjlt).trans hsent, htopic⟩
      · -- this is the event that is pushed out, so there is a later one of its topic
        have hjeq : j = sent.length - backlog := by
          rw [Broadcast.oldest] at hjold
          omega
        subst hjeq
        obtain ⟨k', e'', hk', he'', htopic'⟩ := hkept e' (by omega) hj hsent
          (reaches_of_topic_eq htopic.symm hreach)
        refine .inr ⟨k', e'', hj.trans hk'.le, hold.2 (by omega), hkj.trans hk'.le, he'',
          htopic'.trans htopic⟩
  · refine .inr ⟨sent.length, e, hplace, hold.2 ?_, le_rfl, he, rfl⟩
    exact Nat.add_le_add_left (by decide) _

end Next

/-! ## Runs -/

variable {s s' : State}

/-- What a step does for a listener: nothing, an event is published, it begins, or it goes a round. -/
theorem step_cases {a : Act} {i : ℕ} {sub : Subscription} (h : step s a = some s')
    (hsub : s'.subs i = some sub) :
    (s'.sent = s.sent ∧ s.subs i = some sub) ∨
    (∃ event, a = .publish event ∧ s'.sent = s.sent ++ [event] ∧ s.subs i = some sub) ∨
    (∃ role, s'.sent = s.sent ∧ sub = ⟨role, s.sent.length, s.sent.length, []⟩) ∨
    (∃ old, s'.sent = s.sent ∧ s.subs i = some old ∧ sub = old.next s.sent) := by
  cases a with
  | publish event =>
    obtain rfl := Option.some.inj h
    exact .inr (.inl ⟨event, rfl, rfl, hsub⟩)
  | subscribe j role =>
    rw [step] at h
    split at h
    · cases h
    · obtain rfl := Option.some.inj h
      by_cases hij : i = j
      · subst hij
        replace hsub := (setAt_self ..).symm.trans hsub
        exact .inr (.inr (.inl ⟨role, rfl, (Option.some.inj hsub).symm⟩))
      · replace hsub := (setAt_of_ne _ _ hij).symm.trans hsub
        exact .inl ⟨rfl, hsub⟩
  | next j =>
    obtain ⟨old, hold, rfl⟩ := Option.map_eq_some_iff.1 h
    by_cases hij : i = j
    · subst hij
      replace hsub := (setAt_self ..).symm.trans hsub
      exact .inr (.inr (.inr ⟨old, rfl, hold, (Option.some.inj hsub).symm⟩))
    · replace hsub := (setAt_of_ne _ _ hij).symm.trans hsub
      exact .inl ⟨rfl, hsub⟩
  | drop j =>
    obtain rfl := Option.some.inj h
    by_cases hij : i = j
    · subst hij
      replace hsub := (setAt_self ..).symm.trans hsub
      cases hsub
    · replace hsub := (setAt_of_ne _ _ hij).symm.trans hsub
      exact .inl ⟨rfl, hsub⟩

theorem system_sound (h : system.Reachable s) :
    ∀ i sub, s.subs i = some sub → sub.Sound s.sent := by
  refine h.invariant (P := fun s => ∀ i sub, s.subs i = some sub → sub.Sound s.sent)
    (fun s hs i sub hsub => ?_) fun s a s' ih _ hstep i sub hsub => ?_
  · exact absurd ((hs.2 i).symm.trans hsub) nofun
  · rcases step_cases hstep hsub with ⟨hsent, hold⟩ | ⟨event, -, hsent, hold⟩ |
      ⟨role, hsent, rfl⟩ | ⟨old, hsent, hold, rfl⟩ <;> rw [hsent]
    · exact ih i sub hold
    · exact (ih i sub hold).publish event
    · exact ⟨le_rfl, le_rfl, nofun⟩
    · exact (ih i old hold).next

theorem system_due (h : system.Reach Kept s) : ∀ i sub, s.subs i = some sub → sub.Due s.sent := by
  refine h.invariant_of (P := fun s => ∀ i sub, s.subs i = some sub → sub.Due s.sent)
    (fun s hs => system_sound (hs.mono fun _ _ _ => trivial)) (fun s hs i sub hsub => ?_) fun s a s' hsound ih hok hstep i sub hsub => ?_
  · exact absurd ((hs.2 i).symm.trans hsub) nofun
  · rcases step_cases hstep hsub with ⟨hsent, hold⟩ | ⟨event, rfl, hsent, hold⟩ |
      ⟨role, hsent, rfl⟩ | ⟨old, hsent, hold, rfl⟩ <;> rw [hsent]
    · exact ih i sub hold
    · exact (ih i sub hold).publish (fun lost => hok i sub lost hold) (hsound i sub hold).place_le
    · intro k e hk he
      exact absurd (List.getElem?_eq_some_iff.1 he).1 (Nat.not_lt.2 hk)
    · exact (ih i old hold).next

/-- What a listener with nothing left to read is owed, it has had. -/
theorem Subscription.Due.current {sub : Subscription} (h : sub.Due s.sent) (hdrained : Drained s sub) :
    Current s sub := by
  intro k e hk he hreach
  rcases h k e hk he hreach with hgiven | ⟨j, e', hj, -, -, hsent, -⟩
  · exact hgiven
  · exact absurd (List.getElem?_eq_some_iff.1 hsent).1 (Nat.not_lt.2 (hdrained ▸ hj))

/-- A listener comes to the end, and what it is given on the way was still kept. -/
theorem exists_drained {i : ℕ} {sub : Subscription} (hsub : s.subs i = some sub)
    (hplace : sub.place ≤ s.sent.length) :
    ∃ as s' sub', (∀ a ∈ as, a = .next i) ∧ system.run s as = some s' ∧ s'.sent = s.sent ∧
      s'.subs i = some sub' ∧ Drained s' sub' ∧ sub'.since = sub.since ∧ sub'.role = sub.role ∧
      ∀ j e, (j, e) ∈ sub'.received →
        (j, e) ∈ sub.received ∨ Broadcast.oldest backlog s.sent ≤ j ∧ s.sent[j]? = some e := by
  obtain ⟨n, hn⟩ : ∃ n, n = s.sent.length - sub.place := ⟨_, rfl⟩
  induction n using Nat.strong_induction_on generalizing s sub with
  | _ n ih =>
    by_cases hend : sub.place = s.sent.length
    · exact ⟨[], s, sub, nofun, rfl, rfl, hsub, hend, rfl, rfl, fun _ _ h => .inl h⟩
    have hstep : step s (.next i) =
        some { s with subs := setAt s.subs i (some (sub.next s.sent)) } := by
      rw [step, hsub]
      rfl
    have hgoes : sub.place < (sub.next s.sent).place ∧ (sub.next s.sent).place ≤ s.sent.length ∧
        ∀ j e, (j, e) ∈ (sub.next s.sent).received →
          (j, e) ∈ sub.received ∨ Broadcast.oldest backlog s.sent ≤ j ∧ s.sent[j]? = some e := by
      rcases next_cases sub s.sent with ⟨hlt, hnext⟩ | ⟨hold, e, he, hnext⟩ | ⟨hle, -⟩
      · rw [hnext]
        exact ⟨hlt, Nat.sub_le .., fun _ _ h => .inl h⟩
      · rw [hnext]
        refine ⟨Nat.lt_succ_self _, (List.getElem?_eq_some_iff.1 he).1, fun j e' hj => ?_⟩
        dsimp only at hj
        split at hj
        · rcases List.mem_append.1 hj with hj | hj
          · exact .inl hj
          · obtain ⟨rfl, rfl⟩ := Prod.mk.inj (List.mem_singleton.1 hj)
            exact .inr ⟨hold, he⟩
        · exact .inl hj
      · exact absurd (Nat.le_antisymm hplace hle) hend
    obtain ⟨hlt, hle, hgiven⟩ := hgoes
    obtain ⟨as, s', sub', has, hrun, hsent, hsub', hdrained, hsince, hrole, hreceived⟩ :=
      @ih (s.sent.length - (sub.next s.sent).place) (by omega)
        { s with subs := setAt s.subs i (some (sub.next s.sent)) } (sub.next s.sent)
        (setAt_self ..) hle rfl
    refine ⟨.next i :: as, s', sub', ?_, ?_, hsent, hsub', hdrained, hsince.trans next_since,
      hrole.trans next_role, fun j e hj => ?_⟩
    · exact List.forall_mem_cons.2 ⟨rfl, has⟩
    · exact (congrArg (Option.bind · _) hstep).trans hrun
    · rcases hreceived j e hj with hj | hj
      · exact hgiven j e hj
      · exact .inr hj

/-- When an event is pushed out that is the last one of its topic, a listener that may hear it and has
    not read it reads to the end without it. -/
theorem system_stale {a : Act} (h : system.Reachable s) (hstep : step s a = some s')
    (hlost : ¬ Kept s a) :
    ∃ i as s'' sub, (∀ a ∈ as, a = .next i) ∧ system.run s' as = some s'' ∧
      s''.subs i = some sub ∧ Drained s'' sub ∧ ¬ Current s'' sub := by
  rcases a with event | ⟨i, role⟩ | i | i
  · simp only [Kept, not_forall, not_exists, not_and] at hlost
    obtain ⟨i, sub, lost, hsub, hfull, hplace, hout, hreach, hlast⟩ := hlost
    obtain rfl := Option.some.inj hstep
    have hsound := system_sound h i sub hsub
    have hlen : (s.sent ++ [event]).length = s.sent.length + 1 := by
      rw [List.length_append, List.length_singleton]
    obtain ⟨as, s'', sub', has, hrun, hsent, hsub', hdrained, hsince, hrole, hreceived⟩ :=
      exists_drained (s := { s with sent := s.sent ++ [event] }) hsub
        (hsound.place_le.trans (hlen.ge.trans' (Nat.le_succ _)))
    refine ⟨i, as, s'', sub', has, hrun, hsub', hdrained, fun hcurrent => ?_⟩
    have hat : (s.sent ++ [event])[s.sent.length - backlog]? = some lost :=
      (getElem?_sent (List.getElem?_eq_some_iff.1 hout).1).trans hout
    obtain ⟨j, e, hj, hle, htopic⟩ := hcurrent (s.sent.length - backlog) lost
      (hsince ▸ hsound.since_le.trans hplace) (hsent ▸ hat) (hrole ▸ hreach)
    rcases hreceived j e hj with hj | ⟨hold, he⟩
    · exact absurd (hsound.received j e hj).1 (Nat.not_lt.2 (hplace.trans hle))
    · refine hlast j e ?_ he htopic
      rw [Broadcast.oldest, hlen] at hold
      omega
  all_goals exact absurd trivial hlost

/-- A listener is given what it may hear. As long as no last event of a topic is pushed out unread, it
    has had the last event of each topic when it has read everything; and when one is, it reads
    everything and has not. -/
theorem system_current (s : State) :
    (system.Reachable s → ∀ i sub, s.subs i = some sub →
      ∀ j e, (j, e) ∈ sub.received → e.reaches sub.role = true) ∧
    (system.Reach Kept s → ∀ i sub, s.subs i = some sub → Drained s sub → Current s sub) ∧
    ∀ a s', system.Reachable s → step s a = some s' → ¬ Kept s a →
      ∃ i as s'' sub, (∀ a ∈ as, a = .next i) ∧ system.run s' as = some s'' ∧
        s''.subs i = some sub ∧ Drained s'' sub ∧ ¬ Current s'' sub := by
  refine ⟨fun h i sub hsub j e hj => ?_, fun h i sub hsub hdrained => ?_,
    fun a s' h hstep hlost => system_stale h hstep hlost⟩
  · exact ((system_sound h i sub hsub).received j e hj).2.2
  · exact (system_due h i sub hsub).current hdrained

/-! ## A pack is published before many harvests -/

def start : State := ⟨[], fun _ => none⟩

/-- Somebody listens, a pack is published, and they have read of it. -/
theorem system_current_heard : ∃ s sub, s.subs 0 = some sub ∧ sub.received =
    [(0, .pack "Industrial" "published")] ∧ Current s sub := by
  have h₀ : system.Reach Kept start := .init ⟨rfl, fun _ => rfl⟩
  have listening := h₀.step (a := .subscribe 0 .member) (by exact trivial) rfl
  have published := listening.step (a := .publish (.pack "Industrial" "published"))
    (by exact fun _ _ _ _ hfull => absurd hfull (by decide)) rfl
  have heard := published.step (a := .next 0) (by exact trivial) rfl
  exact ⟨_, _, rfl, rfl, (system_current _).2.1 heard 0 _ rfl rfl⟩

/-- Somebody listens, a pack is published, and then the index moves, more often than the channel keeps
    events. -/
def harvests : List Act :=
  [.subscribe 0 .member, .publish (.pack "Industrial" "published")] ++
    List.replicate backlog (.publish (.registry "harvest")) ++ List.replicate (backlog + 1) (.next 0)

/-- The listener has read everything, and nothing about the pack. -/
theorem system_packLost : ∃ s sub, system.Reachable s ∧ s.subs 0 = some sub ∧ Drained s sub ∧
    ¬ Current s sub := by
  have hrun : (system.run start harvests).any (fun s => (s.subs 0).any fun sub =>
      decide (sub.place = s.sent.length ∧ sub.since = 0 ∧ sub.role = .member ∧
        s.sent[0]? = some (.pack "Industrial" "published") ∧
        ∀ r ∈ sub.received, r.2.topic ≠ .pack "Industrial")) = true := by decide +kernel
  obtain ⟨s, hs, hsub⟩ := (Option.any_eq_true _ _).1 hrun
  obtain ⟨sub, hsub, hfacts⟩ := (Option.any_eq_true _ _).1 hsub
  obtain ⟨hplace, hsince, hrole, hsent, hnone⟩ := of_decide_eq_true hfacts
  have hstart : system.Reachable start := .init ⟨rfl, fun _ => rfl⟩
  refine ⟨s, sub, hstart.run hs, hsub, hplace, fun hcurrent => ?_⟩
  obtain ⟨j, e, hj, -, htopic⟩ := hcurrent 0 _ hsince.le hsent (by rw [hrole]; rfl)
  exact hnone (j, e) hj htopic

end Events

end Smrt
