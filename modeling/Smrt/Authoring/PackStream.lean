import Mathlib.Data.List.Sort
import Smrt.Lib.Keyed
import Smrt.Lib.System

/-!
# Who is in a pack

A pack has a room: a channel, and the editors who are in it, each as often as they joined. One who
joins or leaves changes the room and reads its roster (`Room.join`, `Room.leave`), which is published
after that, when others may have changed the room again. All who are in progress are parties of the
system, and a party that has read its roster has yet to publish it (`Call`).

* `system_editors`: when nothing is in progress, those who are in the room hold a presence;
* `system_roster`: so do those whom the last roster names that was published, as long as nobody
  publishes an older roster after the newest one (`InOrder`).

Without that, the last roster may be an old one (`roster_is_old`).
-/

namespace Smrt

namespace PackStream

/-! ## Rooms -/

inductive PackEvent
  | saved (rev who : String)
  | present (editors : List String)
  | doc (who update : String)
  | committed (id who message : String)
  deriving DecidableEq

/-- The editors of a room, each with how often they joined. -/
structure Room where
  /-- Whether there is a channel. -/
  tx : Bool
  editors : List (String × ℕ)
  deriving DecidableEq

/-- How often somebody is in a room. -/
def Room.times (r : Room) (login : String) : ℕ := (r.editors.lookup login).getD 0

def roomRoster (r : Room) : List String := (r.editors.map Prod.fst).insertionSort (· ≤ ·)

def Room.join (r : Room) (login : String) : Room where
  tx := true
  editors := put login (r.times login + 1) r.editors

def Room.leave (r : Room) (login : String) : Option Room :=
  match r.editors.lookup login with
  | some n =>
    if 1 < n then some { r with editors := put login (n - 1) r.editors }
    else some { r with editors := r.editors.filter fun p => p.1 ≠ login }
  | none => none

/-- The rows of a room are as they are kept: in order, and nobody is there not at all. -/
structure Room.Kept (r : Room) : Prop where
  increasing : Increasing r.editors
  pos : ∀ p ∈ r.editors, 0 < p.2

section Room

variable {r r' : Room} {login : String}

theorem mem_roomRoster (h : r.Kept) : login ∈ roomRoster r ↔ 0 < r.times login := by
  rw [roomRoster, List.mem_insertionSort, Room.times]
  constructor
  · intro hmem
    obtain ⟨p, hp, rfl⟩ := List.mem_map.1 hmem
    rw [h.increasing.lookup (k := p.1) (a := p.2) hp]
    exact h.pos p hp
  · intro hpos
    rcases hl : r.editors.lookup login with _ | n
    · rw [hl] at hpos
      exact absurd hpos (Nat.lt_irrefl 0)
    · exact List.mem_map.2 ⟨_, mem_of_lookup hl, rfl⟩

theorem Room.Kept.join (h : r.Kept) (login : String) : (r.join login).Kept where
  increasing := h.increasing.put
  pos p hp := by
    rcases mem_of_mem_put hp with rfl | hp
    · exact Nat.succ_pos _
    · exact h.pos p hp

theorem Room.times_join (login other : String) :
    (r.join login).times other = r.times other + if other = login then 1 else 0 := by
  rw [Room.times, Room.join, lookup_put]
  by_cases he : other = login
  · rw [if_pos he, if_pos he, he]
    rfl
  · rw [if_neg he, if_neg he]
    rfl

/-- What is found in a room without somebody. -/
theorem lookup_filter_ne (l : List (String × ℕ)) (other : String) :
    (l.filter fun p => p.1 ≠ login).lookup other =
      if other = login then none else l.lookup other := by
  induction l with
  | nil => exact (ite_self none).symm
  | cons p l ih =>
    obtain ⟨k, n⟩ := p
    by_cases hk : k = login
    · rw [List.filter_cons_of_neg (by simpa using hk), ih, lookup_cons']
      by_cases he : other = login
      · rw [if_pos he, if_pos he]
      · rw [if_neg he, if_neg he, if_neg fun hok => he (hok.trans hk)]
    · rw [List.filter_cons_of_pos (by simpa using hk), lookup_cons', ih, lookup_cons']
      by_cases he : other = login
      · rw [if_pos he, if_pos he, if_neg fun hok => hk (hok.symm.trans he)]
      · rw [if_neg he, if_neg he]

/-- One who leaves was there, and is there once less. -/
theorem Room.leave_eq_some (h : r.Kept) (hr : r.leave login = some r') :
    r'.Kept ∧ r'.tx = r.tx ∧
      ∀ other, r.times other = r'.times other + if other = login then 1 else 0 := by
  rw [Room.leave] at hr
  split at hr
  · rename_i n hn
    have hpos : 0 < n := h.pos _ (mem_of_lookup hn)
    have htimes : r.times login = n := congrArg (Option.getD · 0) hn
    split_ifs at hr with hlt
    · obtain rfl := Option.some.inj hr
      refine ⟨⟨h.increasing.put, fun p hp => ?_⟩, rfl, fun other => ?_⟩
      · rcases mem_of_mem_put hp with rfl | hp
        · exact Nat.sub_pos_of_lt hlt
        · exact h.pos p hp
      · rw [Room.times, Room.times, lookup_put]
        by_cases he : other = login
        · rw [if_pos he, if_pos he, he, hn]
          exact (Nat.sub_add_cancel hpos).symm
        · rw [if_neg he, if_neg he, Nat.add_zero]
    · obtain rfl := Option.some.inj hr
      refine ⟨⟨h.increasing.sublist List.filter_sublist, fun p hp => ?_⟩, rfl, fun other => ?_⟩
      · exact h.pos p (List.mem_of_mem_filter hp)
      · rw [Room.times, Room.times, lookup_filter_ne]
        by_cases he : other = login
        · rw [if_pos he, if_pos he, he, hn]
          exact Nat.le_antisymm (Nat.not_lt.1 hlt) hpos
        · rw [if_neg he, if_neg he, Nat.add_zero]
  · exact absurd hr nofun

/-- Only one who is not there does not leave. -/
theorem Room.leave_eq_none (hr : r.leave login = none) : r.times login = 0 := by
  rw [Room.leave] at hr
  split at hr
  · split_ifs at hr
  · rename_i hn
    rw [Room.times, hn]
    rfl

end Room

/-! ## The system -/

/-- Somebody who changed the room, and has not published the roster they read then. `ticket` says
    how many changes there had been. -/
structure Call where
  /-- Who gets a presence, if this one joins. -/
  joining : Option String
  roster : List String
  ticket : ℕ
  deriving DecidableEq

structure State where
  room : Room
  /-- Who holds a presence, once for each of them. -/
  presences : List String
  calls : List Call
  /-- What was sent to the channel. -/
  sent : List PackEvent
  updates : ℕ
  deriving DecidableEq

/-- An event goes to the channel of a room that has one, if anybody listens: all who hold a presence
    do, and so do those who are about to hold one or to lose it. -/
def State.send (s : State) (e : PackEvent) : State :=
  if s.room.tx ∧ (s.presences ≠ [] ∨ s.calls ≠ []) then { s with sent := s.sent ++ [e] } else s

/-- The room has changed, and its roster was read. -/
def State.update (s : State) (room : Room) (joining : Option String) : State :=
  { s with
    room
    calls := s.calls ++ [{ joining, roster := roomRoster room, ticket := s.updates + 1 }]
    updates := s.updates + 1 }

/-- A call publishes its roster, and returns. -/
def State.publish (s : State) (i : ℕ) (c : Call) : State :=
  { s.send (.present c.roster) with
    presences := c.joining.toList ++ s.presences
    calls := s.calls.eraseIdx i }

/-- Those who lose a presence. -/
def State.drop (s : State) (login : String) : State :=
  { s with presences := s.presences.erase login }

/-- What happens: somebody joins or drops a presence, up to the roster they read; one of those who did
    publishes it; something else is told. -/
inductive Act
  | join (login : String)
  | drop (login : String)
  | publish (i : ℕ)
  | tell (e : PackEvent)

def PackEvent.roster : PackEvent → Option (List String)
  | present editors => some editors
  | _ => none

def step (s : State) : Act → Option State
  | .join login => some (s.update (s.room.join login) (some login))
  | .drop login =>
    if login ∈ s.presences then
      some (match s.room.leave login with
        | some room => (s.drop login).update room none
        | none => s.drop login)
    else none
  | .publish i => s.calls[i]?.map (s.publish i)
  | .tell e => if e.roster = none then some (s.send e) else none

/-- Nobody ever joined. -/
def system : System State Act where
  init s := s = ⟨⟨false, []⟩, [], [], [], 0⟩
  step := step

/-- The last roster that was published. -/
def lastPresent (sent : List PackEvent) : Option (List String) :=
  (sent.filterMap PackEvent.roster).getLast?

/-- A roster is published while the newest one is still to be. -/
def InOrder (s : State) : Act → Prop
  | .publish _ => ∃ c ∈ s.calls, c.ticket = s.updates
  | _ => True

/-! ## Presences -/

/-- Everybody is in the room as often as they hold a presence or are about to. -/
structure Inv (s : State) : Prop where
  kept : s.room.Kept
  counted : ∀ login, s.room.times login =
    s.presences.count login + (s.calls.filterMap Call.joining).count login
  opened : s.presences ≠ [] ∨ s.calls ≠ [] → s.room.tx = true

section Inv

variable {s s' : State} {a : Act}

theorem filterMap_concat (calls : List Call) (c : Call) :
    (calls ++ [c]).filterMap Call.joining = calls.filterMap Call.joining ++ c.joining.toList := by
  rw [List.filterMap_append]
  rcases hj : c.joining with _ | login <;> simp [hj]

/-- Whoever joined with a call does so no more when it is done. -/
theorem count_eraseIdx {calls : List Call} {i : ℕ} {c : Call} (h : calls[i]? = some c)
    (login : String) : (calls.filterMap Call.joining).count login =
      c.joining.toList.count login + ((calls.eraseIdx i).filterMap Call.joining).count login := by
  obtain ⟨hi, hc⟩ := List.getElem?_eq_some_iff.1 h
  have hsplit : calls = calls.take i ++ c :: calls.drop (i + 1) := by
    rw [← hc, List.getElem_cons_drop, List.take_append_drop]
  have hcons : (c :: calls.drop (i + 1)).filterMap Call.joining =
      c.joining.toList ++ (calls.drop (i + 1)).filterMap Call.joining := by
    rcases hj : c.joining with _ | login <;> simp [hj]
  rw [List.eraseIdx_eq_take_drop_succ]
  conv_lhs => rw [hsplit]
  rw [List.filterMap_append, List.filterMap_append, hcons]
  simp only [List.count_append]
  omega

theorem send_room (e : PackEvent) : (s.send e).room = s.room := by
  rw [State.send]
  split_ifs <;> rfl

theorem send_presences (e : PackEvent) : (s.send e).presences = s.presences := by
  rw [State.send]
  split_ifs <;> rfl

theorem send_calls (e : PackEvent) : (s.send e).calls = s.calls := by
  rw [State.send]
  split_ifs <;> rfl

theorem Inv.join (h : Inv s) (login : String) :
    Inv (s.update (s.room.join login) (some login)) where
  kept := h.kept.join login
  counted other := by
    show (s.room.join login).times other = s.presences.count other +
      ((s.calls ++ [_]).filterMap Call.joining).count other
    rw [Room.times_join, h.counted, filterMap_concat, List.count_append, Option.toList_some,
      List.count_singleton]
    by_cases he : other = login
    · rw [if_pos he, he, if_pos (beq_self_eq_true _)]
      omega
    · rw [if_neg he, if_neg fun hb => he (beq_iff_eq.1 hb).symm]
      omega
  opened _ := rfl

/-- Whoever holds a presence can leave the room. -/
theorem Inv.drop {login : String} (h : Inv s) (hmem : login ∈ s.presences) :
    ∃ room, s.room.leave login = some room ∧ Inv ((s.drop login).update room none) := by
  have hcount : 0 < s.presences.count login := List.count_pos_iff.2 hmem
  rcases hr : s.room.leave login with _ | room
  · have hzero := Room.leave_eq_none hr
    rw [h.counted] at hzero
    omega
  · obtain ⟨hkept, htx, htimes⟩ := Room.leave_eq_some h.kept hr
    refine ⟨room, rfl, hkept, fun other => ?_, fun _ => ?_⟩
    · show room.times other = (s.presences.erase login).count other +
        ((s.calls ++ [_]).filterMap Call.joining).count other
      have hall := h.counted other
      rw [htimes other] at hall
      rw [filterMap_concat, Option.toList_none, List.append_nil]
      by_cases he : other = login
      · rw [if_pos he] at hall
        rw [he] at hall ⊢
        rw [List.count_erase_self]
        omega
      · rw [if_neg he] at hall
        rw [List.count_erase_of_ne he]
        omega
    · exact htx.trans (h.opened (.inl (List.ne_nil_of_mem hmem)))

theorem Inv.publish {i : ℕ} {c : Call} (h : Inv s) (hc : s.calls[i]? = some c) :
    Inv (s.publish i c) where
  kept := by
    rw [State.publish, send_room]
    exact h.kept
  counted login := by
    rw [State.publish, send_room]
    show s.room.times login = (c.joining.toList ++ s.presences).count login +
      ((s.calls.eraseIdx i).filterMap Call.joining).count login
    rw [h.counted, count_eraseIdx hc login, List.count_append]
    omega
  opened _ := by
    rw [State.publish, send_room]
    exact h.opened (.inr (List.ne_nil_of_mem (List.mem_of_getElem? hc)))

theorem Inv.send (h : Inv s) (e : PackEvent) : Inv (s.send e) where
  kept := by
    rw [send_room]
    exact h.kept
  counted := by
    rw [send_room, send_presences, send_calls]
    exact h.counted
  opened := by
    rw [send_room, send_presences, send_calls]
    exact h.opened

/-- What happens, by what it is. -/
theorem step_cases (h : Inv s) (hst : step s a = some s') :
    (∃ login, a = .join login ∧ s' = s.update (s.room.join login) (some login)) ∨
    (∃ login room, a = .drop login ∧ login ∈ s.presences ∧ s.room.leave login = some room ∧
      s' = (s.drop login).update room none) ∨
    (∃ i c, a = .publish i ∧ s.calls[i]? = some c ∧ s' = s.publish i c) ∨
    (∃ e, a = .tell e ∧ e.roster = none ∧ s' = s.send e) := by
  rcases a with login | login | i | e
  · exact .inl ⟨login, rfl, (Option.some.inj hst).symm⟩
  · rw [step] at hst
    split_ifs at hst with hmem
    obtain ⟨room, hroom, _⟩ := h.drop hmem
    rw [hroom] at hst
    exact .inr (.inl ⟨login, room, rfl, hmem, hroom, (Option.some.inj hst).symm⟩)
  · obtain ⟨c, hc, rfl⟩ := Option.map_eq_some_iff.1 hst
    exact .inr (.inr (.inl ⟨i, c, rfl, hc, rfl⟩))
  · rw [step] at hst
    split_ifs at hst with he
    exact .inr (.inr (.inr ⟨e, rfl, he, (Option.some.inj hst).symm⟩))

theorem inv_of_reach {ok : State → Act → Prop} (h : system.Reach ok s) : Inv s := by
  refine h.invariant ?_ ?_
  · rintro s rfl
    exact ⟨⟨.nil, fun p hp => absurd hp List.not_mem_nil⟩, fun _ => rfl, fun hne =>
      (hne.elim (absurd rfl) (absurd rfl))⟩
  · intro s a s' hs _ hst
    rcases step_cases hs hst with ⟨login, -, rfl⟩ | ⟨login, room, -, hmem, hroom, rfl⟩ |
      ⟨i, c, -, hc, rfl⟩ | ⟨e, -, -, rfl⟩
    · exact hs.join login
    · obtain ⟨room', hroom', hinv⟩ := hs.drop hmem
      obtain rfl := Option.some.inj (hroom.symm.trans hroom')
      exact hinv
    · exact hs.publish hc
    · exact hs.send e

/-- When nothing is in progress, those who are in the room are those who hold a presence. -/
theorem system_editors {ok : State → Act → Prop} (h : system.Reach ok s) (hq : s.calls = [])
    (login : String) : login ∈ roomRoster s.room ↔ login ∈ s.presences := by
  have hinv := inv_of_reach h
  rw [mem_roomRoster hinv.kept, hinv.counted, hq]
  exact List.count_pos_iff

end Inv

/-! ## Rosters -/

/-- The roster of the newest change is that of the room. It was published last, if it was. -/
structure Shown (s : State) : Prop where
  ticket : ∀ c ∈ s.calls, c.ticket ≤ s.updates
  roster : ∀ c ∈ s.calls, c.ticket = s.updates → c.roster = roomRoster s.room
  last : (∀ c ∈ s.calls, c.ticket ≠ s.updates) →
    (lastPresent s.sent).getD [] = roomRoster s.room

section Shown

variable {s s' : State} {a : Act}

theorem lastPresent_concat (sent : List PackEvent) (e : PackEvent) :
    lastPresent (sent ++ [e]) = e.roster.or (lastPresent sent) := by
  rw [lastPresent, lastPresent, List.filterMap_append]
  rcases he : e.roster with _ | editors <;> simp [he]

/-- Somebody who changes the room has yet to publish its roster. -/
theorem Shown.update (h : Shown s) (room : Room) (joining : Option String) :
    Shown (s.update room joining) where
  ticket c hc := by
    rcases List.mem_append.1 hc with hc | hc
    · exact Nat.le_succ_of_le (h.ticket c hc)
    · obtain rfl := List.mem_singleton.1 hc
      exact Nat.le_refl _
  roster c hc ht := by
    rcases List.mem_append.1 hc with hc | hc
    · exact absurd (ht ▸ h.ticket c hc) (Nat.not_succ_le_self _)
    · obtain rfl := List.mem_singleton.1 hc
      rfl
  last hne := absurd rfl (hne _ (List.mem_append_right _ (List.mem_singleton_self _)))

theorem Shown.drop (h : Shown s) (login : String) : Shown (s.drop login) :=
  ⟨h.ticket, h.roster, h.last⟩

/-- A call that is in progress is heard. -/
theorem sent_send {c : Call} (hinv : Inv s) (hc : c ∈ s.calls) (e : PackEvent) :
    (s.send e).sent = s.sent ++ [e] := by
  rw [State.send, if_pos]
  have hne := List.ne_nil_of_mem hc
  exact ⟨hinv.opened (.inr hne), .inr hne⟩

theorem send_updates (e : PackEvent) : (s.send e).updates = s.updates := by
  rw [State.send]
  split_ifs <;> rfl

theorem mem_eraseIdx_of_ne {calls : List Call} {i : ℕ} {c d : Call} (hc : calls[i]? = some c)
    (hd : d ∈ calls) (hne : d ≠ c) : d ∈ calls.eraseIdx i := by
  obtain ⟨j, hj⟩ := List.mem_iff_getElem?.1 hd
  refine List.mem_eraseIdx_iff_getElem?.2 ⟨j, fun hij => hne ?_, hj⟩
  exact Option.some.inj (hj.symm.trans (hij ▸ hc))

theorem Shown.publish {i : ℕ} {c : Call} (h : Shown s) (hinv : Inv s) (hc : s.calls[i]? = some c)
    (hok : ∃ c ∈ s.calls, c.ticket = s.updates) : Shown (s.publish i c) where
  ticket d hd := by
    rw [State.publish, send_updates]
    exact h.ticket d (List.mem_of_mem_eraseIdx hd)
  roster d hd := by
    rw [State.publish, send_updates, send_room]
    exact h.roster d (List.mem_of_mem_eraseIdx hd)
  last hne := by
    have hmem := List.mem_of_getElem? hc
    rw [State.publish, send_updates] at hne
    -- the newest roster was still to be published, so it is this one
    have hnew : c.ticket = s.updates := by
      obtain ⟨d, hd, ht⟩ := hok
      by_contra hold
      exact hne d (mem_eraseIdx_of_ne hc hd fun he => hold (he ▸ ht)) ht
    rw [State.publish, send_room, sent_send hinv hmem, lastPresent_concat]
    exact h.roster c hmem hnew

theorem Shown.tell {e : PackEvent} (h : Shown s) (he : e.roster = none) : Shown (s.send e) where
  ticket := by
    rw [send_calls, send_updates]
    exact h.ticket
  roster := by
    rw [send_calls, send_updates, send_room]
    exact h.roster
  last := by
    rw [send_calls, send_updates, send_room, State.send]
    split_ifs
    · rw [lastPresent_concat, he]
      exact h.last
    · exact h.last

theorem shown_of_reach (h : system.Reach InOrder s) : Shown s := by
  refine h.invariant_of (fun s hs => inv_of_reach hs) ?_ ?_
  · rintro s rfl
    exact ⟨fun c hc => absurd hc List.not_mem_nil, fun c hc => absurd hc List.not_mem_nil,
      fun _ => rfl⟩
  · intro s a s' hinv hs hok hst
    rcases step_cases hinv hst with ⟨login, -, rfl⟩ | ⟨login, room, -, -, -, rfl⟩ |
      ⟨i, c, rfl, hc, rfl⟩ | ⟨e, -, he, rfl⟩
    · exact hs.update _ _
    · exact (hs.drop login).update room none
    · exact hs.publish hinv hc hok
    · exact hs.tell he

/-- When nothing is in progress, and no roster was published after the newest one, the last roster is
    that of the room, and both name those who hold a presence. -/
theorem system_roster (h : system.Reach InOrder s) (hq : s.calls = []) :
    (lastPresent s.sent).getD [] = roomRoster s.room ∧
      ∀ login, login ∈ roomRoster s.room ↔ login ∈ s.presences := by
  refine ⟨(shown_of_reach h).last ?_, system_editors h hq⟩
  rw [hq]
  exact fun c hc => absurd hc List.not_mem_nil

instance : ∀ s, DecidablePred (InOrder s)
  | s, .publish _ => inferInstanceAs (Decidable (∃ c ∈ s.calls, c.ticket = s.updates))
  | _, .join _ => isTrue trivial
  | _, .drop _ => isTrue trivial
  | _, .tell _ => isTrue trivial

/-- Two join, each on their own, and one of them leaves. -/
def visits : List Act := [.join "ada", .publish 0, .join "bo", .publish 0, .drop "ada", .publish 0]

theorem system_roster_visits : ∃ s : State, s.presences = ["bo"] ∧
    (lastPresent s.sent).getD [] = roomRoster s.room ∧
      ∀ login, login ∈ roomRoster s.room ↔ login ∈ s.presences := by
  have hrun : ((system.guarded InOrder).run ⟨⟨false, []⟩, [], [], [], 0⟩ visits).any
      (fun s : State => s.presences = ["bo"] ∧ s.calls = []) = true := by
    decide +kernel
  obtain ⟨s, hs, hend⟩ := (Option.any_eq_true _ _).1 hrun
  obtain ⟨hpresences, hcalls⟩ := of_decide_eq_true hend
  have h₀ : (system.guarded InOrder).Reachable ⟨⟨false, []⟩, [], [], [], 0⟩ := .init rfl
  exact ⟨s, hpresences, system_roster (h₀.run hs).of_guarded hcalls⟩

/-- Two join, and the first one is the last to publish. -/
theorem roster_is_old : ∃ s : State, system.Reachable s ∧ s.calls = [] ∧
    s.presences = ["ada", "bo"] ∧ lastPresent s.sent = some ["ada"] := by
  have hrun : (system.run ⟨⟨false, []⟩, [], [], [], 0⟩
      [.join "ada", .join "bo", .publish 1, .publish 0]).any (fun s : State =>
        s.calls = [] ∧ s.presences = ["ada", "bo"] ∧ lastPresent s.sent = some ["ada"]) = true := by
    decide +kernel
  obtain ⟨s, hs, hend⟩ := (Option.any_eq_true _ _).1 hrun
  exact ⟨s, System.Reach.run (.init rfl) hs, of_decide_eq_true hend⟩

end Shown

end PackStream

end Smrt
