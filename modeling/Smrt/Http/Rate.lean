import Mathlib.Data.List.Perm.Lattice
import Smrt.Http.Notices
import Smrt.Lib.System

/-!
# How much somebody may say

Before somebody comments or opens a thread, the rows are counted that they wrote within the last ten
minutes, and the write is refused if these are as many as may be (`withinRate`). The count and the
write are two accesses of the store, and between them other requests of the same account may write,
time may pass, and the threads of a pack may go with it.

So the limit is not one: six requests may all count before any of them writes (`system_unrated`).
It holds of an account as long as no write of it goes on a count that is out of date, unless a new
count would let it through too, and no row of it goes that is still counted (`Undisturbed`):
`system_rated`.
-/

namespace Smrt

namespace Rate

open Notices

/-! ## States -/

/-- What is counted. -/
inductive Kind
  | comments
  | threads
  deriving DecidableEq

def Kind.limit : Kind → ℕ
  | .comments => commentsPerWindow
  | .threads => threadsPerWindow

/-- What somebody asks to write, as far as it gets to the count. -/
inductive Request
  | comment (id : ℕ) (body : String)
  | thread (packId : String) (kind : ThreadKind) (title body : String)
      (source : Option (String × String))

def Request.kind : Request → Kind
  | .comment _ _ => .comments
  | .thread .. => .threads

/-- Where a request is. -/
inductive Proc
  | idle
  /-- It was let through; with how many writes of the account there were then. -/
  | counted (uid : Int64) (r : Request) (seen : ℕ)
  | done (answer : Except ApiError Unit)

/-- A write that was accepted. -/
structure Entry where
  kind : Kind
  byUid : Int64
  at' : ℕ

/-- The discussions, the second that it is, and the requests; then the history, the last write
    first. -/
structure State where
  discussions : Discussions
  now : ℕ
  procs : ℕ → Proc
  accepted : List Entry

/-- What happens: a request is counted, or goes on and writes; the threads of a pack go; or it is
    later. -/
inductive Act
  | count (i : ℕ) (uid : Int64) (r : Request)
  | insert (i : ℕ)
  | forgetPackThreads (packId : String)
  | tick (now : ℕ)

/-! ## Steps -/

/-- How many rows somebody wrote since a moment. -/
def recentBy (d : Discussions) (kind : Kind) (uid since : Int64) : ℕ :=
  match kind with
  | .comments => d.recentComments uid since
  | .threads => d.recentThreads uid since

/-- What is written. -/
def write (d : Discussions) (now uid : Int64) : Request → Except ApiError Discussions
  | .comment id body => do
    let body ← trimmed body "an empty comment says nothing"
    refuseIf (4000 < body.length) (.badRequest "that comment is too long")
    match d.comment id uid body now with
    | none => .error (.internal "FOREIGN KEY constraint failed")
    | some (_, d) => .ok d
  | .thread packId kind title body source => do
    let title ← trimmed title (match kind with
      | .issue => "an issue needs a title"
      | .proposal => "a proposal needs a title")
    .ok (d.openThread packId kind title (trim body) uid source now).2

section Step

variable (s : State)

/-- The second that it is, as the store has it. -/
def State.unixNow : Int64 := Int64.ofNat s.now

/-- How many rows of an account are counted. -/
def State.recent (kind : Kind) (uid : Int64) : ℕ :=
  recentBy s.discussions kind uid (s.unixNow - rateWindowSecs)

/-- The seconds of the writes of an account that were accepted. -/
def State.acceptedBy (kind : Kind) (uid : Int64) : List ℤ :=
  (s.accepted.filter fun e => e.kind = kind ∧ e.byUid = uid).map fun e => e.at'

def State.to (i : ℕ) (p : Proc) : State := { s with procs := setAt s.procs i p }

def step : Act → Option State
  | .count i uid r => match s.procs i with
    | .idle => match withinRate (s.recent r.kind uid) r.kind.limit with
      | .error e => some (s.to i (.done (.error e)))
      | .ok () => some (s.to i (.counted uid r (s.acceptedBy r.kind uid).length))
    | _ => none
  | .insert i => match s.procs i with
    | .counted uid r _ => match write s.discussions s.unixNow uid r with
      | .error e => some (s.to i (.done (.error e)))
      | .ok d => some
          { s with
            discussions := d
            procs := setAt s.procs i (.done (.ok ()))
            accepted := ⟨r.kind, uid, s.now⟩ :: s.accepted }
    | _ => none
  | .forgetPackThreads packId =>
    some { s with discussions := s.discussions.forgetPackThreads packId }
  | .tick now => if s.now ≤ now ∧ now < 2 ^ 63 then some { s with now } else none

/-- From nothing having been said. -/
def system : System State Act where
  init s := s.discussions = .empty ∧ (∀ i, s.procs i = .idle) ∧ s.accepted = [] ∧ s.now < 2 ^ 63
  step := step

/-- A write of an account does not go on a count that is out of date, unless a new count would let
    it through too; and no row of it goes that is counted. -/
def Undisturbed (kind : Kind) (uid : Int64) (s : State) : Act → Prop
  | .insert i => match s.procs i with
    | .counted by' r seen => by' = uid → r.kind = kind →
        (s.acceptedBy kind uid).length = seen ∨ s.recent kind uid < kind.limit
    | _ => True
  | .forgetPackThreads packId =>
    recentBy (s.discussions.forgetPackThreads packId) kind uid (s.unixNow - rateWindowSecs) =
      s.recent kind uid
  | _ => True

instance (kind : Kind) (uid : Int64) (s : State) : DecidablePred (Undisturbed kind uid s)
  | .count .. => isTrue trivial
  | .insert i => match hp : s.procs i with
    | .counted by' r seen =>
      decidable_of_iff (by' = uid → r.kind = kind →
        (s.acceptedBy kind uid).length = seen ∨ s.recent kind uid < kind.limit)
        (by rw [Undisturbed, hp])
    | .idle => isTrue (by rw [Undisturbed, hp]; trivial)
    | .done _ => isTrue (by rw [Undisturbed, hp]; trivial)
  | .forgetPackThreads _ => inferInstanceAs (Decidable (_ = _))
  | .tick _ => isTrue trivial

end Step

/-! ## Windows -/

section Window

variable {now now' first : ℤ} {times : List ℤ}

/-- The seconds that are in the window that begins with one. -/
def inWindow (first : ℤ) (times : List ℤ) : List ℤ :=
  times.filter fun t => first ≤ t ∧ t < first + 600

/-- The seconds that are counted in one. -/
def counted (now : ℤ) (times : List ℤ) : List ℤ := times.filter fun t => now - 600 < t

/-- What is counted later is counted before. -/
theorem counted_counted (h : now ≤ now') :
    counted now' (counted now times) = counted now' times := by
  rw [counted, counted, counted, List.filter_filter]
  refine List.filter_congr fun t _ => ?_
  by_cases ht : now' - 600 < t
  · have hold : now - 600 < t := by omega
    simp [ht, hold]
  · simp [ht]

theorem length_counted_le (h : now ≤ now') :
    (counted now' times).length ≤ (counted now times).length := by
  rw [← counted_counted h]
  exact List.length_filter_le _ _

/-- One more second, now, in windows none of which has more than the limit, if fewer than these are
    counted. -/
theorem length_inWindow_cons_le {limit : ℕ} (hcount : (counted now times).length < limit)
    (hold : (inWindow first times).length ≤ limit) :
    (inWindow first (now :: times)).length ≤ limit := by
  rw [inWindow, List.filter_cons]
  split_ifs with hin
  · -- The window ends after now, so what is in it is counted.
    obtain ⟨hfirst, hlast⟩ := of_decide_eq_true hin
    have hsub : (inWindow first times).length ≤ (counted now times).length := by
      refine (List.monotone_filter_right times fun t ht => ?_).length_le
      rw [decide_eq_true_eq] at ht ⊢
      omega
    rw [List.length_cons]
    exact Nat.succ_le_of_lt (hsub.trans_lt hcount)
  · exact hold

end Window

/-! ## What is counted -/

section Times

variable {d d' : Discussions} {kind : Kind} {uid now : Int64} {s : State}

/-- The seconds of the rows of an account. -/
def times (d : Discussions) (kind : Kind) (uid : Int64) : List ℤ :=
  match kind with
  | .comments => (d.comments.rows.filter fun x => x.2.byUid = uid).map fun x => x.2.createdAt.toInt
  | .threads => (d.threads.rows.filter fun x => x.2.byUid = uid).map fun x => x.2.createdAt.toInt

theorem recentBy_eq (since : Int64) : recentBy d kind uid since =
    ((times d kind uid).filter fun t => since.toInt < t).length := by
  rcases kind with _ | _
  · rw [recentBy, Discussions.recentComments, times, List.filter_map, List.length_map,
      List.filter_filter]
    congr 2
    funext x
    simp [Int64.lt_iff_toInt_lt, Bool.and_comm]
  · rw [recentBy, Discussions.recentThreads, times, List.filter_map, List.length_map,
      List.filter_filter]
    congr 2
    funext x
    simp [Int64.lt_iff_toInt_lt, Bool.and_comm]

/-- Rows that go leave the others in their order. -/
theorem times_forgetPackThreads (packId : String) :
    (times (d.forgetPackThreads packId) kind uid).Sublist (times d kind uid) := by
  rcases kind with _ | _
  · exact (List.filter_sublist.filter _).map _
  · exact (List.filter_sublist.filter _).map _

/-- A write is one row more, of its account and of its kind. -/
theorem times_write {r : Request} {by' : Int64} (h : write d now by' r = .ok d') :
    times d' kind uid = if by' = uid ∧ r.kind = kind then times d kind uid ++ [now.toInt]
      else times d kind uid := by
  have hconcat : ∀ {ρ : Type} (t : Table ρ) (row : ρ) (by'' : ρ → Int64) (at' : ρ → ℤ),
      (((t.insert row).rows.filter fun x => by'' x.2 = uid).map fun x => at' x.2) =
        if by'' row = uid then ((t.rows.filter fun x => by'' x.2 = uid).map fun x => at' x.2) ++
          [at' row] else (t.rows.filter fun x => by'' x.2 = uid).map fun x => at' x.2 := by
    intro ρ t row by'' at'
    rw [Table.insert, List.filter_append, List.map_append, List.filter_singleton]
    split_ifs with huid <;> simp [huid]
  rcases r with ⟨id, body⟩ | ⟨packId, threadKind, title, body, source⟩
  · obtain ⟨text, -, h⟩ := bind_eq_ok.1 h
    obtain ⟨-, -, h⟩ := bind_eq_ok.1 h
    rcases hc : d.comment id by' text now with _ | ⟨cid, d₁⟩
    · rw [hc] at h
      cases h
    · rw [hc] at h
      obtain rfl := Except.ok.inj h
      rw [Discussions.comment] at hc
      split_ifs at hc
      obtain ⟨-, rfl⟩ := Prod.mk.inj (Option.some.inj hc)
      rcases kind with _ | _
      · simpa [times, Request.kind] using
          hconcat d.comments _ Comment.byUid fun c => c.createdAt.toInt
      · simp [times, Request.kind]
  · obtain ⟨text, -, h⟩ := bind_eq_ok.1 h
    obtain rfl := Except.ok.inj h
    rcases kind with _ | _
    · simp [times, Request.kind, Discussions.openThread]
    · simpa [times, Request.kind, Discussions.openThread] using
        hconcat d.threads _ (fun t : ThreadRow => t.byUid) fun t => t.createdAt.toInt

theorem toInt_unixNow (h : s.now < 2 ^ 63) : s.unixNow.toInt = s.now := Int64.toInt_ofNat_of_lt h

/-- The window begins ten minutes ago. -/
theorem toInt_since (h : s.now < 2 ^ 63) : (s.unixNow - rateWindowSecs).toInt = s.now - 600 := by
  have hnow := toInt_unixNow h
  have hsecs : rateWindowSecs.toInt = 600 := by decide
  rw [Int64.toInt_sub, hnow, hsecs]
  exact Int.bmod_eq_of_le (by omega) (by omega)

theorem recent_eq (h : s.now < 2 ^ 63) :
    s.recent kind uid = (counted s.now (times s.discussions kind uid)).length := by
  rw [State.recent, recentBy_eq, toInt_since h, counted]

end Times

/-! ## The limit -/

section Limit

variable {kind : Kind} {uid : Int64} {s s' : State}

/-- A request that was let through has seen the writes that there were, and if there are no others
    then fewer are counted than may be. -/
def Admitted (kind : Kind) (uid : Int64) (now : ℤ) (times : List ℤ) (p : Proc) : Prop :=
  ∀ r seen, p = .counted uid r seen → r.kind = kind →
    seen ≤ times.length ∧ (seen = times.length → (counted now times).length < kind.limit)

/-- The rows of an account that are counted are its writes that are. -/
structure Inv (kind : Kind) (uid : Int64) (s : State) : Prop where
  time : s.now < 2 ^ 63
  rows : (counted s.now (times s.discussions kind uid)).Perm
    (counted s.now (s.acceptedBy kind uid))
  admitted : ∀ i, Admitted kind uid s.now (s.acceptedBy kind uid) (s.procs i)
  windows : ∀ first, (inWindow first (s.acceptedBy kind uid)).length ≤ kind.limit

theorem Inv.recent (h : Inv kind uid s) :
    s.recent kind uid = (counted s.now (s.acceptedBy kind uid)).length := by
  rw [recent_eq h.time, h.rows.length_eq]

theorem admitted_done {now : ℤ} {times : List ℤ} {answer : Except ApiError Unit} :
    Admitted kind uid now times (.done answer) := fun _ _ h => absurd h nofun

/-- A request moves. -/
theorem Inv.to {i : ℕ} {p : Proc} (h : Inv kind uid s)
    (hp : Admitted kind uid s.now (s.acceptedBy kind uid) p) : Inv kind uid (s.to i p) where
  time := h.time
  rows := h.rows
  admitted := forall_setAt (fun j _ => h.admitted j) hp
  windows := h.windows

/-- A write of the account is one second more, and of any other account none. -/
theorem acceptedBy_cons (r : Request) (by' : Int64) {d : Discussions} {procs : ℕ → Proc} :
    ({ s with
      discussions := d
      procs := procs
      accepted := ⟨r.kind, by', s.now⟩ :: s.accepted } : State).acceptedBy kind uid =
      if by' = uid ∧ r.kind = kind then (s.now : ℤ) :: s.acceptedBy kind uid
      else s.acceptedBy kind uid := by
  rw [State.acceptedBy, State.acceptedBy, List.filter_cons]
  by_cases hmine : by' = uid ∧ r.kind = kind
  · rw [if_pos (decide_eq_true hmine.symm), if_pos hmine]
    rfl
  · rw [if_neg (by simpa [and_comm] using hmine), if_neg hmine]

/-- A request writes, and if it is of the account then less is counted than may be. -/
theorem Inv.insert {i : ℕ} {by' : Int64} {r : Request} {d : Discussions} (h : Inv kind uid s)
    (hwrite : write s.discussions s.unixNow by' r = .ok d)
    (hcount : by' = uid → r.kind = kind →
      (counted s.now (s.acceptedBy kind uid)).length < kind.limit) :
    Inv kind uid { s with
      discussions := d
      procs := setAt s.procs i (.done (.ok ()))
      accepted := ⟨r.kind, by', s.now⟩ :: s.accepted } := by
  have hrows : times d kind uid = _ := times_write hwrite
  rw [toInt_unixNow h.time] at hrows
  by_cases hmine : by' = uid ∧ r.kind = kind
  · rw [if_pos hmine] at hrows
    refine ⟨h.time, ?_, ?_, fun first => ?_⟩
    · rw [acceptedBy_cons, if_pos hmine]
      dsimp only
      rw [hrows]
      have happend : (times s.discussions kind uid ++ [(s.now : ℤ)]).Perm
          ((s.now : ℤ) :: times s.discussions kind uid) := List.perm_append_singleton _ _
      refine (happend.filter _).trans ?_
      rw [counted, List.filter_cons, List.filter_cons]
      split_ifs
      · exact h.rows.cons _
      · exact h.rows
    · -- Whoever was let through before has not seen this write.
      rw [acceptedBy_cons, if_pos hmine]
      refine forall_setAt (fun j _ r' seen hj hr' => ?_) admitted_done
      have hseen := (h.admitted j r' seen hj hr').1
      rw [List.length_cons]
      exact ⟨by omega, fun he => by omega⟩
    · rw [acceptedBy_cons, if_pos hmine]
      exact length_inWindow_cons_le (hcount hmine.1 hmine.2) (h.windows first)
  · rw [if_neg hmine] at hrows
    refine ⟨h.time, ?_, ?_, fun first => ?_⟩
    · rw [acceptedBy_cons, if_neg hmine]
      dsimp only
      rw [hrows]
      exact h.rows
    · rw [acceptedBy_cons, if_neg hmine]
      exact forall_setAt (fun j _ => h.admitted j) admitted_done
    · rw [acceptedBy_cons, if_neg hmine]
      exact h.windows first

/-- A step that disturbs nothing of the account. -/
theorem Inv.step {a : Act} (h : Inv kind uid s) (ha : Undisturbed kind uid s a)
    (hs : step s a = some s') : Inv kind uid s' := by
  rcases a with ⟨i, by', r⟩ | i | packId | now
  · rw [Rate.step] at hs
    rcases hp : s.procs i with _ | _ | _ <;> rw [hp] at hs <;> dsimp only at hs
    · rcases hrate : withinRate (s.recent r.kind by') r.kind.limit with e | _ <;>
        rw [hrate] at hs <;> obtain rfl := Option.some.inj hs
      · exact h.to admitted_done
      · refine h.to fun r' seen hr' hkind => ?_
        obtain ⟨rfl, rfl, rfl⟩ := Proc.counted.inj hr'
        subst hkind
        refine ⟨le_rfl, fun _ => ?_⟩
        rw [← h.recent]
        exact Nat.lt_of_not_le (refuseIf_eq_ok.1 hrate)
    · cases hs
    · cases hs
  · rw [Rate.step] at hs
    rw [Undisturbed] at ha
    rcases hp : s.procs i with _ | ⟨by', r, seen⟩ | _ <;> rw [hp] at hs ha <;> dsimp only at hs ha
    · cases hs
    · rcases hwrite : write s.discussions s.unixNow by' r with e | d <;>
        rw [hwrite] at hs <;> obtain rfl := Option.some.inj hs
      · exact h.to admitted_done
      · refine h.insert hwrite fun hby hkind => ?_
        subst hby
        rcases ha rfl hkind with hseen | hrecent
        · exact (h.admitted i r seen hp hkind).2 hseen.symm
        · rwa [← h.recent]
    · cases hs
  · obtain rfl := Option.some.inj hs
    refine ⟨h.time, ?_, h.admitted, h.windows⟩
    -- What is left of the rows that are counted is as many, so that it is all of them.
    have hsub : (counted s.now (times (s.discussions.forgetPackThreads packId) kind uid)).Sublist
        (counted s.now (times s.discussions kind uid)) := (times_forgetPackThreads packId).filter _
    rw [Undisturbed, recentBy_eq, toInt_since h.time, recent_eq h.time] at ha
    dsimp only
    rw [hsub.eq_of_length ha]
    exact h.rows
  · rw [Rate.step] at hs
    split_ifs at hs with hnow
    obtain rfl := Option.some.inj hs
    have hle : (s.now : ℤ) ≤ now := Int.ofNat_le.2 hnow.1
    refine ⟨hnow.2, ?_, fun i r seen hp hkind => ?_, h.windows⟩
    · have hperm : (counted now (counted s.now (times s.discussions kind uid))).Perm
          (counted now (counted s.now (s.acceptedBy kind uid))) := h.rows.filter _
      rwa [counted_counted hle, counted_counted hle] at hperm
    · obtain ⟨hseen, hcount⟩ := h.admitted i r seen hp hkind
      exact ⟨hseen, fun he => (length_counted_le hle).trans_lt (hcount he)⟩

theorem inv_init (s : State) (h : system.init s) : Inv kind uid s := by
  obtain ⟨hdiscussions, hprocs, haccepted, htime⟩ := h
  have hnone : s.acceptedBy kind uid = [] := by rw [State.acceptedBy, haccepted]; rfl
  refine ⟨htime, ?_, fun i r seen hp => ?_, fun first => ?_⟩
  · rw [hnone, hdiscussions]
    rcases kind with _ | _ <;> exact .refl _
  · rw [hprocs] at hp
    cases hp
  · rw [hnone]
    exact Nat.zero_le _

/-- As long as no write of an account goes on a count that is out of date, unless a new count would
    let it through too, and no row of it goes that is counted, no ten minutes have more writes of
    it than the limit. -/
theorem system_rated (h : system.Reach (Undisturbed kind uid) s) (first : ℤ) :
    (inWindow first (s.acceptedBy kind uid)).length ≤ kind.limit :=
  (h.invariant inv_init fun _ _ _ h => h.step).windows first

/-! ## Runs -/

/-- Nothing was said. -/
def start : State := ⟨.empty, 0, fun _ => .idle, []⟩

/-- An issue. -/
def issue : Request := .thread "Anvil" .issue "It does not start" "" none

/-- Issues of one account, each of which is written before the next is counted. -/
def inTurn : List Act :=
  ((List.range 5).flatMap fun i => [.count i 42 issue, .insert i]) ++ [.count 5 42 issue]

/-- Six issues of one account that are all counted before any is written. -/
def atOnce : List Act :=
  ((List.range 6).map fun i => .count i 42 issue) ++ (List.range 6).map .insert

/-- The sixth is refused. -/
theorem system_rated_inTurn : ∃ s : State, (s.procs 5 matches .done (.error _)) ∧
    (inWindow 0 (s.acceptedBy .threads 42)).length = 5 ∧
    (inWindow 0 (s.acceptedBy .threads 42)).length ≤ Kind.threads.limit := by
  have hrun : ((system.guarded (Undisturbed .threads 42)).run start inTurn).any
      (fun s : State => (s.procs 5 matches .done (.error _)) ∧
        (inWindow 0 (s.acceptedBy .threads 42)).length = 5) = true := by
    decide +kernel
  obtain ⟨s, hs, hfive⟩ := (Option.any_eq_true _ _).1 hrun
  obtain ⟨hrefused, hfive⟩ := of_decide_eq_true hfive
  have hstart : (system.guarded (Undisturbed .threads 42)).Reachable start :=
    .init ⟨rfl, fun _ => rfl, rfl, by decide⟩
  exact ⟨s, hrefused, hfive, system_rated (hstart.run hs).of_guarded 0⟩

/-- Six are written. -/
theorem system_unrated : ∃ s : State, system.Reachable s ∧
    Kind.threads.limit < (inWindow 0 (s.acceptedBy .threads 42)).length := by
  have hrun : (system.run start atOnce).any (fun s : State =>
      Kind.threads.limit < (inWindow 0 (s.acceptedBy .threads 42)).length) = true := by
    decide +kernel
  obtain ⟨s, hs, hsix⟩ := (Option.any_eq_true _ _).1 hrun
  have hstart : system.Reachable start := .init ⟨rfl, fun _ => rfl, rfl, by decide⟩
  exact ⟨s, hstart.run hs, of_decide_eq_true hsix⟩

end Limit

end Rate

end Smrt
