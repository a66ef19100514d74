import Smrt.Authoring.Commits
import Smrt.Http.Live
import Smrt.Lib.Split

/-!
# Who a commit names

Accounts post updates of the document of a pack and put whole configs; whoever stores a config is noted
(`note_pending_author`), and a commit names its signer and those who were noted since the commit before
it (`create_commit`). The pack is that of `Smrt.Http.Live`, in which every party has an account; a
commit takes the lock of the config, and is one step here, as what others do meanwhile does not meet
it.

The rest of a state is its history: every update and every config that is put is a *change*, with a
number and an account; `contents` are the changes that the stored config has, as it was read from a
document with them, or put; `since` are those that were stored since the last commit, and `mark`
tells those that were posted since.

A document holds the changes of many accounts, and is written by one party, that of the last one of
them. So a commit names whom it should (`Credited`) as long as whoever writes a document takes in, of
the changes since the last commit, only those of its own account and of accounts that are noted
already, and one of its own at least unless it is noted itself (`Attributes`): `system_credited`.
Else somebody's work is committed in the name of others (`system_uncredited`).
-/

namespace Smrt.Credits

open Json (Members)

/-- The login of an account. -/
abbrev Login := { login : String // login ≠ "" }

/-- A change that an account makes to a pack. -/
structure Change where
  by' : Login
  no : ℕ
  deriving DecidableEq

/-- An update of the document, and what change it is. -/
structure Posted (V : Type) where
  change : Change
  update : V

/-- A commit, and of its history: the changes that its snapshot has and those that were stored since
    the commit before it, and the number of changes that had been posted when that one was taken. -/
structure Checkpoint where
  commit : Commit
  contents : List Change
  since : List Change
  mark : ℕ

/-- A pack, who was noted, and the commits; then the history. -/
structure State (V : Type) where
  live : Live.State (Posted V)
  pending : List Login
  log : List Checkpoint
  posted : ℕ
  mark : ℕ
  contents : List Change
  since : List Change
  /-- The changes in the config that a party has in hand. -/
  carried : ℕ → List Change
  /-- The changes in the config that a document was seeded with. -/
  seeds : ℕ → List Change
  /-- The number of the change that the config is that a party puts. -/
  own : ℕ → ℕ

/-- What happens. A config that is put has the changes that it has, which are not looked into. -/
inductive Act (V : Type)
  | join (i : ℕ)
  | post (i : ℕ) (update : V)
  | put (i : ℕ) (req : PutReq) (carries : List Change)
  | next (i : ℕ) (answers : ℕ → Answers)
  | fail (i : ℕ)
  | commit (i : ℕ) (message now : String)

/-! ## Steps -/

/-- Who stored a config is noted, once. -/
def notePendingAuthor (pending : List Login) (who : Login) : List Login :=
  if who ∈ pending then pending else pending ++ [who]

/-- The signer, and then everyone who was noted. -/
def contributors (signer : Login) (pending : List Login) : List Login :=
  pending.foldl (fun named who => if who ∈ named then named else named ++ [who]) [signer]

section Step

variable {V : Type} (X : Outside) (N : Naming) (merged : Members → List V → Members)
  (packId : String) (who : ℕ → Login) (s : State V) (i : ℕ)

/-- A party stores the config that it has in hand, and is noted. A config that is put is a change
    itself. -/
def State.save (door : Live.Door) : State V :=
  { s with
    pending := notePendingAuthor s.pending (who i)
    contents := s.carried i
    since := s.since ++ (s.carried i).filter (fun c => c ∉ s.contents) ++
      match door with
      | .request => [⟨who i, s.own i⟩]
      | .document => [] }

/-- What a step of a party does to the history. -/
def State.record : State V :=
  match s.live.procs i with
  | .missing _ => { s with carried := setAt s.carried i s.contents }
  | .seeding _ _ =>
    if s.live.docs.live = none then { s with seeds := setAt s.seeds s.live.docs.next (s.carried i) }
    else s
  | .loaded d _ =>
    { s with
      carried := setAt s.carried i (s.seeds d ++ (s.live.docs.heap d).applied.map Posted.change) }
  | .saving door _ => s.save who i door
  | _ => s

/-- A commit of the stored config. -/
def State.commitTo (cfg : PackConfig) (message now : String) : State V :=
  let commit := makeCommit X N cfg (s.log.getLast?.map fun k => k.commit.id) (who i).val message
    ((contributors (who i) s.pending).map Subtype.val) now
  { s with
    pending := []
    log := s.log ++ [{ commit, contents := s.contents, since := s.since, mark := s.mark }]
    mark := s.posted
    since := [] }

def step : Act V → Option (State V)
  | .join i => (Live.begin s.live i .join).map fun live => { s with live }
  | .post i update =>
    (Live.begin s.live i (.post ⟨⟨who i, s.posted⟩, update⟩)).map fun live =>
      { s with live, posted := s.posted + 1 }
  | .put i req carries =>
    if req.identity.login = (who i).val ∧ ∀ c ∈ carries, c.no < s.posted then
      (Live.begin s.live i (.write (.put req))).map fun live =>
        { s with
          live
          posted := s.posted + 1
          own := setAt s.own i s.posted
          carried := setAt s.carried i (carries ++ [⟨who i, s.posted⟩]) }
    else none
  | .next i answers =>
    (Live.next X (fun o us => merged o (us.map Posted.update)) packId s.live i answers).map fun live =>
      { s.record who i with live }
  | .fail i => (Live.fail s.live i).map fun live => { s with live }
  | .commit i message now =>
    if trim message = "" ∨ s.live.lock ≠ none then none
    else s.live.stored.map fun cfg => s.commitTo X N who i cfg (trim message) now

end Step

/-- Nobody is there yet, and the history is empty. -/
structure Init {V : Type} (s : State V) : Prop where
  live : Live.Init s.live
  docs (d : ℕ) : (s.live.docs.heap d).applied = []
  pending : s.pending = []
  log : s.log = []
  posted : s.posted = 0
  mark : s.mark = 0
  contents : s.contents = []
  since : s.since = []
  carried (i : ℕ) : s.carried i = []
  seeds (d : ℕ) : s.seeds d = []

/-- A pack, with who works on it. -/
def system {V : Type} (X : Outside) (N : Naming) (merged : Members → List V → Members)
    (packId : String) (who : ℕ → Login) : System (State V) (Act V) where
  init := Init
  step := step X N merged packId who

/-! ## What is to hold -/

section Credited

variable {V : Type} (who : ℕ → Login) (s : State V)

/-- Every commit names whose changes it has that were posted since the commit before it, and names
    nobody else but the signer who did not have a change stored since. -/
def Credited : Prop :=
  ∀ k ∈ s.log, (∀ c ∈ k.contents, k.mark ≤ c.no → c.by'.val ∈ k.commit.contributors) ∧
    ∀ w ∈ k.commit.contributors, w = k.commit.author ∨ ∃ c ∈ k.since, c.by'.val = w

/-- A party that stores a config takes in, of the changes since the last commit, those of its own
    account and of accounts that are noted; and if the config is that of a document, one of its own
    that was not stored yet, unless it is noted. -/
def Takes (i : ℕ) : Live.Proc (Posted V) → Prop
  | .saving .request _ => ∀ c ∈ s.carried i, s.mark ≤ c.no → c.by' = who i ∨ c.by' ∈ s.pending
  | .saving .document _ =>
    (∀ c ∈ s.carried i, s.mark ≤ c.no → c.by' = who i ∨ c.by' ∈ s.pending) ∧
      (who i ∈ s.pending ∨ ∃ c ∈ s.carried i, c ∉ s.contents ∧ c.by' = who i)
  | _ => True

instance (i : ℕ) : DecidablePred (Takes who s i) := fun p => by
  cases p with
  | saving door _ =>
    cases door with
    | request => exact inferInstanceAs (Decidable (∀ c ∈ s.carried i, _))
    | document => exact inferInstanceAs (Decidable (_ ∧ _))
  | _ => exact isTrue trivial

/-- Whoever stores takes in what it may. -/
def Attributes : Act V → Prop
  | .next i _ => Takes who s i (s.live.procs i)
  | _ => True

instance : DecidablePred (Attributes who s) := fun a => by
  cases a with
  | next i _ => exact inferInstanceAs (Decidable (Takes who s i _))
  | _ => exact isTrue trivial

end Credited

/-! ## Where updates are -/

section Has

variable {U : Type} {X : Outside} {merged : Members → List U → Members} {packId : String}
  {l l' : Live.State U} {i : ℕ} {u : U}

/-- The update that a party is about to merge. -/
def update? : Live.Proc U → Option U
  | .posting u | .holding u _ => some u
  | .missing u | .seeding u _ => u
  | _ => none

/-- An update is in a document, or about to be. -/
def Has (l : Live.State U) (u : U) : Prop :=
  (∃ d, u ∈ (l.docs.heap d).applied) ∨ ∃ i, update? (l.procs i) = some u

/-- A party moves, and what is new was there. -/
theorem Has.frame {p : Live.Proc U} (h : Has l' u) (hprocs : l'.procs = setAt l.procs i p)
    (hp : update? p = some u → Has l u) (hheap : ∀ d, u ∈ (l'.docs.heap d).applied → Has l u) :
    Has l u := by
  rcases h with ⟨d, hd⟩ | ⟨j, hj⟩
  · exact hheap d hd
  · rw [hprocs] at hj
    by_cases hij : j = i
    · subst hij
      rw [setAt_self] at hj
      exact hp hj
    · rw [setAt_of_ne _ _ hij] at hj
      exact .inr ⟨j, hj⟩

/-- A party moves, and the documents are as they were. -/
theorem Has.to {p : Live.Proc U} (h : Has l' u) (hprocs : l'.procs = setAt l.procs i p)
    (hdocs : l'.docs.heap = l.docs.heap) (hp : update? p = some u → Has l u) : Has l u :=
  h.frame hprocs hp fun d hd => .inl ⟨d, hdocs ▸ hd⟩

/-- A party moves on without an update. -/
theorem Has.drop {p : Live.Proc U} (h : Has l' u) (hprocs : l'.procs = setAt l.procs i p)
    (hdocs : l'.docs.heap = l.docs.heap) (hp : update? p = none) : Has l u :=
  h.to hprocs hdocs fun hu => absurd (hp.symm.trans hu) (Option.some_ne_none u).symm

theorem Has.acquire {p : Live.Proc U} (h : Has l' u) (ha : l.acquire i p = some l')
    (hp : update? p = none) : Has l u := by
  rw [Live.State.acquire] at ha
  split_ifs at ha
  obtain rfl := Option.some.inj ha
  exact h.drop rfl rfl hp

/-- What a party begins brings its own update. -/
theorem Has.begin {r : Live.Request U} (h : Has l' u) (hs : Live.begin l i r = some l') :
    Has l u ∨ r = .post u := by
  rw [Live.begin.eq_def] at hs
  split at hs
  · obtain rfl := Option.some.inj hs
    exact .inl (h.drop rfl rfl rfl)
  · next v _ =>
    obtain rfl := Option.some.inj hs
    by_cases huv : v = u
    · exact .inr (congrArg Live.Request.post huv)
    · exact .inl (h.to rfl rfl fun hu => absurd (Option.some.inj hu) huv)
  · obtain rfl := Option.some.inj hs
    exact .inl (h.drop rfl rfl rfl)
  · obtain rfl := Option.some.inj hs
    exact .inl (h.drop rfl rfl rfl)
  · exact absurd hs (Option.some_ne_none _).symm

theorem Has.fail (h : Has l' u) (hs : Live.fail l i = some l') : Has l u := by
  rw [Live.fail.eq_def] at hs
  split at hs
  all_goals first
    | exact absurd hs (Option.some_ne_none _).symm
    | obtain rfl := Option.some.inj hs
      exact h.drop rfl rfl rfl

/-- A party that goes on merges its own update, if any. -/
theorem Has.next {answers : ℕ → Answers} (h : Has l' u)
    (hs : Live.next X merged packId l i answers = some l') : Has l u := by
  have hkeep : ∀ {p : Live.Proc U}, l.procs i = p → update? p = some u → Has l u :=
    fun hp hu => .inr ⟨i, hp ▸ hu⟩
  rcases hp : l.procs i with
    _ | v | v | ⟨v, cfg⟩ | ⟨v, d⟩ | _ | ticket | _ | _ | d | ⟨d, existing⟩ | w | w | ⟨cfg, fill⟩ | cfg |
    cfg | ⟨door, cfg, fill⟩ | ⟨door, cfg⟩ | _ <;> rw [Live.next, hp] at hs <;> dsimp only at hs
  · exact absurd hs (Option.some_ne_none _).symm
  · split at hs <;> obtain rfl := Option.some.inj hs <;> exact h.to rfl rfl fun hu => hkeep hp hu
  · obtain ⟨cfg, -, rfl⟩ := Option.map_eq_some_iff.1 hs
    exact h.to rfl rfl fun hu => hkeep hp hu
  · -- A document that is seeded has no updates.
    obtain rfl := Option.some.inj hs
    refine h.frame rfl (fun hu => hkeep hp ?_) fun d hd => ?_
    · rcases v with _ | v
      · exact absurd hu (Option.some_ne_none u).symm
      · exact hu
    · have hd : u ∈ ((l.docs.getOrSeed cfg).1.heap d).applied := hd
      rcases hlive : l.docs.live with _ | d'
      · rw [PackDocs.getOrSeed_of_none hlive] at hd
        dsimp only at hd
        by_cases hnew : d = l.docs.next
        · rw [hnew, setAt_self] at hd
          exact absurd hd List.not_mem_nil
        · rw [setAt_of_ne _ _ hnew] at hd
          exact .inl ⟨d, hd⟩
      · rw [PackDocs.getOrSeed_of_live hlive] at hd
        exact .inl ⟨d, hd⟩
  · obtain rfl := Option.some.inj hs
    refine h.frame rfl (fun hu => absurd hu (Option.some_ne_none u).symm) fun d' hd => ?_
    by_cases hdd : d' = d
    · subst hdd
      rcases List.mem_append.1 ((PackDocs.heap_apply_self d' v ▸ hd :)) with hd | hd
      · exact .inl ⟨d', hd⟩
      · exact hkeep hp (congrArg some (List.mem_singleton.1 hd).symm)
    · exact .inl ⟨d', (PackDocs.heap_apply_of_ne hdd v ▸ hd :)⟩
  · obtain rfl := Option.some.inj hs
    exact h.drop rfl rfl rfl
  · obtain rfl := Option.some.inj hs
    refine h.drop rfl rfl ?_
    split_ifs <;> rfl
  · exact h.acquire hs rfl
  · split at hs <;> obtain rfl := Option.some.inj hs <;> exact h.drop rfl rfl rfl
  · obtain ⟨existing, -, rfl⟩ := Option.map_eq_some_iff.1 hs
    exact h.drop rfl rfl rfl
  · split at hs <;> obtain rfl := Option.some.inj hs <;> exact h.drop rfl rfl rfl
  · exact h.acquire hs rfl
  · split at hs <;> obtain rfl := Option.some.inj hs <;> exact h.drop rfl rfl rfl
  · obtain rfl := Option.some.inj hs
    exact h.drop rfl rfl rfl
  · exact h.acquire hs rfl
  · split at hs <;> obtain rfl := Option.some.inj hs <;> exact h.drop rfl rfl rfl
  · obtain rfl := Option.some.inj hs
    exact h.drop rfl rfl rfl
  · obtain rfl := Option.some.inj hs
    rcases door with _ | _ <;> exact h.drop rfl rfl rfl
  · obtain rfl := Option.some.inj hs
    exact h.drop rfl rfl rfl

end Has

/-! ## Numbers -/

section Numbered

variable {V : Type} {X : Outside} {N : Naming} {merged : Members → List V → Members}
  {packId : String} {who : ℕ → Login} {s s' : State V} {i : ℕ} {c : Change}

/-- A change is somewhere in a pack. -/
inductive Around (s : State V) (c : Change) : Prop
  | contents (h : c ∈ s.contents)
  | carried (i : ℕ) (h : c ∈ s.carried i)
  | seeds (d : ℕ) (h : c ∈ s.seeds d)
  | update (u : Posted V) (h : Has s.live u) (hc : u.change = c)

/-- The changes that are there are numbered from zero on. -/
def Numbered (s : State V) : Prop := ∀ c, Around s c → c.no < s.posted

/-- What a party has in hand is a list of changes that were there. -/
theorem mem_setAt {f : ℕ → List Change} {cs : List Change} {j : ℕ} (h : c ∈ setAt f i cs j)
    {P : Prop} (hi : c ∈ cs → P) (hj : c ∈ f j → P) : P := by
  by_cases hij : j = i
  · subst hij
    rw [setAt_self] at h
    exact hi h
  · rw [setAt_of_ne _ _ hij] at h
    exact hj h

/-- A step of a party moves changes, and makes none. -/
theorem Around.record {live : Live.State (Posted V)} (hlive : ∀ u, Has live u → Has s.live u)
    (h : Around { s.record who i with live } c) : Around s c := by
  rcases h with h | ⟨j, h⟩ | ⟨d, h⟩ | ⟨u, h, hc⟩
  · rw [State.record] at h
    split at h
    · exact .contents h
    · split_ifs at h <;> exact .contents h
    · exact .contents h
    · exact .carried i h
    · exact .contents h
  · rw [State.record] at h
    split at h
    · exact mem_setAt h .contents (.carried j)
    · split_ifs at h <;> exact .carried j h
    · refine mem_setAt h (fun h => ?_) (.carried j)
      rcases List.mem_append.1 h with h | h
      · exact .seeds _ h
      · obtain ⟨u, hu, hc⟩ := List.mem_map.1 h
        exact .update u (.inl ⟨_, hu⟩) hc
    · exact .carried j h
    · exact .carried j h
  · rw [State.record] at h
    split at h
    · exact .seeds d h
    · split_ifs at h
      · exact mem_setAt h (.carried i) (.seeds d)
      · exact .seeds d h
    · exact .seeds d h
    · exact .seeds d h
    · exact .seeds d h
  · exact .update u (hlive u h) hc

theorem posted_record : (s.record who i).posted = s.posted := by
  rw [State.record]
  split <;> first | rfl | split_ifs <;> rfl

theorem Numbered.step {a : Act V} (h : Numbered s) (hs : step X N merged packId who s a = some s') :
    Numbered s' := by
  intro c hc
  rcases a with i | ⟨i, update⟩ | ⟨i, req, carries⟩ | ⟨i, answers⟩ | i | ⟨i, message, now⟩
  · obtain ⟨live, hlive, rfl⟩ := Option.map_eq_some_iff.1 hs
    refine h c ?_
    rcases hc with hc | ⟨j, hc⟩ | ⟨d, hc⟩ | ⟨u, hu, hc⟩
    · exact .contents hc
    · exact .carried j hc
    · exact .seeds d hc
    · rcases hu.begin hlive with hu | hu
      · exact .update u hu hc
      · exact absurd hu nofun
  · obtain ⟨live, hlive, rfl⟩ := Option.map_eq_some_iff.1 hs
    rcases hc with hc | ⟨j, hc⟩ | ⟨d, hc⟩ | ⟨u, hu, hc⟩
    · exact (h c (.contents hc)).trans (Nat.lt_succ_self _)
    · exact (h c (.carried j hc)).trans (Nat.lt_succ_self _)
    · exact (h c (.seeds d hc)).trans (Nat.lt_succ_self _)
    · rcases hu.begin hlive with hu | hu
      · exact (h c (.update u hu hc)).trans (Nat.lt_succ_self _)
      · obtain rfl := Live.Request.post.inj hu
        subst hc
        exact Nat.lt_succ_self _
  · rw [Credits.step] at hs
    split_ifs at hs with hreq
    obtain ⟨live, hlive, rfl⟩ := Option.map_eq_some_iff.1 hs
    rcases hc with hc | ⟨j, hc⟩ | ⟨d, hc⟩ | ⟨u, hu, hc⟩
    · exact (h c (.contents hc)).trans (Nat.lt_succ_self _)
    · refine mem_setAt hc (fun hc => ?_) fun hc => (h c (.carried j hc)).trans (Nat.lt_succ_self _)
      rcases List.mem_append.1 hc with hc | hc
      · exact (hreq.2 c hc).trans (Nat.lt_succ_self _)
      · obtain rfl := List.mem_singleton.1 hc
        exact Nat.lt_succ_self _
    · exact (h c (.seeds d hc)).trans (Nat.lt_succ_self _)
    · rcases hu.begin hlive with hu | hu
      · exact (h c (.update u hu hc)).trans (Nat.lt_succ_self _)
      · exact absurd hu nofun
  · obtain ⟨live, hlive, rfl⟩ := Option.map_eq_some_iff.1 hs
    exact (h c (hc.record fun u hu => hu.next hlive)).trans_eq posted_record.symm
  · obtain ⟨live, hlive, rfl⟩ := Option.map_eq_some_iff.1 hs
    refine h c ?_
    rcases hc with hc | ⟨j, hc⟩ | ⟨d, hc⟩ | ⟨u, hu, hc⟩
    · exact .contents hc
    · exact .carried j hc
    · exact .seeds d hc
    · exact .update u (hu.fail hlive) hc
  · rw [Credits.step] at hs
    split_ifs at hs
    obtain ⟨cfg, -, rfl⟩ := Option.map_eq_some_iff.1 hs
    refine h c ?_
    rcases hc with hc | ⟨j, hc⟩ | ⟨d, hc⟩ | ⟨u, hu, hc⟩
    · exact .contents hc
    · exact .carried j hc
    · exact .seeds d hc
    · exact .update u hu hc

theorem Init.numbered (h : Init s) : Numbered s := by
  rintro c (hc | ⟨j, hc⟩ | ⟨d, hc⟩ | ⟨u, ⟨d, hu⟩ | ⟨j, hu⟩, -⟩)
  · exact absurd (h.contents ▸ hc) List.not_mem_nil
  · exact absurd (h.carried j ▸ hc) List.not_mem_nil
  · exact absurd (h.seeds d ▸ hc) List.not_mem_nil
  · exact absurd (h.docs d ▸ hu) List.not_mem_nil
  · rw [h.live.procs j] at hu
    exact absurd hu (Option.some_ne_none u).symm

end Numbered

/-! ## Who is noted -/

theorem mem_notePendingAuthor {pending : List Login} {who w : Login} :
    w ∈ notePendingAuthor pending who ↔ w ∈ pending ∨ w = who := by
  rw [notePendingAuthor]
  split_ifs with h
  · refine ⟨.inl, ?_⟩
    rintro (hw | rfl)
    · exact hw
    · exact h
  · rw [List.mem_append, List.mem_singleton]

theorem mem_contributors {signer : Login} {pending : List Login} {w : Login} :
    w ∈ contributors signer pending ↔ w = signer ∨ w ∈ pending := by
  have hfold : ∀ (l named : List Login),
      w ∈ l.foldl (fun named who => if who ∈ named then named else named ++ [who]) named ↔
        w ∈ named ∨ w ∈ l := by
    intro l
    induction l with
    | nil => exact fun named => (or_iff_left List.not_mem_nil).symm
    | cons v l ih =>
      intro named
      rw [List.foldl_cons, ih, List.mem_cons, ← or_assoc]
      refine or_congr_left ?_
      split_ifs with hv
      · refine ⟨.inl, ?_⟩
        rintro (hw | rfl)
        · exact hw
        · exact hv
      · rw [List.mem_append, List.mem_singleton]
  rw [contributors, hfold, List.mem_singleton]

section Credit

variable {V : Type} {X : Outside} {N : Naming} {merged : Members → List V → Members}
  {packId : String} {who : ℕ → Login} {s s' : State V} {i : ℕ}

/-- Whose changes are stored that were posted since the last commit is noted, and who is noted had
    a change stored since. -/
structure Credit (s : State V) : Prop where
  named : ∀ c ∈ s.contents, s.mark ≤ c.no → c.by' ∈ s.pending
  stored : ∀ w ∈ s.pending, ∃ c ∈ s.since, c.by' = w
  log : Credited s

/-- Nothing changes of what the commits are made of. -/
theorem Credit.congr (h : Credit s) (hcontents : s'.contents = s.contents) (hmark : s'.mark = s.mark)
    (hpending : s'.pending = s.pending) (hsince : s'.since = s.since) (hlog : s'.log = s.log) :
    Credit s' := by
  refine ⟨?_, ?_, ?_⟩
  · rw [hcontents, hmark, hpending]
    exact h.named
  · rw [hpending, hsince]
    exact h.stored
  · rw [Credited, hlog]
    exact h.log

theorem Credit.save (h : Credit s) {door : Live.Door}
    (htakes : ∀ c ∈ s.carried i, s.mark ≤ c.no → c.by' = who i ∨ c.by' ∈ s.pending)
    (hown : door = .document →
      who i ∈ s.pending ∨ ∃ c ∈ s.carried i, c ∉ s.contents ∧ c.by' = who i) :
    Credit (s.save who i door) := by
  refine ⟨fun c hc hmark => ?_, fun w hw => ?_, h.log⟩
  · exact mem_notePendingAuthor.2 (htakes c hc hmark).symm
  · rcases mem_notePendingAuthor.1 hw with hw | rfl
    · obtain ⟨c, hc, hby⟩ := h.stored w hw
      exact ⟨c, List.mem_append_left _ (List.mem_append_left _ hc), hby⟩
    · rcases door with _ | _
      · exact ⟨_, List.mem_append_right _ (List.mem_singleton_self _), rfl⟩
      · rcases hown rfl with hw | ⟨c, hc, hnew, hby⟩
        · obtain ⟨c, hc, hby⟩ := h.stored _ hw
          exact ⟨c, List.mem_append_left _ (List.mem_append_left _ hc), hby⟩
        · refine ⟨c, List.mem_append_left _ (List.mem_append_right _ ?_), hby⟩
          exact List.mem_filter.2 ⟨hc, decide_eq_true hnew⟩

/-- A step of a party that stores nothing. -/
theorem Credit.record (h : Credit s) {answers : ℕ → Answers}
    (hok : Attributes who s (.next i answers)) : Credit (s.record who i) := by
  rw [State.record]
  split
  · exact h.congr rfl rfl rfl rfl rfl
  · split_ifs
    · exact h.congr rfl rfl rfl rfl rfl
    · exact h
  · exact h.congr rfl rfl rfl rfl rfl
  · next door cfg hp =>
    rw [Attributes, hp] at hok
    rcases door with _ | _
    · exact h.save hok nofun
    · exact h.save hok.1 fun _ => hok.2
  · exact h

theorem Credit.commitTo (hn : Numbered s) (h : Credit s) {cfg : PackConfig} {message now : String} :
    Credit (s.commitTo X N who i cfg message now) where
  named := fun c hc hmark => absurd (hn c (.contents hc)) hmark.not_gt
  stored := fun _ hw => absurd hw List.not_mem_nil
  log := by
    intro k hk
    rcases List.mem_append.1 hk with hk | hk
    · exact h.log k hk
    · obtain rfl := List.mem_singleton.1 hk
      constructor
      · intro c hc hmark
        exact List.mem_map.2 ⟨c.by', mem_contributors.2 (.inr (h.named c hc hmark)), rfl⟩
      · intro w hw
        obtain ⟨v, hv, rfl⟩ := List.mem_map.1 hw
        rcases mem_contributors.1 hv with rfl | hv
        · exact .inl rfl
        · obtain ⟨c, hc, rfl⟩ := h.stored v hv
          exact .inr ⟨c, hc, rfl⟩

theorem Credit.step {a : Act V} (hn : Numbered s) (h : Credit s) (hok : Attributes who s a)
    (hs : step X N merged packId who s a = some s') : Credit s' := by
  rcases a with i | ⟨i, update⟩ | ⟨i, req, carries⟩ | ⟨i, answers⟩ | i | ⟨i, message, now⟩
  · obtain ⟨live, -, rfl⟩ := Option.map_eq_some_iff.1 hs
    exact h.congr rfl rfl rfl rfl rfl
  · obtain ⟨live, -, rfl⟩ := Option.map_eq_some_iff.1 hs
    exact h.congr rfl rfl rfl rfl rfl
  · rw [Credits.step] at hs
    split_ifs at hs
    obtain ⟨live, -, rfl⟩ := Option.map_eq_some_iff.1 hs
    exact h.congr rfl rfl rfl rfl rfl
  · obtain ⟨live, -, rfl⟩ := Option.map_eq_some_iff.1 hs
    exact (h.record hok).congr rfl rfl rfl rfl rfl
  · obtain ⟨live, -, rfl⟩ := Option.map_eq_some_iff.1 hs
    exact h.congr rfl rfl rfl rfl rfl
  · rw [Credits.step] at hs
    split_ifs at hs
    obtain ⟨cfg, -, rfl⟩ := Option.map_eq_some_iff.1 hs
    exact h.commitTo hn

theorem Init.credit (h : Init s) : Credit s := by
  refine ⟨fun c hc => ?_, fun w hw => ?_, fun k hk => ?_⟩
  · exact absurd (h.contents ▸ hc) List.not_mem_nil
  · exact absurd (h.pending ▸ hw) List.not_mem_nil
  · exact absurd (h.log ▸ hk) List.not_mem_nil

end Credit

/-- In a run in which whoever writes a document takes in its own changes, or those of accounts that
    are noted, every commit names whom it should. -/
theorem system_credited {V : Type} {X : Outside} {N : Naming} {merged : Members → List V → Members}
    {packId : String} {who : ℕ → Login} {s : State V}
    (h : (system X N merged packId who).Reach (Attributes who) s) : Credited s := by
  have hnumbered : ∀ s, (system X N merged packId who).Reach (Attributes who) s → Numbered s :=
    fun s h => h.invariant (fun _ h₀ => h₀.numbered) fun _ _ _ hn _ hs => hn.step hs
  have hcredit : Credit s := h.invariant_of hnumbered (fun _ h₀ => h₀.credit)
    fun _ _ _ hn hc hok hs => hc.step hn hok hs
  exact hcredit.log

/-! ## Two at work -/

/-- Three accounts. -/
def accounts : ℕ → Login
  | 0 => ⟨"ada", by decide⟩
  | 1 => ⟨"bob", by decide⟩
  | _ => ⟨"cleo", by decide⟩

/-- A pack with a config, and nobody there. -/
def start {V : Type} (cfg : PackConfig) : State V where
  live := Live.start cfg
  pending := []
  log := []
  posted := 0
  mark := 0
  contents := []
  since := []
  carried := fun _ => []
  seeds := fun _ => []
  own := fun _ => 0

theorem init_start {V : Type} (cfg : PackConfig) : Init (start (V := V) cfg) :=
  ⟨Live.init_start cfg, fun _ => rfl, rfl, rfl, rfl, rfl, rfl, rfl, fun _ => rfl, fun _ => rfl⟩

/-- Commits that are named by what they say. -/
def plainly : Naming where
  sha1 := id
  text := fun _ => ""

/-- A party goes on, without a dependency fill. -/
def go (i : ℕ) : Act (String × Json) := .next i fun _ => .down

/-- Ada posts an update, which is written, and Cleo commits. -/
def aloneAtWork : List (Act (String × Json)) :=
  [.post 0 ("tagline", .str "Factory"), go 0, go 0, go 0, go 0, go 0, go 0, go 0, go 0, go 0, go 0,
    go 0, go 0, go 0, .commit 2 "Industry" "2026-01-01T00:00:00Z"]

theorem system_credited_alone :
    ∃ s : State (String × Json),
      s.log.map (fun k => k.commit.contributors) = [["cleo", "ada"]] ∧ Credited s := by
  have hrun : (((system .none plainly Live.writeMembers "Industrial" accounts).guarded
      (Attributes accounts)).run (start (.empty "Industrial")) aloneAtWork).any (fun s =>
        s.log.map (fun k => k.commit.contributors) = [["cleo", "ada"]]) = true := by
    decide +kernel
  obtain ⟨s, hs, hnames⟩ := (Option.any_eq_true _ _).1 hrun
  have h₀ : ((system .none plainly Live.writeMembers "Industrial" accounts).guarded
      (Attributes accounts)).Reachable (start (.empty "Industrial")) := .init (init_start _)
  exact ⟨s, of_decide_eq_true hnames, system_credited (h₀.run hs).of_guarded⟩

/-- Ada posts an update, and Bob another one before hers is written; his party writes both, and Cleo
    commits. -/
def twoAtWork : List (Act (String × Json)) :=
  [.post 0 ("tagline", .str "Factory"), go 0, go 0, go 0, go 0, go 0,
    .post 1 ("display_name", .str "Industry"), go 1, go 1, go 1, go 0,
    go 1, go 1, go 1, go 1, go 1, go 1, go 1, go 1, .commit 2 "Industry" "2026-01-01T00:00:00Z"]

/-- The commit has the work of Ada, and does not name her. -/
theorem system_uncredited :
    ¬ ∀ s, (system .none plainly Live.writeMembers "Industrial" accounts).Reachable s →
      Credited s := by
  intro h
  have hrun : ((system .none plainly Live.writeMembers "Industrial" accounts).run
      (start (.empty "Industrial")) twoAtWork).any (fun s => s.log.any fun k =>
        k.commit.contributors = ["cleo", "bob"] ∧ ∃ c ∈ k.contents, k.mark ≤ c.no ∧
          c.by'.val = "ada") = true := by
    decide +kernel
  obtain ⟨s, hs, hlog⟩ := (Option.any_eq_true _ _).1 hrun
  obtain ⟨k, hk, hyes⟩ := List.any_eq_true.1 hlog
  obtain ⟨hnames, c, hc, hmark, hby⟩ := of_decide_eq_true hyes
  have h₀ : (system .none plainly Live.writeMembers "Industrial" accounts).Reachable
      (start (.empty "Industrial")) := .init (init_start _)
  have hada := (h s (h₀.run hs) k hk).1 c hc hmark
  rw [hby, hnames] at hada
  exact absurd hada (by decide)

end Smrt.Credits
