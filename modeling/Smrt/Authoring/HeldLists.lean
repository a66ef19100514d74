import Smrt.Lib.Split
import Smrt.Lib.System

/-!
# Lists that are held

The lists that the editor offers come from others: the versions of Minecraft, and the builds of each
loader. The mirror holds a copy of each in a file, and answers from it (`step`). A copy that is not
old is the answer. One that is old is the answer too, and said to be old, while a new one is asked
for behind it. Only who asks where there is no copy waits, and may be told that there is none.

Any number of people ask, for any list, and the answers and the files come in any order; upstream
says what it likes, or nothing, and the clock goes where it likes.

* `Inv`: what holds in every state reached;
* `answered`: whoever is answered gets what upstream said on that list, and is told if it is old;
  and once there is a copy, everybody is answered at once.
-/

namespace Smrt

namespace HeldLists

/-- How long a copy is not old, in seconds. -/
def maxAgeSecs : ℕ := 6 * 60 * 60

/-- What somebody asks for; a loader as they write it. -/
inductive Request
  | minecraft
  | loader (text : String)
  deriving DecidableEq

/-- A list that is held. -/
inductive Topic
  | minecraft
  | loader (name : String)
  deriving DecidableEq

def loaderName (text : String) : String := String.ofList ((trim text).toList.map Char.toLower)

/-- The loaders with a list. -/
def isKnown (loader : String) : Bool :=
  ["forge", "neoforge", "fabric", "quilt"].contains (loaderName loader)

def topicOf : Request → Option Topic
  | .minecraft => some .minecraft
  | .loader text => if isKnown (loaderName text) then some (.loader (loaderName text)) else none

/-- The name of the file of a list. -/
def metaName : Topic → String
  | .minecraft => "minecraft-versions"
  | .loader name => "loader-" ++ name

variable {α : Type*}

/-- A list with when it was heard. -/
structure Copy (α : Type*) where
  list : α
  fetchedUnix : ℕ
  stale : Bool

/-- Whether a copy is not old. One that was heard in the future is. -/
def isFresh (fetchedUnix now : ℕ) : Bool := fetchedUnix ≤ now ∧ now - fetchedUnix < maxAgeSecs

/-- What somebody was answered, and when: an error, or a list. -/
structure Answer (α : Type*) where
  topic : Topic
  got : Option (Copy α)
  now : ℕ
  /-- Whether they waited for upstream. -/
  waited : Bool

/-- A refresh of a list, which somebody may wait for. -/
inductive Refresh (α : Type*)
  | asking (topic : Topic) (waited : Bool)
  | saving (topic : Topic) (waited : Bool) (copy : Copy α)

structure State (α : Type*) where
  files : String → Option (Copy α)
  now : ℕ
  /-- What upstream says now of a list; it may not answer. -/
  upstream : Topic → Option α
  refreshes : ℕ → Option (Refresh α)
  /-- What upstream said, with what the clock showed. -/
  said : List (Topic × α × ℕ)
  answers : List (Answer α)

inductive Act (α : Type*)
  | tick (now : ℕ)
  | turn (topic : Topic) (list : Option α)
  /-- Somebody asks for a list; a refresh that starts is number `k`. -/
  | ask (k : ℕ) (request : Request)
  /-- A refresh hears upstream. -/
  | fetch (k : ℕ)
  /-- A refresh writes its copy, which may fail. -/
  | save (k : ℕ) (written : Bool)
  /-- The mirror goes down, and comes up again. -/
  | restart

namespace State

variable (s : State α)

def answer (topic : Topic) (got : Option (Copy α)) (waited : Bool) : State α :=
  { s with answers := ⟨topic, got, s.now, waited⟩ :: s.answers }

def starts (k : ℕ) (topic : Topic) (waited : Bool) : State α :=
  { s with refreshes := Function.update s.refreshes k (some (.asking topic waited)) }

def ends (k : ℕ) : State α := { s with refreshes := Function.update s.refreshes k none }

/-- Somebody asks (`loader_versions`, `minecraft_versions`). -/
def asked (k : ℕ) (topic : Topic) : State α :=
  match s.files (metaName topic) with
  | none => s.starts k topic true
  | some copy =>
    if isFresh copy.fetchedUnix s.now then s.answer topic (some copy) false
    else (s.answer topic (some { copy with stale := true }) false).starts k topic false

/-- Upstream answers a refresh, or does not. -/
def fetched (k : ℕ) (topic : Topic) (waited : Bool) : State α :=
  match s.upstream topic with
  | none => if waited then (s.ends k).answer topic none true else s.ends k
  | some list => { s with
      refreshes := Function.update s.refreshes k
        (some (.saving topic waited { list, fetchedUnix := s.now, stale := false }))
      said := (topic, list, s.now) :: s.said }

/-- A copy is written, if that goes well. -/
def keeps (topic : Topic) (copy : Copy α) (written : Bool) : State α :=
  if written then { s with files := Function.update s.files (metaName topic) (some copy) } else s

/-- A refresh is done: its copy is written, and who waits is answered. -/
def saved (k : ℕ) (topic : Topic) (waited : Bool) (copy : Copy α) (written : Bool) : State α :=
  if waited then ((s.ends k).keeps topic copy written).answer topic (some copy) true
  else (s.ends k).keeps topic copy written

end State

/-- The state after a step. -/
def step (s : State α) : Act α → Option (State α)
  | .tick now => some { s with now }
  | .turn topic list => some { s with upstream := Function.update s.upstream topic list }
  | .ask k request =>
    if (s.refreshes k).isSome then none else (topicOf request).map (s.asked k)
  | .fetch k => match s.refreshes k with
    | some (.asking topic waited) => some (s.fetched k topic waited)
    | _ => none
  | .save k written => match s.refreshes k with
    | some (.saving topic waited copy) => some (s.saved k topic waited copy written)
    | _ => none
  | .restart => some { s with refreshes := fun _ => none }

/-- The mirror, before it holds anything. -/
def system : System (State α) (Act α) where
  init := fun s => (∀ name, s.files name = none) ∧ (∀ k, s.refreshes k = none) ∧ s.answers = []
  step := step

/-! ## Every state reached -/

variable {s s' : State α} {topic : Topic}

theorem metaName_injective : Function.Injective metaName := by
  have hother (name : String) : metaName .minecraft ≠ metaName (.loader name) := by
    intro h
    have hhead := congrArg (fun s : String => s.toList.head?) h
    have hm : (metaName .minecraft).toList.head? = some 'm' := by decide
    have hl : (metaName (.loader name)).toList.head? = some 'l' := by
      rw [metaName, String.toList_append]
      rfl
    exact absurd (hm.symm.trans (hhead.trans hl)) (by decide)
  intro a b h
  rcases a with _ | name
  · rcases b with _ | name
    · rfl
    · exact absurd h (hother name)
  · rcases b with _ | name'
    · exact absurd h.symm (hother name)
    · rw [(String.append_right_inj "loader-").1 h]

/-- An answer that upstream gave, and that is said to be old exactly if it was. -/
structure Right (said : List (Topic × α × ℕ)) (a : Answer α) : Prop where
  said : ∀ copy, a.got = some copy → (a.topic, copy.list, copy.fetchedUnix) ∈ said
  atOnce : a.waited = false → ∃ copy, a.got = some copy ∧
    copy.stale = !isFresh copy.fetchedUnix a.now
  late : a.waited = true → ∀ copy, a.got = some copy → copy.stale = false

/-- What holds in every state reached. -/
structure Inv (s : State α) : Prop where
  file : ∀ topic copy, s.files (metaName topic) = some copy →
    copy.stale = false ∧ (topic, copy.list, copy.fetchedUnix) ∈ s.said
  saving : ∀ k topic waited copy, s.refreshes k = some (.saving topic waited copy) →
    copy.stale = false ∧ (topic, copy.list, copy.fetchedUnix) ∈ s.said
  answer : ∀ a ∈ s.answers, Right s.said a

theorem Right.mono {said said' : List (Topic × α × ℕ)} {a : Answer α} (h : Right said a)
    (hsaid : said ⊆ said') : Right said' a :=
  { h with said := fun copy hc => hsaid (h.said copy hc) }

/-- Somebody is answered. -/
theorem Inv.answers (h : Inv s) {got : Option (Copy α)} {waited : Bool}
    (ha : Right s.said ⟨topic, got, s.now, waited⟩) : Inv (s.answer topic got waited) where
  file := h.file
  saving := h.saving
  answer := by
    intro a hmem
    rcases List.mem_cons.1 hmem with rfl | hmem
    · exact ha
    · exact h.answer a hmem

/-- A refresh starts, or is over. -/
theorem Inv.refresh (h : Inv s) {k : ℕ} {r : Option (Refresh α)}
    (hr : ∀ topic waited copy, r = some (.saving topic waited copy) →
      copy.stale = false ∧ (topic, copy.list, copy.fetchedUnix) ∈ s.said) :
    Inv { s with refreshes := Function.update s.refreshes k r } where
  file := h.file
  saving := by
    intro j topic waited copy hj
    have hj : Function.update s.refreshes k r j = some (.saving topic waited copy) := hj
    by_cases hjk : j = k
    · rw [hjk, Function.update_self] at hj
      exact hr topic waited copy hj
    · rw [Function.update_of_ne hjk] at hj
      exact h.saving j topic waited copy hj
  answer := h.answer

theorem Inv.starts (h : Inv s) {k : ℕ} {waited : Bool} : Inv (s.starts k topic waited) := by
  refine h.refresh fun _ _ _ he => ?_
  cases he

theorem Inv.ends (h : Inv s) {k : ℕ} : Inv (s.ends k) := by
  refine h.refresh fun _ _ _ he => ?_
  cases he

theorem Inv.asked (h : Inv s) {k : ℕ} : Inv (s.asked k topic) := by
  rw [State.asked]
  rcases hfile : s.files (metaName topic) with _ | copy
  · exact h.starts
  obtain ⟨hstale, hsaid⟩ := h.file topic copy hfile
  dsimp only
  split_ifs with hfresh
  · refine h.answers ⟨fun c hc => ?_, fun _ => ⟨copy, rfl, ?_⟩,
      fun hw => absurd hw Bool.false_ne_true⟩
    · rw [← Option.some.inj hc]
      exact hsaid
    · rw [hstale, hfresh]
      rfl
  · refine Inv.starts (h.answers ⟨fun c hc => ?_, fun _ => ⟨_, rfl, ?_⟩,
      fun hw => absurd hw Bool.false_ne_true⟩)
    · rw [← Option.some.inj hc]
      exact hsaid
    · rw [Bool.not_eq_true] at hfresh
      exact (congrArg Bool.not hfresh).symm

theorem Inv.fetched (h : Inv s) {k : ℕ} {waited : Bool} : Inv (s.fetched k topic waited) := by
  rw [State.fetched]
  rcases s.upstream topic with _ | list
  · dsimp only
    split_ifs with hwaited
    · refine h.ends.answers ⟨fun c hc => ?_, fun hw => ?_, fun _ c hc => ?_⟩
      · cases hc
      · cases hw
      · cases hc
    · exact h.ends
  · have hgrown : Inv { s with said := (topic, list, s.now) :: s.said } :=
      { file := fun t c hc => (h.file t c hc).imp_right (List.mem_cons_of_mem _)
        saving := fun j t w c hc => (h.saving j t w c hc).imp_right (List.mem_cons_of_mem _)
        answer := fun a ha => (h.answer a ha).mono (List.subset_cons_self _ _) }
    refine hgrown.refresh fun t w c he => ?_
    cases he
    exact ⟨rfl, List.mem_cons_self⟩

theorem Inv.keeps (h : Inv s) {copy : Copy α} {written : Bool}
    (hcopy : copy.stale = false ∧ (topic, copy.list, copy.fetchedUnix) ∈ s.said) :
    Inv (s.keeps topic copy written) := by
  rw [State.keeps]
  split_ifs with hw
  · refine { h with file := fun t c hc => ?_ }
    have hc : Function.update s.files (metaName topic) (some copy) (metaName t) = some c := hc
    by_cases ht : t = topic
    · rw [ht, Function.update_self] at hc
      rw [← Option.some.inj hc, ht]
      exact hcopy
    · rw [Function.update_of_ne (metaName_injective.ne ht)] at hc
      exact h.file t c hc
  · exact h

theorem said_keeps {copy : Copy α} {written : Bool} :
    (s.keeps topic copy written).said = s.said := by
  rw [State.keeps]
  split_ifs
  · rfl
  · rfl

theorem Inv.saved (h : Inv s) {k : ℕ} {waited written : Bool} {copy : Copy α}
    (hr : s.refreshes k = some (.saving topic waited copy)) :
    Inv (s.saved k topic waited copy written) := by
  have hcopy := h.saving k topic waited copy hr
  have hkept : Inv ((s.ends k).keeps topic copy written) := h.ends.keeps hcopy
  rw [State.saved]
  split_ifs with hw
  · refine hkept.answers ⟨fun c hc => ?_, fun hwait => ?_, fun _ c hc => ?_⟩
    · rw [← Option.some.inj hc, said_keeps]
      exact hcopy.2
    · cases hwait
    · rw [← Option.some.inj hc]
      exact hcopy.1
  · exact hkept

theorem Inv.step (h : Inv s) (a : Act α) (hs : step s a = some s') : Inv s' := by
  cases a with
  | tick now =>
    rw [← Option.some.inj hs]
    exact { h with }
  | turn topic list =>
    rw [← Option.some.inj hs]
    exact { h with }
  | ask k request =>
    have hs : (if (s.refreshes k).isSome then none
      else (topicOf request).map (s.asked k)) = some s' := hs
    split_ifs at hs with hbusy
    obtain ⟨topic, -, rfl⟩ := Option.map_eq_some_iff.1 hs
    exact h.asked
  | fetch k =>
    rw [HeldLists.step] at hs
    rcases hr : s.refreshes k with _ | ⟨topic, waited⟩ | ⟨topic, waited, copy⟩
    all_goals rw [hr] at hs
    · cases hs
    · rw [← Option.some.inj hs]
      exact h.fetched
    · cases hs
  | save k written =>
    rw [HeldLists.step] at hs
    rcases hr : s.refreshes k with _ | ⟨topic, waited⟩ | ⟨topic, waited, copy⟩
    all_goals rw [hr] at hs
    · cases hs
    · cases hs
    · rw [← Option.some.inj hs]
      exact h.saved hr
  | restart =>
    rw [← Option.some.inj hs]
    exact { h with saving := fun k t w c hc => absurd hc.symm (Option.some_ne_none _) }

theorem inv_of_reach (h : system.Reachable s) : Inv s := by
  refine h.invariant (fun s hs => ?_) fun _ a _ hP _ hs => hP.step a hs
  obtain ⟨hfiles, hrefreshes, hanswers⟩ := hs
  constructor
  case file =>
    intro topic copy hc
    rw [hfiles] at hc
    cases hc
  case saving =>
    intro k topic waited copy hc
    rw [hrefreshes] at hc
    cases hc
  case answer =>
    rw [hanswers]
    exact fun a ha => absurd ha List.not_mem_nil

/-- A copy is not old if it was heard within the time that the clock shows. -/
theorem isFresh_iff {t now : ℕ} : isFresh t now = true ↔ t ≤ now ∧ now < t + maxAgeSecs := by
  rw [isFresh, decide_eq_true_iff]
  omega

/-- Whoever is answered at once has a list that upstream said on what they asked for, and is told
    that it is old exactly if it was not heard in the last hours; only who waits may get none. -/
theorem answers_said (h : system.Reachable s) (a : Answer α) (ha : a ∈ s.answers) :
    (∀ copy, a.got = some copy → (a.topic, copy.list, copy.fetchedUnix) ∈ s.said ∧
      (copy.stale = true ↔ a.waited = false ∧
        ¬ (copy.fetchedUnix ≤ a.now ∧ a.now < copy.fetchedUnix + maxAgeSecs))) ∧
    (a.got = none → a.waited = true) := by
  have hright := (inv_of_reach h).answer a ha
  constructor
  · intro copy hc
    refine ⟨hright.said copy hc, ?_⟩
    rcases hw : a.waited with _ | _
    · obtain ⟨c, hgot, hstale⟩ := hright.atOnce hw
      obtain rfl := Option.some.inj (hc.symm.trans hgot)
      rw [hstale, ← isFresh_iff, Bool.not_eq_true', Bool.not_eq_true, and_iff_right rfl]
    · rw [hright.late hw copy hc]
      exact iff_of_false Bool.false_ne_true fun hold => absurd hold.1 Bool.true_eq_false.mp
  · intro hnone
    rcases hw : a.waited with _ | _
    · obtain ⟨c, hgot, -⟩ := hright.atOnce hw
      exact absurd (hnone.symm.trans hgot) (Option.some_ne_none c).symm
    · rfl

theorem files_asked {k : ℕ} {t : Topic} : (s.asked k t).files = s.files := by
  rw [State.asked]
  rcases s.files (metaName t) with _ | copy
  · rfl
  dsimp only
  split_ifs
  · rfl
  · rfl

theorem files_fetched {k : ℕ} {t : Topic} {waited : Bool} :
    (s.fetched k t waited).files = s.files := by
  rw [State.fetched]
  rcases s.upstream t with _ | list
  · dsimp only
    split_ifs
    · rfl
    · rfl
  · rfl

/-- A file is only ever written over. -/
theorem files_step {a : Act α} (hs : step s a = some s') :
    s'.files = s.files ∨ ∃ t copy, s'.files = Function.update s.files (metaName t) (some copy) := by
  cases a with
  | tick now =>
    rw [← Option.some.inj hs]
    exact .inl rfl
  | turn t list =>
    rw [← Option.some.inj hs]
    exact .inl rfl
  | ask k request =>
    have hs : (if (s.refreshes k).isSome then none
      else (topicOf request).map (s.asked k)) = some s' := hs
    split_ifs at hs with hbusy
    obtain ⟨t, -, rfl⟩ := Option.map_eq_some_iff.1 hs
    exact .inl files_asked
  | fetch k =>
    rw [step] at hs
    rcases hr : s.refreshes k with _ | ⟨t, waited⟩ | ⟨t, waited, copy⟩
    all_goals rw [hr] at hs
    · cases hs
    · rw [← Option.some.inj hs]
      exact .inl files_fetched
    · cases hs
  | save k written =>
    rw [step] at hs
    rcases hr : s.refreshes k with _ | ⟨t, waited⟩ | ⟨t, waited, copy⟩
    all_goals rw [hr] at hs
    · cases hs
    · cases hs
    · have hkeeps : (s.saved k t waited copy written).files = s.files ∨
          (s.saved k t waited copy written).files =
            Function.update s.files (metaName t) (some copy) := by
        cases waited <;> cases written
        · exact .inl rfl
        · exact .inr rfl
        · exact .inl rfl
        · exact .inr rfl
      rw [← Option.some.inj hs]
      exact hkeeps.imp_right fun h => ⟨t, copy, h⟩
  | restart =>
    rw [← Option.some.inj hs]
    exact .inl rfl

/-- A copy is never lost. -/
theorem kept (hfile : (s.files (metaName topic)).isSome)
    (h : (system.since s).Reachable s') : (s'.files (metaName topic)).isSome := by
  refine h.invariant (P := fun t => (t.files (metaName topic)).isSome = true) ?_ ?_
  · rintro t rfl
    exact hfile
  · intro t a t' hP _ hs
    rcases files_step hs with he | ⟨t₁, copy, he⟩
    · rw [he]
      exact hP
    · rw [he]
      by_cases hname : metaName topic = metaName t₁
      · rw [hname, Function.update_self]
        rfl
      · rw [Function.update_of_ne hname]
        exact hP

/-- Once there is a copy of a list, whoever asks for it in whatever comes then is answered at once,
    with what upstream said. -/
theorem held (h : system.Reachable s) (hfile : (s.files (metaName topic)).isSome)
    (h' : (system.since s).Reachable s') {request : Request} (hr : topicOf request = some topic)
    {k : ℕ} (hk : s'.refreshes k = none) :
    ∃ s'' copy, step s' (.ask k request) = some s'' ∧
      s''.answers = ⟨topic, some copy, s'.now, false⟩ :: s'.answers ∧
      (topic, copy.list, copy.fetchedUnix) ∈ s'.said := by
  obtain ⟨copy, hcopy⟩ := Option.isSome_iff_exists.1 (kept hfile h')
  have hsaid := ((inv_of_reach (h.trans h')).file topic copy hcopy).2
  have hstep : step s' (.ask k request) = some (s'.asked k topic) := by
    have hfree : ¬ (s'.refreshes k).isSome = true := by rw [hk]; exact Bool.false_ne_true
    exact (if_neg hfree).trans (by rw [hr]; rfl)
  rw [hstep, State.asked, hcopy]
  dsimp only
  split_ifs
  · exact ⟨_, copy, rfl, rfl, hsaid⟩
  · exact ⟨_, { copy with stale := true }, rfl, rfl, hsaid⟩

/-- In every run, whoever is answered has a list that upstream said on what they asked for, and is
    told exactly if it is old; and from when a list is held on, nobody who asks for it waits. -/
theorem answered (h : system.Reachable s) :
    (∀ a ∈ s.answers, (∀ copy, a.got = some copy →
      (a.topic, copy.list, copy.fetchedUnix) ∈ s.said ∧ (copy.stale = true ↔ a.waited = false ∧
        ¬ (copy.fetchedUnix ≤ a.now ∧ a.now < copy.fetchedUnix + maxAgeSecs))) ∧
      (a.got = none → a.waited = true)) ∧
    ∀ topic s' request k, (s.files (metaName topic)).isSome → (system.since s).Reachable s' →
      topicOf request = some topic → s'.refreshes k = none →
      ∃ s'' copy, step s' (.ask k request) = some s'' ∧
        s''.answers = ⟨topic, some copy, s'.now, false⟩ :: s'.answers ∧
        (topic, copy.list, copy.fetchedUnix) ∈ s'.said :=
  ⟨answers_said h, fun _ _ _ _ hfile h' hr hk => held h hfile h' hr hk⟩

/-! ## A run -/

def unheard : State ℕ where
  files := fun _ => none
  now := 100
  upstream := fun _ => some 1
  refreshes := fun _ => none
  said := []
  answers := []

/-- Somebody waits for the first copy; a day later it is old, and upstream does not answer. -/
def outage : List (Act ℕ) :=
  [.ask 0 (.loader " Forge"), .fetch 0, .save 0 true, .tick 86500, .turn (.loader "forge") none,
    .ask 1 (.loader "forge"), .fetch 1]

theorem answered_outage : ∃ s : State ℕ, system.Reachable s ∧
    s.answers.map (fun a => a.got.map fun c => (c.list, c.stale)) =
      [some (1, true), some (1, false)] ∧
    ∀ a ∈ s.answers, ∀ copy, a.got = some copy →
      (a.topic, copy.list, copy.fetchedUnix) ∈ s.said := by
  have hrun : ((system.run unheard outage).any fun s =>
      s.answers.map (fun a => a.got.map fun c => (c.list, c.stale)) =
        [some (1, true), some (1, false)]) = true := by
    decide +kernel
  obtain ⟨s, hs, hanswers⟩ := (Option.any_eq_true _ _).1 hrun
  have hreach : system.Reachable s := System.Reach.run (.init ⟨fun _ => rfl, fun _ => rfl, rfl⟩) hs
  exact ⟨s, hreach, of_decide_eq_true hanswers, fun a ha c hc =>
    (((answered hreach).1 a ha).1 c hc).1⟩

end HeldLists

end Smrt
