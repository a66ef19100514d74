import Smrt.Http.Live

/-!
# Accepted edits are not lost

Once every document that is to be written has been written, the stored config is what a
document says that has merged every update owed: every update merged since a whole-config
write last began (`NoneLost`). That is so as long as an update is merged into a document
that is still live, and a write forgets the document only if none was merged since it began
(`KeepsDocument`): `system_noneLost`. The tickets see to the rest: there is always somebody
on the way to write the newest update (`Covered`).

Nothing sees to either condition. Who posts an update has the document in hand before it is
merged, and a whole-config write may forget it in between: the update is merged into a
document that nobody will write (`system_lost`).
-/

namespace Smrt.Live

open Json (Members)

variable {U : Type} {X : Outside} {merged : Members → List U → Members} {packId : String}
  {s s' : State U} {i : ℕ}

/-- What may be stored of a document, over some stored config. -/
def Shows (X : Outside) (merged : Members → List U → Members) (doc : Doc U) (stored : PackConfig) :
    Prop :=
  ∃ base cfg answers, PackDoc.toConfig X.operatorUid (doc.content merged) base = some cfg ∧
    stored = storeEditedConfig answers (mergePulled base cfg)
      (fillNeeded (some base) (mergePulled base cfg))

/-- A party is on the way to write a document. -/
def Proc.Materialising : Proc U → Prop
  | applied | sleeping _ | waiting | locked | got _ | loaded _ _ | storing .document _ _
  | saving .document _ => True
  | _ => False

/-- When nobody is on the way to write a document, the stored config is what a document says
    that has merged every update owed. -/
def NoneLost (X : Outside) (merged : Members → List U → Members) (s : State U) : Prop :=
  (∀ i, ¬ (s.procs i).Materialising) → ∀ u ∈ s.owed,
    ∃ d c, u ∈ (s.docs.heap d).applied ∧ s.stored = some c ∧ Shows X merged (s.docs.heap d) c

/-- An update is merged into the live document, and a write forgets the document only if
    none was merged since it began. -/
def KeepsDocument (s : State U) : Act U → Prop
  | .next i _ => match s.procs i with
    | .holding _ d => s.docs.live = some d
    | .settled _ _ => s.owed = []
    | _ => True
  | _ => True

/-- Whoever writes a document does: what it says is a config, and is stored. -/
def Succeeds (X : Outside) (merged : Members → List U → Members) (s : State U) : Act U → Prop
  | .next i _ => match s.procs i with
    | .loaded d existing =>
      (PackDoc.toConfig X.operatorUid ((s.docs.heap d).content merged) existing).isSome
    | _ => True
  | .fail i => match s.procs i with
    | .got _ | .saving .document _ => False
    | _ => True
  | .begin _ _ => True

/-! ## The invariant -/

/-- A party will read the document: it has the last ticket, if it still waits. -/
def WillRead (s : State U) : Proc U → Prop
  | .applied | .waiting | .locked | .got _ | .loaded _ _ => True
  | .sleeping ticket => s.docs.isCurrent ticket = true
  | _ => False

/-- A party has read a document as it is, and is about to store what it says. -/
def WillShow (X : Outside) (merged : Members → List U → Members) (doc : Doc U) : Proc U → Prop
  | .storing .document cfg fill =>
    ∀ answers, Shows X merged doc (storeEditedConfig answers cfg fill)
  | .saving .document cfg => Shows X merged doc cfg
  | _ => False

/-- A party is about to store something. -/
def Proc.Stores : Proc U → Prop
  | storing _ _ _ | saving _ _ => True
  | _ => False

/-- A document is written, or will be: somebody will read it, or has read it as it is, or
    it is what is stored, and nobody is about to store anything else. -/
def Covered (X : Outside) (merged : Members → List U → Members) (s : State U) (doc : Doc U) :
    Prop :=
  (∃ i, WillRead s (s.procs i)) ∨ (∃ i, WillShow X merged doc (s.procs i)) ∨
    ((∃ c, s.stored = some c ∧ Shows X merged doc c) ∧ ∀ i, ¬ (s.procs i).Stores)

/-- The live document has merged every update owed, and is covered. -/
def Owed (X : Outside) (merged : Members → List U → Members) (s : State U) : Prop :=
  s.owed ≠ [] → ∃ d, s.docs.live = some d ∧ (∀ u ∈ s.owed, u ∈ (s.docs.heap d).applied) ∧
    Covered X merged s (s.docs.heap d)

theorem Proc.Stores.holdsLock {p : Proc U} (h : p.Stores) : p.HoldsLock := by
  cases p <;> trivial

theorem WillShow.stores {doc : Doc U} {p : Proc U} (h : WillShow X merged doc p) : p.Stores := by
  cases p <;> trivial

theorem WillRead.materialising {p : Proc U} (h : WillRead s p) : p.Materialising := by
  cases p <;> trivial

theorem WillShow.materialising {doc : Doc U} {p : Proc U} (h : WillShow X merged doc p) :
    p.Materialising := by
  cases p with
  | storing door | saving door => cases door <;> trivial
  | _ => trivial

theorem WillRead.congr {p : Proc U} (h : WillRead s p) (ht : s'.docs.ticket = s.docs.ticket) :
    WillRead s' p := by
  revert h
  cases p <;> simp only [WillRead, PackDocs.isCurrent, ht] <;> exact id

/-- A party moves. Whoever will read or show the document still does, unless it is the one
    that moves. -/
theorem Covered.frame {doc : Doc U} (h : Covered X merged s doc) {p : Proc U}
    (hprocs : s'.procs = setAt s.procs i p) (hstored : s'.stored = s.stored)
    (hticket : s'.docs.ticket = s.docs.ticket)
    (hread : WillRead s (s.procs i) → WillRead s' p)
    (hshow : WillShow X merged doc (s.procs i) → WillShow X merged doc p)
    (hstores : p.Stores → (s.procs i).Stores) : Covered X merged s' doc := by
  have hat {q : ℕ → Proc U → Prop} {j : ℕ} (hj : q j (s.procs j)) (hi : q i (s.procs i) → q i p) :
      q j (s'.procs j) := by
    rw [hprocs]
    by_cases hji : j = i
    · subst hji
      rw [setAt_self]
      exact hi hj
    · rwa [setAt_of_ne _ _ hji]
  rcases h with ⟨j, hj⟩ | ⟨j, hj⟩ | ⟨hc, hn⟩
  · exact .inl ⟨j, hat (q := fun _ => WillRead s') (hj.congr hticket)
      fun hi => hread (hi.congr hticket.symm)⟩
  · exact .inr (.inl ⟨j, hat (q := fun _ => WillShow X merged doc) hj hshow⟩)
  · refine .inr (.inr ⟨hstored ▸ hc, fun j => ?_⟩)
    exact hat (q := fun _ q => ¬ q.Stores) (hn j) fun hi hp => hi (hstores hp)

theorem Owed.of_nil (h : s.owed = []) : Owed X merged s := fun hne => absurd h hne

/-- A party moves alone, and whoever will read or show the live document still does. -/
theorem Owed.frame (h : Owed X merged s) {p : Proc U} (hprocs : s'.procs = setAt s.procs i p)
    (howed : s'.owed = s.owed) (hdocs : s'.docs = s.docs) (hstored : s'.stored = s.stored)
    (hread : ∀ d, s.docs.live = some d → WillRead s (s.procs i) → WillRead s p)
    (hshow : ∀ doc, WillShow X merged doc (s.procs i) → WillShow X merged doc p)
    (hstores : p.Stores → (s.procs i).Stores) : Owed X merged s' := by
  intro hne
  obtain ⟨d, hd, hin, hc⟩ := h (howed ▸ hne)
  refine ⟨d, hdocs ▸ hd, by rw [howed, hdocs]; exact hin, ?_⟩
  rw [hdocs]
  exact hc.frame hprocs hstored (by rw [hdocs])
    (fun hi => (hread d hd hi).congr (by rw [hdocs])) (hshow _) hstores

theorem Owed.to (h : Owed X merged s) {p : Proc U}
    (hread : ∀ d, s.docs.live = some d → WillRead s (s.procs i) → WillRead s p)
    (hshow : ∀ doc, WillShow X merged doc (s.procs i) → WillShow X merged doc p)
    (hstores : p.Stores → (s.procs i).Stores) : Owed X merged (s.to i p) :=
  h.frame rfl rfl rfl rfl hread hshow hstores

/-- A party that has no part in writing documents moves. -/
theorem Owed.aside (h : Owed X merged s) {p : Proc U} (hi : ¬ WillRead s (s.procs i))
    (hi' : ∀ doc, ¬ WillShow X merged doc (s.procs i)) (hp : ¬ p.Stores) :
    Owed X merged (s.to i p) :=
  h.to (fun _ _ hr => absurd hr hi) (fun doc hs => absurd hs (hi' doc)) fun hs => absurd hs hp

theorem Owed.acquire (h : Owed X merged s) {p : Proc U} (ha : s.acquire i p = some s')
    (hread : WillRead s (s.procs i) → WillRead s p) (hi : ¬ (s.procs i).Stores)
    (hp : ¬ p.Stores) : Owed X merged s' := by
  rw [State.acquire] at ha
  split_ifs at ha
  obtain rfl := Option.some.inj ha
  exact h.frame rfl rfl rfl rfl (fun _ _ => hread) (fun _ hs => absurd hs.stores hi)
    fun hs => absurd hs hp

/-- An update is merged into the live document: the one who posted it will read it. -/
theorem Owed.merge (h : Owed X merged s) {u : U} {d : ℕ} (hd : s.docs.live = some d) :
    Owed X merged ((s.merge merged u d).to i .applied) := by
  intro _
  refine ⟨d, hd, fun v hv => ?_, .inl ⟨i, ?_⟩⟩
  · simp only [State.to, State.merge, PackDocs.heap_apply_self, List.mem_append] at hv ⊢
    refine hv.imp_left fun hv => ?_
    obtain ⟨e, he, hin, _⟩ := h (List.ne_nil_of_mem hv)
    obtain rfl := Option.some.inj (hd.symm.trans he)
    exact hin v hv
  · rw [State.procs_to_self]
    trivial

/-- A ticket is taken: the last one. -/
theorem Owed.touch (h : Owed X merged s) :
    Owed X merged
      ({ s with docs := s.docs.touch }.to i (.sleeping s.docs.touch.ticket)) := by
  intro hne
  obtain ⟨d, hd, hin, _⟩ := h hne
  refine ⟨d, hd, hin, .inl ⟨i, ?_⟩⟩
  rw [State.procs_to_self]
  exact PackDocs.isCurrent_touch

/-- What the live document says is stored already. -/
theorem shows_of_convert_eq_none {doc : Doc U} {existing : PackConfig}
    (hok : (PackDoc.toConfig X.operatorUid (doc.content merged) existing).isSome)
    (hc : convert X (doc.content merged) existing = none) : Shows X merged doc existing := by
  obtain ⟨cfg, hcfg⟩ := Option.isSome_iff_exists.1 hok
  have heq : mergePulled existing cfg = existing := by
    rw [convert, hcfg, Option.bind_some] at hc
    simp only at hc
    split_ifs at hc with hv
    have hread := congrArg (PackConfig.fromValue X.operatorUid) hv
    rw [PackConfig.fromValue_toValue, PackConfig.fromValue_toValue] at hread
    exact Option.some.inj hread
  refine ⟨existing, cfg, fun _ => .down, hcfg, ?_⟩
  rw [heq, fillNeeded_of_eq rfl rfl, storeEditedConfig, if_neg (by simp)]

/-- The live document is read as it is: what it says will be stored, or is. -/
theorem Owed.convert (ht : Tidy s) (h : Owed X merged s) {d : ℕ} {existing : PackConfig}
    (hi : s.procs i = .loaded d existing)
    (hok : (PackDoc.toConfig X.operatorUid ((s.docs.heap d).content merged) existing).isSome) :
    (∀ c, Smrt.convert X ((s.docs.heap d).content merged) existing = some c →
      Owed X merged (s.to i (.storing .document c.1 c.2))) ∧
    (Smrt.convert X ((s.docs.heap d).content merged) existing = none →
      Owed X merged (s.to i .leaving)) := by
  have hin : InHand s (.loaded d existing) := hi ▸ ht.inHand i
  refine ⟨fun c hc hne => ?_, fun hc hne => ?_⟩
  · obtain ⟨e, he, hall, _⟩ := h hne
    obtain rfl := Option.some.inj (hin.1.symm.trans he)
    refine ⟨d, hin.1, hall, .inr (.inl ⟨i, ?_⟩)⟩
    rw [State.procs_to_self]
    obtain ⟨cfg, hcfg, rfl⟩ := convert_eq_some hc
    exact fun answers => ⟨existing, cfg, answers, hcfg, rfl⟩
  · obtain ⟨e, he, hall, _⟩ := h hne
    obtain rfl := Option.some.inj (hin.1.symm.trans he)
    refine ⟨d, hin.1, hall, .inr (.inr ⟨⟨existing, hin.2, shows_of_convert_eq_none hok hc⟩, ?_⟩)⟩
    exact forall_setAt (P := fun _ (q : Proc U) => ¬ q.Stores)
      (fun j hj hs => ht.lock.not_of_ne (by rw [hi]; trivial) hj hs.holdsLock) id

/-- A config is stored: the live document's if it was read, and otherwise somebody else will
    read the document yet. -/
theorem Owed.save (ht : Tidy s) (h : Owed X merged s) {door : Door} {cfg : PackConfig}
    (hi : s.procs i = .saving door cfg) : Owed X merged ((s.save cfg door).to i .leaving) := by
  have hhold : (s.procs i).HoldsLock := by rw [hi]; trivial
  intro hne
  obtain ⟨d, hd, hall, hc⟩ := h (State.owed_save ▸ hne)
  refine ⟨d, (congrArg PackDocs.live State.docs_save).trans hd, by simpa only [State.to, State.owed_save, State.docs_save], ?_⟩
  have hdoc : ((s.save cfg door).to i .leaving).docs.heap d = s.docs.heap d := by
    rw [State.to, State.docs_save]
  rw [hdoc]
  have hnone : ∀ j, ¬ (((s.save cfg door).to i .leaving).procs j).Stores := fun j hs => by
    by_cases hji : j = i
    · rw [hji, State.procs_to_self] at hs
      exact hs
    · rw [State.procs_to_of_ne _ hji, State.procs_save] at hs
      exact ht.lock.not_of_ne hhold hji hs.holdsLock
  rcases hc with ⟨j, hj⟩ | ⟨j, hj⟩ | ⟨_, hn⟩
  · have hji : j ≠ i := fun hji => by rw [hji, hi] at hj; exact hj
    refine .inl ⟨j, ?_⟩
    rw [State.procs_to_of_ne _ hji, State.procs_save]
    exact hj.congr (congrArg _ State.docs_save)
  · obtain rfl := ht.lock.eq hj.stores.holdsLock hhold
    rw [hi] at hj
    cases door with
    | request => exact hj.elim
    | document => exact .inr (.inr ⟨⟨cfg, State.stored_save, hj⟩, hnone⟩)
  · exact absurd (by rw [hi]; trivial) (hn i)

/-! ## Runs -/

theorem Owed.begin (h : Owed X merged s) {r : Request U} (hs : begin s i r = some s') :
    Owed X merged s' := by
  rw [Live.begin.eq_def] at hs
  split at hs
  · next hp =>
    cases hs
    exact h.aside (by rw [hp]; exact id) (fun _ => by rw [hp]; exact id) id
  · next hp =>
    cases hs
    exact h.aside (by rw [hp]; exact id) (fun _ => by rw [hp]; exact id) id
  · cases hs
    exact .of_nil rfl
  · next hp =>
    cases hs
    exact h.aside (by rw [hp]; exact id) (fun _ => by rw [hp]; exact id) id
  · cases hs

theorem Owed.fail (h : Owed X merged s) (hok : Succeeds X merged s (.fail i))
    (hs : fail s i = some s') : Owed X merged s' := by
  rw [Live.fail.eq_def] at hs
  cases hp : s.procs i <;> simp only [hp, reduceCtorEq] at hs
  case got d => simp only [Succeeds, hp] at hok
  case storing door _ _ =>
    cases door <;> cases hs
    exact h.aside (by rw [hp]; exact id) (fun _ => by rw [hp]; exact id) id
  case saving door _ =>
    cases door
    · cases hs
      exact h.aside (by rw [hp]; exact id) (fun _ => by rw [hp]; exact id) id
    · simp only [Succeeds, hp] at hok
  all_goals
    cases hs
    exact h.aside (by rw [hp]; exact id) (fun _ => by rw [hp]; exact id) id

theorem Owed.next (ht : Tidy s) (h : Owed X merged s) {answers : ℕ → Answers}
    (hsucc : Succeeds X merged s (.next i answers)) (hok : KeepsDocument s (.next i answers))
    (hs : next X merged packId s i answers = some s') : Owed X merged s' := by
  cases hp : s.procs i <;> simp only [Live.next, Succeeds, KeepsDocument, hp] at hs hsucc hok
  case idle => cases hs
  case posting u =>
    split at hs <;> cases hs <;>
      exact h.aside (by rw [hp]; exact id) (fun _ => by rw [hp]; exact id) id
  case missing u =>
    obtain ⟨cfg, _, rfl⟩ := Option.map_eq_some_iff.1 hs
    exact h.aside (by rw [hp]; exact id) (fun _ => by rw [hp]; exact id) id
  case seeding u cfg =>
    cases hs
    cases hl : s.docs.live with
    | some d =>
      rw [PackDocs.getOrSeed_of_live hl]
      exact h.aside (by rw [hp]; exact id) (fun _ => by rw [hp]; exact id) (by cases u <;> exact id)
    | none =>
      -- No document is live, so no update is owed.
      refine .of_nil (of_not_not fun hne => ?_)
      obtain ⟨d, hd, _⟩ := h hne
      cases hl.symm.trans hd
  case holding u d =>
    cases hs
    exact h.merge hok
  case applied =>
    cases hs
    exact h.touch
  case sleeping ticket =>
    cases hs
    refine h.to (fun _ _ hr => ?_) (fun _ hw => by rw [hp] at hw; exact hw.elim) ?_
    · rw [hp] at hr
      rw [if_pos (show s.docs.isCurrent ticket = true from hr)]
      trivial
    · split <;> exact False.elim
  case waiting => exact h.acquire (p := .locked) hs (fun _ => trivial) (by rw [hp]; exact id) id
  case writing w =>
    exact h.acquire (p := .writeLocked w) hs (by rw [hp]; exact id) (by rw [hp]; exact id) id
  case copying cfg =>
    exact h.acquire (p := .copyLocked cfg) hs (by rw [hp]; exact id) (by rw [hp]; exact id) id
  case copyLocked cfg =>
    split at hs
    · next hn =>
      cases hs
      refine .of_nil (of_not_not fun hne => ?_)
      obtain ⟨d, hd, _⟩ := h hne
      exact ht.live (hd ▸ Option.some_ne_none d) hn
    · cases hs
      exact h.aside (by rw [hp]; exact id) (fun _ => by rw [hp]; exact id) id
  case locked =>
    split at hs
    · cases hs
      exact h.to (fun _ _ _ => trivial) (fun _ hw => by rw [hp] at hw; exact hw.elim) False.elim
    · next hl =>
      cases hs
      refine h.to (fun d hd _ => ?_) (fun _ hw => by rw [hp] at hw; exact hw.elim) False.elim
      cases hl.symm.trans hd
  case got d =>
    obtain ⟨existing, _, rfl⟩ := Option.map_eq_some_iff.1 hs
    exact h.to (fun _ _ _ => trivial) (fun _ hw => by rw [hp] at hw; exact hw.elim) False.elim
  case loaded d existing =>
    obtain ⟨hsome, hnone⟩ := h.convert ht hp hsucc
    split at hs
    · next c hc =>
      cases hs
      exact hsome c hc
    · next hc =>
      cases hs
      exact hnone hc
  case writeLocked w =>
    split at hs <;> cases hs <;>
      exact h.aside (by rw [hp]; exact id) (fun _ => by rw [hp]; exact id) id
  case settled cfg fill =>
    cases hs
    exact .of_nil hok
  case storing door cfg fill =>
    cases hs
    refine h.to (fun _ _ hr => by rw [hp] at hr; exact hr.elim) (fun doc hw => ?_)
      fun _ => by rw [hp]; trivial
    rw [hp] at hw
    cases door with
    | request => exact hw
    | document => exact hw answers
  case saving door cfg =>
    cases hs
    exact h.save ht hp
  case leaving =>
    cases hs
    exact h.frame rfl rfl rfl rfl (fun _ _ hr => by rw [hp] at hr; exact hr.elim)
      (fun _ hw => by rw [hp] at hw; exact hw.elim) False.elim

/-- In every run in which updates are merged into the live document, and a write forgets the
    document only if none was merged since it began, no accepted edit is lost, if whoever
    writes a document succeeds. -/
theorem system_noneLost
    (h : (system X merged packId).Reach
      (fun s a => Succeeds X merged s a ∧ KeepsDocument s a) s) :
    NoneLost X merged s := by
  have hs : Owed X merged s := by
    refine h.invariant_of (Q := Tidy) (fun t ht => tidy (ht.mono fun _ _ _ => trivial))
      (fun t ht => .of_nil ht.owed) fun t a t' htidy ht hok hst => ?_
    cases a with
    | begin i r => exact ht.begin hst
    | next i answers => exact ht.next htidy hok.1 hok.2 hst
    | fail i => exact ht.fail hok.1 hst
  intro hquiet u hu
  obtain ⟨d, _, hall, hc⟩ := hs (List.ne_nil_of_mem hu)
  rcases hc with ⟨i, hi⟩ | ⟨i, hi⟩ | ⟨⟨c, hc, hshow⟩, _⟩
  · exact absurd hi.materialising (hquiet i)
  · exact absurd hi.materialising (hquiet i)
  · exact ⟨d, c, hall u hu, hc, hshow⟩

/-- An update of the tagline. -/
def factory : String × Json := ("tagline", .str "Factory")

/-- The update is posted, with nobody else there, and written. -/
theorem system_noneLost_post :
    ∃ s : State (String × Json), s.owed = [factory] ∧ (∀ i, ¬ (s.procs i).Materialising) ∧
      NoneLost .none writeMembers s := by
  have h₀ : (system .none writeMembers "Industrial").Reach
      (fun s a => Succeeds .none writeMembers s a ∧ KeepsDocument s a)
      (start (.empty "Industrial")) := .init (init_start _)
  let go : Act (String × Json) := .next 0 fun _ => .down
  have posting := h₀.step (a := .begin 0 (.post factory)) (by exact ⟨trivial, trivial⟩) rfl
  have missing := posting.step (a := go) (by exact ⟨trivial, trivial⟩) rfl
  have seeding := missing.step (a := go) (by exact ⟨trivial, trivial⟩) rfl
  have holding := seeding.step (a := go) (by exact ⟨trivial, trivial⟩) rfl
  have applied := holding.step (a := go) (by exact ⟨trivial, rfl⟩) rfl
  have sleeping := applied.step (a := go) (by exact ⟨trivial, trivial⟩) rfl
  have waiting := sleeping.step (a := go) (by exact ⟨trivial, trivial⟩) rfl
  have locked := waiting.step (a := go) (by exact ⟨trivial, trivial⟩) rfl
  have got := locked.step (a := go) (by exact ⟨trivial, trivial⟩) rfl
  have loaded := got.step (a := go) (by exact ⟨trivial, trivial⟩) rfl
  have storing := loaded.step (a := go) (by exact ⟨rfl, trivial⟩) rfl
  have saving := storing.step (a := go) (by exact ⟨trivial, trivial⟩) rfl
  have leaving := saving.step (a := go) (by exact ⟨trivial, trivial⟩) rfl
  exact ⟨_, rfl, fun | 0 => id | _ + 1 => id, system_noneLost leaving⟩

/-- Party 1 posts the update, and has the document in hand when party 2 puts the pack with
    another tagline. -/
def lateEdit : List (Act (String × Json)) :=
  let go := fun i => Act.next i fun _ => .down
  [.begin 0 .join, go 0, go 0, .begin 1 (.post factory), go 1, .begin 2 (.write putRetitled), go 2,
    go 2, go 2, go 2, go 2, go 2, go 1, go 1, go 1, go 1, go 1, go 1]

/-- The update was merged after the put, and is lost. -/
theorem system_lost :
    ∃ s, (system .none writeMembers "Industrial").Reachable s ∧ s.owed = [factory] ∧
      (∀ i, ¬ (s.procs i).Materialising) ∧ s.stored = some retitled ∧
      ¬ NoneLost .none writeMembers s := by
  have hrun : ∃ s, (system .none writeMembers "Industrial").run (start (.empty "Industrial"))
      lateEdit = some s ∧ s.owed = [factory] ∧ (∀ i, ¬ (s.procs i).Materialising) ∧
      s.stored = some retitled ∧ s.docs.heap 0 = ⟨.empty "Industrial", [factory]⟩ ∧
      ∀ d, (s.docs.heap (d + 1)).applied = [] :=
    ⟨_, rfl, rfl, fun | 0 | 1 | 2 => id | _ + 3 => id, rfl, rfl, fun _ => rfl⟩
  obtain ⟨s, hs, howed, hquiet, hstored, hdoc, hothers⟩ := hrun
  have h₀ : (system .none writeMembers "Industrial").Reachable (start (.empty "Industrial")) :=
    .init (init_start _)
  refine ⟨s, h₀.run hs, howed, hquiet, hstored, fun h => ?_⟩
  obtain ⟨d, c, hin, hc, base, cfg, answers, hcfg, rfl⟩ :=
    h hquiet factory (by rw [howed]; exact List.mem_cons_self)
  cases d with
  | succ d =>
    rw [hothers d] at hin
    cases hin
  | zero =>
    -- What the document says has its tagline, and the stored config has the other one.
    have htag : cfg.tagline = "Factory" := by
      have ht := (PackDoc.toConfig_eq_some.1 hcfg).1.tagline
      rw [hdoc] at ht
      exact (Option.some.inj ht).symm
    have hstored' := congrArg (Option.map fun c => c.tagline) (hstored.symm.trans hc)
    rw [Option.map_some, sameButMods_storeEditedConfig answers _, Option.map_some] at hstored'
    exact absurd ((Option.some.inj hstored').trans htag) (by decide)

end Smrt.Live
