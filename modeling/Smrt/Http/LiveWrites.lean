import Smrt.Http.Live

/-!
# Whole-config writes are not undone

Once a whole-config write has stored its config, the document may change it only where an
update posted since touched it (`NotUndone`). That is so as long as every document is seeded
from the config stored then, and not between the moment a write forgets the document and the
moment it stores (`SeedsFresh`): `system_notUndone`.

Nothing sees to that. The config is read without the lock, by editors that join, and one who
reads it before a write stores and asks for the document after the write has forgotten it
seeds a document from the config that is being replaced (`system_undone`).
-/

namespace Smrt.Live

open Json (Members)

variable {U : Type} {X : Outside} {merged : Members → List U → Members} {packId : String}
  {s s' : State U} {i : ℕ}

/-- The stored config differs from the one last written as a whole only in what the updates
    posted since touched. -/
def NotUndone (s : State U) : Prop :=
  ∀ written, s.written = some written → ∃ stored, s.stored = some stored ∧
    Kept s.edits written stored

/-- A whole-config write has forgotten the document and not stored yet. -/
def Proc.Replacing : Proc U → Prop
  | storing .request _ _ | saving .request _ => True
  | _ => False

/-- A document that is made is made from the config stored then, and no write is between
    forgetting the document and storing. -/
def SeedsFresh (s : State U) : Act U → Prop
  | .next i _ => ∀ u cfg, s.procs i = .seeding u cfg → s.docs.live = none →
      s.stored = some cfg ∧ ∀ j, ¬ (s.procs j).Replacing
  | _ => True

/-! ## The invariant -/

/-- What a party is about to store was not undone, and while a write replaces the config
    there is no document. -/
def InFlight (s : State U) : Proc U → Prop
  | .storing .request _ _ | .saving .request _ => s.docs.live = none
  | .storing .document cfg fill =>
    ∃ w, s.written = some w ∧ ∀ answers, Kept s.edits w (storeEditedConfig answers cfg fill)
  | .saving .document cfg => ∃ w, s.written = some w ∧ Kept s.edits w cfg
  | _ => True

/-- The stored config was not undone, nor does the live document or a party undo it. -/
structure Safe (merged : Members → List U → Members) (s : State U) : Prop where
  stored (c : PackConfig) : s.stored = some c → ∃ w, s.written = some w ∧ Kept s.edits w c
  written (w : PackConfig) : s.written = some w → ∃ c, s.stored = some c
  live (d : ℕ) : s.docs.live = some d → ∃ w, s.written = some w ∧
    Kept s.edits w (s.docs.heap d).seed ∧
      Follows s.edits (s.docs.heap d).seed ((s.docs.heap d).content merged)
  procs (i : ℕ) : InFlight s (s.procs i)

theorem inFlight_of_not_holdsLock {p : Proc U} (h : ¬ p.HoldsLock) : InFlight s p := by
  cases p <;> first | trivial | exact absurd trivial h

/-- What stays of what a party is about to store: no document is made, and the edits only
    get more. -/
theorem InFlight.mono {p : Proc U} (h : InFlight s p)
    (hlive : p.Replacing → s.docs.live = none → s'.docs.live = none)
    (hwritten : s'.written = s.written)
    (hkept : ∀ w c, Kept s.edits w c → Kept s'.edits w c) : InFlight s' p := by
  cases p with
  | storing door => cases door with
    | request => exact hlive trivial h
    | document => exact h.imp fun w hw => ⟨hwritten.trans hw.1, fun a => hkept _ _ (hw.2 a)⟩
  | saving door => cases door with
    | request => exact hlive trivial h
    | document => exact h.imp fun w hw => ⟨hwritten.trans hw.1, hkept _ _ hw.2⟩
  | _ => trivial

/-- A party moves, and what is stored, the documents and the edits stay. -/
theorem Safe.frame (h : Safe merged s) {p : Proc U} (hprocs : s'.procs = setAt s.procs i p)
    (hstored : s'.stored = s.stored) (hwritten : s'.written = s.written)
    (hedits : s'.edits = s.edits) (hlive : s'.docs.live = s.docs.live)
    (hheap : s'.docs.heap = s.docs.heap) (hp : InFlight s p) : Safe merged s' := by
  have hin {q : Proc U} (hq : InFlight s q) : InFlight s' q :=
    hq.mono (fun _ => hlive.trans) hwritten fun _ _ hk => hedits ▸ hk
  refine ⟨?_, ?_, ?_, fun j => ?_⟩
  · rw [hstored, hwritten, hedits]
    exact h.stored
  · rw [hstored, hwritten]
    exact h.written
  · rw [hlive, hheap, hwritten, hedits]
    exact h.live
  · rw [hprocs]
    exact forall_setAt (P := fun _ q => InFlight s' q) (fun j _ => hin (h.procs j)) (hin hp) j

theorem Safe.to (h : Safe merged s) {p : Proc U} (hp : InFlight s p) : Safe merged (s.to i p) :=
  h.frame rfl rfl rfl rfl rfl rfl hp

theorem Safe.acquire (h : Safe merged s) {p : Proc U} (hp : InFlight s p)
    (ha : s.acquire i p = some s') : Safe merged s' := by
  rw [State.acquire] at ha
  split_ifs at ha
  obtain rfl := Option.some.inj ha
  exact h.frame rfl rfl rfl rfl rfl rfl hp

/-- A document is seeded from the stored config, while nobody replaces it. -/
theorem Safe.seed (hm : ∀ o, merged o [] = o) (h : Safe merged s) {cfg : PackConfig}
    (hok : s.docs.live = none → s.stored = some cfg ∧ ∀ j, ¬ (s.procs j).Replacing)
    {p : Proc U} (hp : ∀ s, InFlight s p) :
    Safe merged ({ s with docs := (s.docs.getOrSeed cfg).1 }.to i p) := by
  cases hl : s.docs.live with
  | some d =>
    rw [PackDocs.getOrSeed_of_live hl]
    exact h.to (hp s)
  | none =>
    obtain ⟨hcfg, hj⟩ := hok hl
    obtain ⟨w, hw, hk⟩ := h.stored cfg hcfg
    rw [PackDocs.getOrSeed_of_none hl]
    refine ⟨h.stored, h.written, fun d hd => ⟨w, hw, ?_⟩, fun j => ?_⟩
    · obtain rfl := Option.some.inj hd
      simp only [State.to, setAt_self, Doc.content, hm]
      exact ⟨hk, fun _ _ => rfl⟩
    · refine forall_setAt (P := fun _ q => InFlight _ q) (fun j _ => ?_) (hp _) j
      exact (h.procs j).mono (fun hr => absurd hr (hj j)) rfl fun _ _ => id

/-- An update is merged into a document: what it changes there is touched. -/
theorem Safe.merge (h : Safe merged s) {u : U} {d : ℕ} {p : Proc U} (hp : ∀ s, InFlight s p) :
    Safe merged ((s.merge merged u d).to i p) := by
  refine ⟨fun c hc => ?_, h.written, fun e he => ?_, fun j => ?_⟩
  · obtain ⟨w, hw, hk⟩ := h.stored c hc
    exact ⟨w, hw, hk.mono _⟩
  · obtain ⟨w, hw, hk, hf⟩ := h.live e he
    refine ⟨w, hw, ?_⟩
    by_cases hed : e = d
    · subst hed
      simp only [State.to, State.merge, PackDocs.heap_apply_self]
      exact ⟨hk.mono _, hf.edit⟩
    · simp only [State.to, State.merge, PackDocs.heap_apply_of_ne hed]
      exact ⟨hk.mono _, hf.mono _⟩
  · refine forall_setAt (P := fun _ q => InFlight _ q) (fun j _ => ?_) (hp _) j
    exact (h.procs j).mono (fun _ => id) rfl fun _ _ hk => hk.mono _

/-- A write forgets the document, under the lock. -/
theorem Safe.forget (ht : Tidy s) (h : Safe merged s) (hi : (s.procs i).HoldsLock)
    {cfg : PackConfig} {fill : Bool} :
    Safe merged ({ s with docs := s.docs.forget }.to i (.storing .request cfg fill)) := by
  refine ⟨h.stored, h.written, fun d hd => (nomatch hd), fun j => ?_⟩
  refine forall_setAt (P := fun _ q => InFlight _ q)
    (fun j hj => inFlight_of_not_holdsLock (ht.lock.not_of_ne hi hj)) ?_ j
  exact PackDocs.live_forget

/-- A config is stored, under the lock. -/
theorem Safe.save (ht : Tidy s) (h : Safe merged s) {door : Door} {cfg : PackConfig}
    (hi : s.procs i = .saving door cfg) : Safe merged ((s.save cfg door).to i .leaving) := by
  have hin := h.procs i
  rw [hi] at hin
  have hothers {t : State U} (j : ℕ) :
      InFlight t (setAt s.procs i (Proc.leaving : Proc U) j) :=
    forall_setAt (P := fun _ q => InFlight t q)
      (fun j hj => inFlight_of_not_holdsLock (ht.lock.not_of_ne (by rw [hi]; trivial) hj))
      (show InFlight t .leaving from trivial) j
  cases door with
  | request =>
    refine ⟨fun c hc => ⟨cfg, rfl, ?_⟩, fun w _ => ⟨cfg, rfl⟩, fun d hd => ?_, hothers⟩
    · obtain rfl := Option.some.inj hc
      exact .refl _ _
    · -- The write forgot the document, and nobody has made another.
      exact nomatch (show s.docs.live = none from hin).symm.trans hd
  | document =>
    obtain ⟨w, hw, hk⟩ := hin
    refine ⟨fun c hc => ⟨w, hw, ?_⟩, fun w _ => ⟨cfg, rfl⟩, h.live, hothers⟩
    exact Option.some.inj hc ▸ hk

/-- What the live document makes of the stored config is not undone. -/
theorem Safe.convert (ht : Tidy s) (h : Safe merged s) {d : ℕ} {existing : PackConfig}
    (hi : s.procs i = .loaded d existing) {c : PackConfig × Bool}
    (hc : Smrt.convert X ((s.docs.heap d).content merged) existing = some c) :
    InFlight s (.storing .document c.1 c.2) := by
  have hin : InHand s (.loaded d existing) := hi ▸ ht.inHand i
  obtain ⟨cfg, hcfg, rfl⟩ := convert_eq_some hc
  obtain ⟨w, hw, hseed, hf⟩ := h.live d hin.1
  obtain ⟨w', hw', hbase⟩ := h.stored existing hin.2
  obtain rfl := Option.some.inj (hw.symm.trans hw')
  exact ⟨w, hw, fun answers => hseed.materialise hbase hf hcfg⟩

/-! ## Runs -/

theorem Safe.begin (h : Safe merged s) {r : Request U} (hs : begin s i r = some s') :
    Safe merged s' := by
  rw [Live.begin.eq_def] at hs
  split at hs <;> cases hs
  all_goals exact h.frame rfl rfl rfl rfl rfl rfl trivial

theorem Safe.fail (h : Safe merged s) (hs : fail s i = some s') : Safe merged s' := by
  rw [Live.fail.eq_def] at hs
  split at hs <;> cases hs
  all_goals exact h.to trivial

theorem Safe.next (hm : ∀ o, merged o [] = o) (ht : Tidy s) (h : Safe merged s)
    {answers : ℕ → Answers} (hok : SeedsFresh s (.next i answers))
    (hs : next X merged packId s i answers = some s') : Safe merged s' := by
  cases hp : s.procs i <;> rw [Live.next, hp] at hs <;> simp only at hs
  case idle => cases hs
  case posting u => split at hs <;> cases hs <;> exact h.to trivial
  case missing u =>
    obtain ⟨cfg, _, rfl⟩ := Option.map_eq_some_iff.1 hs
    exact h.to trivial
  case seeding u cfg =>
    cases hs
    exact h.seed hm (hok u cfg hp) (by cases u <;> exact fun _ => trivial)
  case holding u d =>
    cases hs
    exact h.merge fun _ => trivial
  case applied =>
    cases hs
    exact h.frame rfl rfl rfl rfl rfl rfl trivial
  case sleeping ticket =>
    cases hs
    split <;> exact h.to trivial
  case waiting => exact h.acquire (p := .locked) trivial hs
  case writing w => exact h.acquire (p := .writeLocked w) trivial hs
  case copying cfg => exact h.acquire (p := .copyLocked cfg) trivial hs
  case copyLocked cfg =>
    split at hs
    · next hn =>
      cases hs
      -- No config is stored, so there is no document.
      exact h.to (show s.docs.live = none from of_not_not fun hl => ht.live hl hn)
    · cases hs
      exact h.to trivial
  case locked => split at hs <;> cases hs <;> exact h.to trivial
  case got d =>
    obtain ⟨existing, _, rfl⟩ := Option.map_eq_some_iff.1 hs
    exact h.to trivial
  case loaded d existing =>
    split at hs <;> cases hs
    · next c hc => exact h.to (h.convert ht hp hc)
    · exact h.to trivial
  case writeLocked w => split at hs <;> cases hs <;> exact h.to trivial
  case settled cfg fill =>
    cases hs
    exact h.forget ht (by rw [hp]; trivial)
  case storing door cfg fill =>
    cases hs
    have hin := h.procs i
    rw [hp] at hin
    cases door with
    | request => exact h.to hin
    | document => exact h.to (hin.imp fun w hw => ⟨hw.1, hw.2 answers⟩)
  case saving door cfg =>
    cases hs
    exact h.save ht hp
  case leaving =>
    cases hs
    exact h.frame rfl rfl rfl rfl rfl rfl trivial

/-- Party 0 joins, and reads the config before party 1 puts another one; it asks for the
    document after the put has forgotten it, and before it stores. Then party 2 posts an
    update of something else, and writes the document. -/
def lateJoin : List (Act (String × Json)) :=
  let go := fun i => Act.next i fun _ => .down
  [.begin 0 .join, go 0, .begin 1 (.write putRetitled), go 1, go 1, go 1, go 1, go 0, go 1, go 1,
    .begin 2 (.post ("featured", .bool true)), go 2, go 2, go 2, go 2, go 2, go 2, go 2, go 2,
    go 2, go 2]

end Smrt.Live
