import Smrt.Http.Writers

/-!
# Publishing

Whether a pack is published stands in its card, which the listings filter on, in its config,
and in every snapshot of the config that was ever committed. It is set in the first two
(`set_pack_visibility`), one after the other, and a build writes the card anew from the
config it was given, the stored one or a snapshot (`run_build`).

A pack is a system of the parties that set the visibility, write the config, commit and
build; a step of a party is what it does between two accesses of a file. No step fails.
`want` is history only: the visibility that was set last, or the one the pack was created
with.

The card shows the visibility that was set last, or the one being set (`Sticks`), as long
as (`InStep`)

* a build that writes the card carries the visibility of the stored config, and no party is
  halfway through setting one;
* a party sets the visibility of the card only if no other one is halfway;
* a snapshot or a build that is put back carries the visibility of the stored config:

`system_sticks`. A build of a snapshot committed before the pack was unpublished publishes
it again (`system_unstuck`).
-/

namespace Smrt

/-- A write that puts back a snapshot or a build puts back one with the visibility that is
    stored. -/
def Write.KeepsVisibility (stored : PackConfig) : Write → Prop
  | revert _ summary => summary.visibility = stored.visibility
  | restore snapshot => snapshot.visibility = stored.visibility
  | put _ _ | materialise _ _ | spoof => True

/-- Whether a write is recorded as a commit. -/
def Write.checkpoints : Write → Bool
  | revert _ _ | restore _ => true
  | put _ _ | materialise _ _ | spoof => false

theorem Write.visibility_of_apply {X : Outside} {packId : String} {stored stored' : PackConfig}
    {w : Write} (h : w.apply X packId stored = some stored') (hw : w.KeepsVisibility stored) :
    stored'.visibility = stored.visibility := by
  cases w with
  | put req answers =>
    exact congrArg ServerOwned.visibility ((serverOwned_iff h).2 trivial)
  | materialise content answers =>
    obtain ⟨cfg, fill, hcfg, rfl⟩ := materialise_eq_some h
    rw [sameButMods_storeEditedConfig answers fill]
    exact (PackDoc.toConfig_eq_some.1 hcfg).2.2.2.1
  | revert manifest summary =>
    obtain rfl := Option.some.inj h
    exact hw
  | restore snapshot =>
    obtain rfl := Option.some.inj h
    exact hw
  | spoof =>
    obtain rfl := Option.some.inj h
    rfl

namespace Publish

/-! ## States -/

/-- Where a party is. -/
inductive Proc
  | idle
  /-- Sets the visibility: reads the card. -/
  | toggling (v : Visibility)
  /-- Has read the card: writes it. -/
  | patching (v : Visibility) (summary : PackSummary)
  /-- Is done with the card, if there was one: waits for the lock of the config. -/
  | patched (v : Visibility) (found : Bool)
  | toggleLocked (v : Visibility) (found : Bool)
  /-- Has read the config: writes it. -/
  | configuring (v : Visibility) (found : Bool) (cfg : Option PackConfig)
  /-- Writes the config: waits for its lock. -/
  | writing (w : Write)
  | writeLocked (w : Write)
  | saving (cfg : PackConfig) (checkpoint : Bool)
  /-- Commits: waits for the lock. -/
  | committing
  | commitLocked
  | snapshotting (cfg : PackConfig)
  /-- Gives the lock back. -/
  | leaving
  /-- Builds the stored config, or that of a commit. -/
  | building (commit : Option ℕ) (packVersion : String)
  /-- Has built: writes the card. -/
  | built (summary : PackSummary)

/-- Whether the lock is held there. -/
def Proc.HoldsLock : Proc → Prop
  | toggleLocked _ _ | configuring _ _ _ | writeLocked _ | saving _ _ | commitLocked
  | snapshotting _ | leaving => True
  | _ => False

/-- The visibility that a party has set in the card, and not in the config yet. -/
def Proc.halfway : Proc → Option Visibility
  | patched v _ | toggleLocked v _ | configuring v _ _ => some v
  | _ => none

/-- A pack: its config, its card, the snapshots of its commits, who holds the lock of the
    config, and its parties; then the history. -/
structure State where
  config : Option PackConfig
  summary : Option PackSummary
  commits : List PackConfig
  lock : Option ℕ
  procs : ℕ → Proc
  want : Visibility

/-- What a party begins. -/
inductive Request
  | setVisibility (v : Visibility)
  | write (w : Write)
  | commit
  | build (commit : Option ℕ) (packVersion : String)

/-- What happens: a party begins, or goes on. -/
inductive Act
  | begin (i : ℕ) (r : Request)
  | next (i : ℕ)

/-! ## Steps -/

section Step

variable (X : Outside) (packId : String) (s : State) (i : ℕ)

/-- A party moves. -/
def State.to (p : Proc) : State := { s with procs := setAt s.procs i p }

/-- A party takes the lock, once nobody has it. -/
def State.acquire (p : Proc) : Option State :=
  if s.lock = none then some { s with lock := some i, procs := setAt s.procs i p } else none

/-- A card is written where it says it is. -/
def State.writeCard (summary : PackSummary) : State :=
  if summary.packId = packId then { s with summary := some summary } else s

/-- The config a write makes of the stored one, if there is one. -/
def settle (stored : Option PackConfig) (w : Write) : Option PackConfig :=
  match stored, w with
  | some stored, w => w.apply X packId stored
  | none, .put req answers => (putPackConfig X packId answers none req).toOption
  | none, .revert manifest summary => some (revertPackConfig X manifest summary)
  | none, .restore snapshot => some (restoreCommit snapshot)
  | none, _ => none

/-- A party begins a request. -/
def begin (r : Request) : Option State :=
  match s.procs i, r with
  | .idle, .setVisibility v => some (s.to i (.toggling v))
  | .idle, .write w => some (s.to i (.writing w))
  | .idle, .commit => some (s.to i .committing)
  | .idle, .build commit packVersion => some (s.to i (.building commit packVersion))
  | _, _ => none

/-- A party goes on. -/
def next : Option State :=
  match s.procs i with
  | .idle => none
  | .toggling v => match s.summary with
    | some summary => some (s.to i (.patching v summary))
    | none => some (s.to i (.patched v false))
  | .patching v summary =>
    some ((s.writeCard packId { summary with visibility := v }).to i (.patched v true))
  | .patched v found => s.acquire i (.toggleLocked v found)
  | .toggleLocked v found => some (s.to i (.configuring v found s.config))
  | .configuring v found cfg => match cfg with
    | some cfg =>
      some ({ s with config := some { cfg with visibility := v }, want := v }.to i .leaving)
    | none => some ({ s with want := if found then v else s.want }.to i .leaving)
  | .writing w => s.acquire i (.writeLocked w)
  | .writeLocked w => match settle X packId s.config w with
    | some cfg => some (s.to i (.saving cfg w.checkpoints))
    | none => some (s.to i .leaving)
  | .saving cfg checkpoint =>
    some ({ s with
      config := some cfg
      want := if s.config = none then cfg.visibility else s.want }.to i
        (if checkpoint then .snapshotting cfg else .leaving))
  | .committing => s.acquire i .commitLocked
  | .commitLocked => s.config.map fun cfg => s.to i (.snapshotting cfg)
  | .snapshotting cfg => some ({ s with commits := s.commits ++ [cfg] }.to i .leaving)
  | .leaving => some ({ s with lock := none }.to i .idle)
  | .building commit packVersion =>
    (match commit with
      | some commit => s.commits[commit]?
      | none => s.config).map fun cfg => s.to i (.built (makePackSummary cfg packVersion))
  | .built summary => some ((s.writeCard packId summary).to i .idle)

/-- What an action does. -/
def step : Act → Option State
  | .begin i r => begin s i r
  | .next i => next X packId s i

end Step

/-- The pack is not there yet. -/
structure Init (s : State) : Prop where
  config : s.config = none
  summary : s.summary = none
  lock : s.lock = none
  procs (i : ℕ) : s.procs i = .idle

/-- A pack that is published and unpublished. -/
def system (X : Outside) (packId : String) : System State Act where
  init := Init
  step := step X packId

/-! ## What sticks -/

/-- The card shows the visibility that was set last, or the one being set. -/
def Sticks (s : State) : Prop :=
  ∀ summary, s.summary = some summary →
    summary.visibility = s.want ∨ ∃ i, (s.procs i).halfway = some summary.visibility

/-- Nobody is halfway through setting the visibility. -/
def Settled (s : State) : Prop := ∀ i, (s.procs i).halfway = none

/-- Nobody sets the visibility of the card while another one is halfway; a build that writes
    the card carries the visibility of the stored config, and nobody is halfway; and what is
    put back carries the visibility of the stored config. -/
def InStep (packId : String) (s : State) : Act → Prop
  | .next i => match s.procs i with
    | .toggling _ => s.summary = none → Settled s
    | .patching _ _ => Settled s
    | .writeLocked w => ∀ stored, s.config = some stored → w.KeepsVisibility stored
    | .built summary => summary.packId = packId →
      Settled s ∧ s.config.map (fun c => c.visibility) = some summary.visibility
    | _ => True
  | .begin _ _ => True

section Invariant

variable {X : Outside} {packId : String} {s s' : State} {i : ℕ}

/-- What a party has in hand agrees with what is stored. -/
def InHand (packId : String) (s : State) : Proc → Prop
  | .patching _ summary => summary.packId = packId ∧ s.config ≠ none
  | .patched _ found | .toggleLocked _ found => found = false → s.summary = none
  | .configuring _ found cfg => (found = false → s.summary = none) ∧ s.config = cfg
  | .saving cfg _ => ∀ stored, s.config = some stored → cfg.visibility = stored.visibility
  | _ => True

/-- The config has the visibility that was set last; so does the card, or the one that a
    party, the only one that is halfway, is setting. -/
structure Inv (packId : String) (s : State) : Prop where
  lock : Exclusive Proc.HoldsLock s.lock s.procs
  config (c : PackConfig) : s.config = some c → c.visibility = s.want
  fresh : s.config = none → s.summary = none
  card (summary : PackSummary) : s.summary = some summary → summary.packId = packId
  settled : Settled s → ∀ summary, s.summary = some summary → summary.visibility = s.want
  halfway (i : ℕ) (v : Visibility) : (s.procs i).halfway = some v →
    (∀ summary, s.summary = some summary → summary.visibility = v) ∧
      ∀ j, j ≠ i → (s.procs j).halfway = none
  inHand (i : ℕ) : InHand packId s (s.procs i)

theorem Inv.sticks (h : Inv packId s) : Sticks s := by
  intro summary hs
  by_cases hset : Settled s
  · exact .inl (h.settled hset summary hs)
  · obtain ⟨i, hi⟩ := not_forall.1 hset
    obtain ⟨v, hv⟩ := Option.ne_none_iff_exists'.1 hi
    exact .inr ⟨i, (h.halfway i v hv).1 summary hs ▸ hv⟩

@[simp] theorem State.procs_to_self (s : State) (i : ℕ) (p : Proc) : (s.to i p).procs i = p :=
  setAt_self ..

theorem State.procs_to_of_ne (s : State) {i j : ℕ} (h : j ≠ i) (p : Proc) :
    (s.to i p).procs j = s.procs j := setAt_of_ne _ _ h

/-- What others have in hand still agrees, if the config changes under the lock only, and a
    card appears only when nobody is halfway. -/
theorem InHand.mono {p : Proc} (h : InHand packId s p)
    (hconfig : p.HoldsLock → s'.config = s.config) (hthere : s.config ≠ none → s'.config ≠ none)
    (hsummary : p.halfway ≠ none → s.summary = none → s'.summary = none) :
    InHand packId s' p := by
  cases p with
  | patching => exact ⟨h.1, hthere h.2⟩
  | patched | toggleLocked => exact fun hf => hsummary (Option.some_ne_none _) (h hf)
  | configuring =>
    exact ⟨fun hf => hsummary (Option.some_ne_none _) (h.1 hf), (hconfig trivial).trans h.2⟩
  | saving => exact fun stored hs => h stored (hconfig trivial ▸ hs)
  | _ => trivial

theorem inHand_setAt {p : Proc} (hprocs : s'.procs = setAt s.procs i p)
    (h : ∀ j, j ≠ i → InHand packId s' (s.procs j)) (hp : InHand packId s' p) (j : ℕ) :
    InHand packId s' (s'.procs j) := by
  rw [hprocs]
  exact forall_setAt (P := fun _ q => InHand packId s' q) h hp j

/-- A party moves, and is halfway as much as it was. -/
theorem Inv.frame (h : Inv packId s) {p : Proc} (hprocs : s'.procs = setAt s.procs i p)
    (hconfig : s'.config = s.config) (hsummary : s'.summary = s.summary) (hwant : s'.want = s.want)
    (hlock : Exclusive Proc.HoldsLock s'.lock s'.procs) (hhalf : p.halfway = (s.procs i).halfway)
    (hp : InHand packId s p) : Inv packId s' := by
  have hhalf' (j : ℕ) : (s'.procs j).halfway = (s.procs j).halfway := by
    rw [hprocs]
    by_cases hj : j = i
    · rw [hj, setAt_self, hhalf]
    · rw [setAt_of_ne _ _ hj]
  have hin {q : Proc} (hq : InHand packId s q) : InHand packId s' q :=
    hq.mono (fun _ => hconfig) (fun hc => hconfig ▸ hc) fun _ hs => hsummary.trans hs
  refine ⟨hlock, ?_, ?_, ?_, fun hset => ?_, fun j v => ?_,
    inHand_setAt hprocs (fun j _ => hin (h.inHand j)) (hin hp)⟩
  · rw [hconfig, hwant]
    exact h.config
  · rw [hconfig, hsummary]
    exact h.fresh
  · rw [hsummary]
    exact h.card
  · rw [hsummary, hwant]
    exact h.settled fun j => (hhalf' j).symm.trans (hset j)
  · rw [hhalf', hsummary]
    exact fun hv => (h.halfway j v hv).imp_right fun ho k hk => (hhalf' k).trans (ho k hk)

theorem Inv.to (h : Inv packId s) {p : Proc} (hl : p.HoldsLock → (s.procs i).HoldsLock)
    (hhalf : p.halfway = (s.procs i).halfway) (hp : InHand packId s p) : Inv packId (s.to i p) :=
  h.frame rfl rfl rfl rfl (h.lock.keep hl) hhalf hp

theorem Inv.acquire (h : Inv packId s) {p : Proc} (hhalf : p.halfway = (s.procs i).halfway)
    (hp : InHand packId s p) (ha : s.acquire i p = some s') : Inv packId s' := by
  rw [State.acquire] at ha
  split_ifs at ha with hn
  obtain rfl := Option.some.inj ha
  exact h.frame rfl rfl rfl rfl (hn ▸ h.lock).acquire hhalf hp

/-- A party is done with the card, and nobody else was halfway. -/
theorem Inv.patch (h : Inv packId s) (hset : Settled s) {v : Visibility} {found : Bool}
    (hprocs : s'.procs = setAt s.procs i (.patched v found)) (hlock : s'.lock = s.lock)
    (hconfig : s'.config = s.config) (hwant : s'.want = s.want)
    (hthere : s.config = none → s'.summary = none)
    (hcard : ∀ summary, s'.summary = some summary →
      summary.packId = packId ∧ summary.visibility = v)
    (hfound : found = false → s'.summary = none) : Inv packId s' := by
  have hothers (j : ℕ) (hj : j ≠ i) : (s'.procs j).halfway = none := by
    rw [hprocs, setAt_of_ne _ _ hj]
    exact hset j
  refine ⟨?_, ?_, fun hc => hthere (hconfig ▸ hc), fun _ hs => (hcard _ hs).1, fun hn => ?_,
    fun j w hw => ?_, inHand_setAt hprocs (fun j _ => ?_) hfound⟩
  · rw [hprocs, hlock]
    exact h.lock.keep False.elim
  · rw [hconfig, hwant]
    exact h.config
  · have hi := hn i
    rw [hprocs, setAt_self] at hi
    cases hi
  · by_cases hj : j = i
    · subst hj
      rw [hprocs, setAt_self] at hw
      obtain rfl := Option.some.inj hw
      exact ⟨fun _ hs => (hcard _ hs).2, hothers⟩
    · rw [hothers j hj] at hw
      cases hw
  · exact (h.inHand j).mono (fun _ => hconfig) (fun hc => hconfig ▸ hc)
      fun hh => absurd (hset j) hh

/-- A party sets the visibility of the config, and is not halfway any more. -/
theorem Inv.configure (h : Inv packId s) {v w : Visibility} {found : Bool}
    {cfg : Option PackConfig} (hi : s.procs i = .configuring v found cfg)
    (hw : cfg.isSome ∨ found = true → w = v) :
    Inv packId ({ s with
      config := cfg.map fun c : PackConfig => { c with visibility := v }
      want := w }.to i .leaving) := by
  obtain ⟨hfound, hcfg⟩ : (found = false → s.summary = none) ∧ s.config = cfg := by
    have hin := h.inHand i
    rwa [hi] at hin
  have hhold : (s.procs i).HoldsLock := by rw [hi]; trivial
  obtain ⟨hcard, hothers⟩ := h.halfway i v (by rw [hi]; rfl)
  have hnone (j : ℕ) : (setAt s.procs i Proc.leaving j).halfway = none :=
    forall_setAt (P := fun _ (q : Proc) => q.halfway = none) hothers rfl j
  refine ⟨h.lock.keep fun _ => hhold, fun c hc => ?_, fun hn => ?_, h.card, fun _ summary hs => ?_,
    fun j x hx => absurd ((hnone j).symm.trans hx) (Option.some_ne_none x).symm,
    inHand_setAt rfl (fun j hj => ?_) trivial⟩
  · obtain ⟨c, hc', rfl⟩ := Option.map_eq_some_iff.1 hc
    exact (hw (.inl (Option.isSome_iff_exists.2 ⟨c, hc'⟩))).symm
  · exact h.fresh (hcfg.trans (Option.map_eq_none_iff.1 hn))
  · cases hf : found with
    | false => exact (nomatch (hfound hf).symm.trans hs)
    | true => exact (hcard summary hs).trans (hw (.inr hf)).symm
  · refine (h.inHand j).mono (fun hh => absurd hh (h.lock.not_of_ne hhold hj)) (fun hc => ?_)
      fun hh => absurd (hothers j hj) hh
    rw [hcfg] at hc
    simpa [State.to] using hc

/-- A config is stored, with the visibility that is stored if there is one. -/
theorem Inv.save (h : Inv packId s) {cfg : PackConfig} {checkpoint : Bool}
    (hi : s.procs i = .saving cfg checkpoint) {p : Proc} (hp : ∀ s, InHand packId s p)
    (hhalf : p.halfway = none) :
    Inv packId ({ s with
      config := some cfg
      want := if s.config = none then cfg.visibility else s.want }.to i p) := by
  have hhold : (s.procs i).HoldsLock := by rw [hi]; trivial
  have hvis : ∀ stored, s.config = some stored → cfg.visibility = stored.visibility := by
    have hin := h.inHand i
    rwa [hi] at hin
  have hhalf' (j : ℕ) : (setAt s.procs i p j).halfway = (s.procs j).halfway := by
    by_cases hj : j = i
    · rw [hj, setAt_self, hhalf, hi]
      rfl
    · rw [setAt_of_ne _ _ hj]
  refine ⟨h.lock.keep fun _ => hhold, fun c hc => ?_, fun hc => (nomatch hc), h.card,
    fun hset summary hs => ?_, fun j v hv => ?_, inHand_setAt rfl (fun j hj => ?_) (hp _)⟩
  · obtain rfl := Option.some.inj hc
    cases hs : s.config with
    | none => simp [State.to]
    | some stored => simpa [State.to] using (hvis stored hs).trans (h.config stored hs)
  · have hc : s.config ≠ none := fun hc => nomatch (h.fresh hc).symm.trans hs
    simpa [State.to, hc] using h.settled (fun j => (hhalf' j).symm.trans (hset j)) summary hs
  · refine (h.halfway j v ((hhalf' j).symm.trans hv)).imp_right fun ho k hk => ?_
    exact (hhalf' k).trans (ho k hk)
  · exact (h.inHand j).mono (fun hh => absurd hh (h.lock.not_of_ne hhold hj))
      (fun _ => Option.some_ne_none _) fun _ => id

/-- A build writes the card, with the visibility of the stored config. -/
theorem Inv.publish (h : Inv packId s) {summary : PackSummary}
    (hi : s.procs i = .built summary) (hok : summary.packId = packId →
      Settled s ∧ s.config.map (fun c => c.visibility) = some summary.visibility) :
    Inv packId ((s.writeCard packId summary).to i .idle) := by
  rw [State.writeCard]
  split_ifs with hid
  · obtain ⟨hset, hvis⟩ := hok hid
    obtain ⟨c, hc, hcv⟩ := Option.map_eq_some_iff.1 hvis
    have hnone (j : ℕ) : (setAt s.procs i Proc.idle j).halfway = none :=
      forall_setAt (P := fun _ (q : Proc) => q.halfway = none) (fun j _ => hset j) rfl j
    refine ⟨h.lock.keep False.elim, h.config, fun hn => (nomatch hc.symm.trans hn),
      fun x hx => ?_,
      fun _ x hx => ?_, fun j x hx => absurd ((hnone j).symm.trans hx) (Option.some_ne_none x).symm,
      inHand_setAt rfl (fun j _ => ?_) trivial⟩
    · obtain rfl := Option.some.inj hx
      exact hid
    · obtain rfl := Option.some.inj hx
      exact hcv.symm.trans (h.config c hc)
    · exact (h.inHand j).mono (fun _ => rfl) id fun hh => absurd (hset j) hh
  · exact h.to False.elim (by rw [hi]; rfl) trivial

/-! ## Runs -/

theorem Inv.begin (h : Inv packId s) {r : Request} (hs : begin s i r = some s') :
    Inv packId s' := by
  rw [Publish.begin.eq_def] at hs
  split at hs <;> cases hs
  all_goals
    next hp => exact h.to False.elim (by rw [hp]; rfl) trivial

theorem Inv.next (h : Inv packId s) (hok : InStep packId s (.next i))
    (hs : next X packId s i = some s') : Inv packId s' := by
  cases hp : s.procs i <;> simp only [Publish.next, InStep, hp] at hs hok
  case idle => cases hs
  case toggling v =>
    split at hs
    · next summary hsum =>
      cases hs
      exact h.to False.elim (by rw [hp]; rfl)
        ⟨h.card summary hsum, fun hc => nomatch (h.fresh hc).symm.trans hsum⟩
    · next hsum =>
      cases hs
      exact h.patch (hok hsum) rfl rfl rfl rfl (fun _ => hsum)
        (fun _ hx => nomatch hsum.symm.trans hx) fun _ => hsum
  case patching v summary =>
    obtain ⟨hid, hthere⟩ : InHand packId s (.patching v summary) := hp ▸ h.inHand i
    cases hs
    rw [State.writeCard, if_pos hid]
    refine h.patch hok rfl rfl rfl rfl (fun hc => absurd hc hthere) (fun x hx => ?_) nofun
    obtain rfl := Option.some.inj hx
    exact ⟨hid, rfl⟩
  case patched v found =>
    have hin : InHand packId s (.patched v found) := hp ▸ h.inHand i
    exact h.acquire (p := .toggleLocked v found) (by rw [hp]; rfl) hin hs
  case toggleLocked v found =>
    have hin : InHand packId s (.toggleLocked v found) := hp ▸ h.inHand i
    cases hs
    exact h.to (fun _ => by rw [hp]; trivial) (by rw [hp]; rfl) ⟨hin, rfl⟩
  case configuring v found cfg =>
    cases cfg with
    | some cfg =>
      cases hs
      exact h.configure hp fun _ => rfl
    | none =>
      cases hs
      have hcfg : s.config = none := (hp ▸ h.inHand i : InHand packId s (.configuring v found none)).2
      have hc := h.configure (w := if found then v else s.want) hp fun hf =>
        if_pos (hf.resolve_left (by simp))
      rwa [Option.map_none, ← hcfg] at hc
  case writing w => exact h.acquire (p := .writeLocked w) (by rw [hp]; rfl) trivial hs
  case writeLocked w =>
    split at hs
    · next cfg hset =>
      cases hs
      refine h.to (fun _ => by rw [hp]; trivial) (by rw [hp]; rfl) fun stored hst => ?_
      rw [hst] at hset
      exact Write.visibility_of_apply hset (hok stored hst)
    · cases hs
      exact h.to (fun _ => by rw [hp]; trivial) (by rw [hp]; rfl) trivial
  case saving cfg checkpoint =>
    cases hs
    exact h.save hp (by cases checkpoint <;> exact fun _ => trivial) (by cases checkpoint <;> rfl)
  case committing => exact h.acquire (p := .commitLocked) (by rw [hp]; rfl) trivial hs
  case commitLocked =>
    obtain ⟨cfg, _, rfl⟩ := Option.map_eq_some_iff.1 hs
    exact h.to (fun _ => by rw [hp]; trivial) (by rw [hp]; rfl) trivial
  case snapshotting cfg =>
    cases hs
    exact h.frame rfl rfl rfl rfl (h.lock.keep fun _ => by rw [hp]; trivial) (by rw [hp]; rfl)
      trivial
  case leaving =>
    cases hs
    exact h.frame rfl rfl rfl rfl (h.lock.release (by rw [hp]; trivial) id) (by rw [hp]; rfl) trivial
  case building commit packVersion =>
    obtain ⟨cfg, _, rfl⟩ := Option.map_eq_some_iff.1 hs
    exact h.to False.elim (by rw [hp]; rfl) trivial
  case built summary =>
    cases hs
    exact h.publish hp hok

/-- In every run whose steps keep in step, the card shows the visibility that was set last, or
    the one being set. -/
theorem system_sticks (h : (system X packId).Reach (InStep packId) s) : Sticks s := by
  suffices hinv : Inv packId s from hinv.sticks
  refine h.invariant (fun t ht => ?_) fun t a t' hi hok hst => ?_
  · refine ⟨fun i hi => ?_, fun c hc => (nomatch ht.config.symm.trans hc), fun _ => ht.summary,
      fun x hx => (nomatch ht.summary.symm.trans hx),
      fun _ x hx => (nomatch ht.summary.symm.trans hx), fun i v hv => ?_, fun i => ?_⟩
    · rw [ht.procs i] at hi
      exact hi.elim
    · rw [ht.procs i] at hv
      cases hv
    · rw [ht.procs i]
      trivial
  · cases a with
    | begin i r => exact hi.begin hst
    | next i => exact hi.next hok hst

end Invariant

/-- Nothing is there. -/
def start : State where
  config := none
  summary := none
  commits := []
  lock := none
  procs := fun _ => .idle
  want := .published

theorem init_start : Init start := ⟨rfl, rfl, rfl, fun _ => rfl⟩

/-- An administrator creates the pack. -/
def create : Write :=
  .put ⟨.empty "Industrial", none, { uid := 0, login := "", role := .admin }, true⟩ fun _ => .down

/-- The pack is created, built and unpublished. -/
theorem system_sticks_draft :
    ∃ s : State, s.summary.map (fun x => x.visibility) = some .draft ∧ Sticks s := by
  have h₀ : (system .none "Industrial").Reach (InStep "Industrial") start := .init init_start
  have writing := h₀.step (a := .begin 0 (.write create)) (by exact trivial) rfl
  have locked := writing.step (a := .next 0) (by exact trivial) rfl
  have saving := locked.step (a := .next 0) (by exact fun _ _ => trivial) rfl
  have saved := saving.step (a := .next 0) (by exact trivial) rfl
  have created := saved.step (a := .next 0) (by exact trivial) rfl
  have building := created.step (a := .begin 0 (.build none "1")) (by exact trivial) rfl
  have built := building.step (a := .next 0) (by exact trivial) rfl
  have published := built.step (a := .next 0)
    (by exact fun _ => ⟨fun | 0 => rfl | _ + 1 => rfl, rfl⟩) rfl
  have toggling := published.step (a := .begin 0 (.setVisibility .draft)) (by exact trivial) rfl
  have patching := toggling.step (a := .next 0)
    (by exact fun h => absurd h (Option.some_ne_none _)) rfl
  have patched := patching.step (a := .next 0) (by exact fun | 0 => rfl | _ + 1 => rfl) rfl
  exact ⟨_, rfl, system_sticks patched⟩

/-- The pack is created, committed, built and unpublished; then the commit is built. -/
def rebuilt : List Act :=
  [.begin 0 (.write create), .next 0, .next 0, .next 0, .next 0,
    .begin 0 .commit, .next 0, .next 0, .next 0, .next 0,
    .begin 0 (.build none "1"), .next 0, .next 0,
    .begin 0 (.setVisibility .draft), .next 0, .next 0, .next 0, .next 0, .next 0, .next 0,
    .begin 0 (.build (some 0) "2"), .next 0, .next 0]

/-- It is published again, though the last that was asked for was a draft. -/
theorem system_unstuck :
    ∃ s, (system .none "Industrial").Reachable s ∧ s.want = .draft ∧
      s.summary.map (fun x => x.visibility) = some .published ∧ ¬ Sticks s := by
  have hrun : ∃ s, (system .none "Industrial").run start rebuilt = some s ∧ s.want = .draft ∧
      s.summary.map (fun x => x.visibility) = some .published ∧
      ∀ i, (s.procs i).halfway = none :=
    ⟨_, rfl, rfl, rfl, fun | 0 => rfl | _ + 1 => rfl⟩
  obtain ⟨s, hs, hwant, hvis, hnone⟩ := hrun
  have h₀ : (system .none "Industrial").Reachable start := .init init_start
  refine ⟨s, h₀.run hs, hwant, hvis, fun h => ?_⟩
  obtain ⟨summary, hsum, hv⟩ := Option.map_eq_some_iff.1 hvis
  rcases h summary hsum with hw | ⟨i, hi⟩
  · rw [hv, hwant] at hw
    cases hw
  · rw [hnone i] at hi
    cases hi

end Publish

end Smrt
