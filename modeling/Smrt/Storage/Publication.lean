import Smrt.Authoring.Build
import Smrt.Domain.Manifest
import Smrt.Lib.System

/-!
# Publication

A build publishes with three writes, one after the other: the manifest, the pointer `latest` to it,
and the card of the pack. Any of them may fail. The builds of a pack wait for each other; a dry run
waits for nobody, and publishes nothing. A pack is deleted file by file, and the deletion waits for
nobody either.

A pack is a system of the builds and the deletions. What is published is all or nothing
(`Outcome`), as long as (`Kept`)

* a build that has written its manifest also writes the pointer and the card, and is told whether
  there is a manifest of its version already;
* no file of the pack goes while a build is at work.

Then what a build leaves when it fails is what it found (`system_publishes`); else a version may be
published by a build that failed, and a pack may be there again that was deleted
(`system_halfway`).
-/

namespace Smrt

namespace Publication

/-! ## What is published -/

/-- What is published of a pack: the manifests by their versions, the version that `latest` points
    at, and the card. -/
structure Published where
  manifests : List (String × PackManifest)
  latest : Option String
  summary : Option PackSummary
  deriving DecidableEq

namespace Published

def empty : Published := ⟨[], none, none⟩

variable (p : Published)

def manifest (version : String) : Option PackManifest := p.manifests.lookup version

def saveManifest (m : PackManifest) : Published :=
  { p with manifests := (m.packVersion, m) :: p.manifests.filter fun e => e.1 ≠ m.packVersion }

/-- All three name a version. -/
structure Names (version : String) : Prop where
  manifest : ∃ m, p.manifest version = some m ∧ m.packVersion = version
  latest : p.latest = some version
  summary : ∃ card, p.summary = some card ∧ card.latestPackVersion = version

theorem lookup_filter_ne (l : List (String × PackManifest)) (v w : String) :
    (l.filter fun e => e.1 ≠ v).lookup w = if w = v then none else l.lookup w := by
  induction l with
  | nil => simp
  | cons e l ih =>
    obtain ⟨k, m⟩ := e
    rw [List.filter_cons]
    by_cases hk : k = v
    · rw [if_neg (by simp [hk]), ih]
      by_cases hw : w = v
      · rw [if_pos hw, if_pos hw]
      · rw [if_neg hw, if_neg hw, List.lookup_cons, beq_eq_false_iff_ne.2 (hk ▸ hw)]
    · rw [if_pos (by simp [hk]), List.lookup_cons, List.lookup_cons, ih]
      by_cases hw : w = k
      · simp [hw, hk]
      · rw [beq_eq_false_iff_ne.2 hw]

theorem manifest_saveManifest (m : PackManifest) (v : String) :
    (p.saveManifest m).manifest v = if v = m.packVersion then some m else p.manifest v := by
  rw [manifest, saveManifest, List.lookup_cons]
  by_cases hv : v = m.packVersion
  · rw [beq_iff_eq.2 hv, if_pos hv]
  · rw [beq_eq_false_iff_ne.2 hv, if_neg hv]
    exact (lookup_filter_ne _ _ _).trans (if_neg hv)

/-- What is removed of a pack. -/
inductive Entry
  | manifest (version : String)
  | latest
  | summary
  | authoring

def unlink : Entry → Published
  | .manifest version => { p with manifests := p.manifests.filter fun e => e.1 ≠ version }
  | .latest => { p with latest := none }
  | .summary => { p with summary := none }
  | .authoring => p

/-- A file that goes takes no other one with it, and changes none. -/
theorem manifest_unlink (e : Entry) (v : String) :
    (p.unlink e).manifest v = p.manifest v ∨ (p.unlink e).manifest v = none := by
  rcases e with version | _ | _ | _
  · have hlookup := lookup_filter_ne p.manifests version v
    by_cases hv : v = version
    · exact .inr (hlookup.trans (if_pos hv))
    · exact .inl (hlookup.trans (if_neg hv))
  · exact .inl rfl
  · exact .inl rfl
  · exact .inl rfl

@[simp] theorem unlink_empty (e : Entry) : empty.unlink e = empty := by
  rcases e with version | _ | _ | _ <;> rfl

end Published

/-! ## The system -/

/-- What a build is asked for: whether to publish, whether it may replace a version, and which
    commit to build, or else the stored config. -/
structure Request where
  dryRun : Bool
  overwrite : Bool
  fromCommit : Option ℕ

/-- Where a party is. A build remembers what was published when it was let in. -/
inductive Proc
  | idle
  /-- Waits for the builds before it. -/
  | waiting (req : Request)
  | started (req : Request) (was : Published)
  /-- Has loaded a config: resolves it. -/
  | resolving (req : Request) (was : Published) (cfg : PackConfig)
  /-- Looks whether there is a manifest of its version. -/
  | resolved (req : Request) (was : Published) (cfg : PackConfig) (m : PackManifest)
  | saving (req : Request) (was : Published) (cfg : PackConfig) (m : PackManifest)
  /-- Has written the manifest: points at it. -/
  | saved (req : Request) (was : Published) (cfg : PackConfig) (m : PackManifest)
  /-- Points at the manifest: writes the card. -/
  | pointed (req : Request) (was : Published) (cfg : PackConfig) (m : PackManifest)
  /-- Is done with a version, or has failed. -/
  | ended (req : Request) (was : Published) (version : Option String)
  /-- Deletes the pack. -/
  | deleting

/-- A pack: what is published, the stored config with the snapshots of its commits, who is let in,
    and its parties; and whether it was deleted and not made again. -/
structure State where
  published : Published
  authoring : Option (PackConfig × List PackConfig)
  lock : Option ℕ
  procs : ℕ → Proc
  gone : Bool

/-- What happens. A step that may fail says whether it has. -/
inductive Act
  | build (i : ℕ) (req : Request)
  | enter (i : ℕ)
  | load (i : ℕ)
  | resolve (i : ℕ) (result : Option PackManifest)
  | check (i : ℕ) (answered : Bool)
  | write (i : ℕ) (ok : Bool)
  | point (i : ℕ) (ok : Bool)
  | card (i : ℕ) (ok : Bool)
  | leave (i : ℕ)
  | delete (i : ℕ)
  | unlink (i : ℕ) (e : Published.Entry)
  | rmdir (i : ℕ)
  /-- The config is made or edited, or committed. -/
  | author (cfg : PackConfig) (commits : List PackConfig)

section Step

variable (packId : String) (s : State) (i : ℕ)

/-- A party moves. -/
def State.to (p : Proc) : State := { s with procs := setAt s.procs i p }

@[simp] theorem State.procs_to (p : Proc) : (s.to i p).procs i = p := setAt_self ..

def build (req : Request) : Option State :=
  match s.procs i with
  | .idle => some (s.to i (if req.dryRun then .started req s.published else .waiting req))
  | _ => none

def enter : Option State :=
  match s.procs i with
  | .waiting req =>
    if s.lock = none then some { s.to i (.started req s.published) with lock := some i } else none
  | _ => none

/-- The config that is built. -/
def State.config (req : Request) : Option PackConfig :=
  s.authoring.bind fun a => match req.fromCommit with
    | some commit => a.2[commit]?
    | none => some a.1

def load : Option State :=
  match s.procs i with
  | .started req was =>
    some (s.to i ((s.config req).elim (.ended req was none) (.resolving req was)))
  | _ => none

/-- Where a build is when everything is resolved, or something could not be: a dry run is done. -/
def Proc.outOf (req : Request) (was : Published) (cfg : PackConfig) (m : PackManifest) : Proc :=
  if req.dryRun then .ended req was (some m.packVersion) else .resolved req was cfg m

def resolve (result : Option PackManifest) : Option State :=
  match s.procs i with
  | .resolving req was cfg =>
    some (s.to i (result.elim (.ended req was none) (.outOf req was cfg)))
  | _ => none

/-- A version that is there is not replaced unless that was asked for; without an answer it is taken
    for free. -/
def check (answered : Bool) : Option State :=
  match s.procs i with
  | .resolved req was cfg m =>
    some (s.to i (if !req.overwrite && answered && (s.published.manifest m.packVersion).isSome then
      .ended req was none else .saving req was cfg m))
  | _ => none

def write (ok : Bool) : Option State :=
  match s.procs i with
  | .saving req was cfg m =>
    some (if ok then { s.to i (.saved req was cfg m) with published := s.published.saveManifest m }
      else s.to i (.ended req was none))
  | _ => none

def point (ok : Bool) : Option State :=
  match s.procs i with
  | .saved req was cfg m =>
    some (if ok then { s.to i (.pointed req was cfg m) with
        published := { s.published with latest := some m.packVersion } }
      else s.to i (.ended req was none))
  | _ => none

/-- A card is written where it says it is. -/
def Published.writeCard (p : Published) (card : PackSummary) : Published :=
  if card.packId = packId then { p with summary := some card } else p

def card (ok : Bool) : Option State :=
  match s.procs i with
  | .pointed req was cfg m =>
    some (if ok then { s.to i (.ended req was (some m.packVersion)) with
        published := s.published.writeCard packId (makePackSummary cfg m.packVersion) }
      else s.to i (.ended req was none))
  | _ => none

def leave : Option State :=
  match s.procs i with
  | .ended req _ _ => some { s.to i .idle with lock := if req.dryRun then s.lock else none }
  | _ => none

def delete : Option State :=
  match s.procs i with
  | .idle => some (s.to i .deleting)
  | _ => none

/-- What is left of the authoring inputs. -/
def Published.Entry.left (authoring : Option (PackConfig × List PackConfig)) :
    Published.Entry → Option (PackConfig × List PackConfig)
  | .authoring => none
  | _ => authoring

def unlink (e : Published.Entry) : Option State :=
  match s.procs i with
  | .deleting =>
    some { s with published := s.published.unlink e, authoring := e.left s.authoring }
  | _ => none

/-- A deletion has succeeded if nothing is left to go. -/
def rmdir : Option State :=
  match s.procs i with
  | .deleting => some { s.to i .idle with
      gone := s.gone || (s.published = .empty && s.authoring.isNone) }
  | _ => none

/-- A config is stored under its own id. -/
def author (cfg : PackConfig) (commits : List PackConfig) : Option State :=
  if cfg.packId = packId ∧ ∀ c ∈ commits, c.packId = packId then
    some { s with authoring := some (cfg, commits), gone := false }
  else none

end Step

def step (packId : String) (s : State) : Act → Option State
  | .build i req => build s i req
  | .enter i => enter s i
  | .load i => load s i
  | .resolve i result => resolve s i result
  | .check i answered => check s i answered
  | .write i ok => write s i ok
  | .point i ok => point s i ok
  | .card i ok => card packId s i ok
  | .leave i => leave s i
  | .delete i => delete s i
  | .unlink i e => unlink s i e
  | .rmdir i => rmdir s i
  | .author cfg commits => author packId s cfg commits

/-- A pack of which nothing is published yet. -/
def system (packId : String) : System State Act where
  init s := s.published = .empty ∧ s.authoring = none ∧ s.lock = none ∧ s.gone = false ∧
    ∀ i, s.procs i = .idle
  step := step packId

/-- What a step may be taken in for a pack to be published all or nothing. -/
def Kept (s : State) : Act → Prop
  | .check i answered => ∀ req was cfg m, s.procs i = .resolved req was cfg m →
    s.published.manifest m.packVersion ≠ none → answered = true
  | .point _ ok | .card _ ok => ok = true
  | .unlink _ _ | .rmdir _ => s.lock = none
  | _ => True

/-! ## Who is at work -/

/-- Whether a build is let in that is no dry run. -/
def Proc.HoldsLock : Proc → Prop
  | started req _ | resolving req _ _ | resolved req _ _ _ | saving req _ _ _ | saved req _ _ _
  | pointed req _ _ _ | ended req _ _ => req.dryRun = false
  | _ => False

/-- Whether a build has a config that it may yet publish. -/
def Proc.Loaded : Proc → Prop
  | resolving req _ _ => req.dryRun = false
  | resolved _ _ _ _ | saving _ _ _ _ | saved _ _ _ _ | pointed _ _ _ _ => True
  | _ => False

/-- The config of a build is one of the pack. -/
def Proc.Owns (packId : String) : Proc → Prop
  | resolving _ _ cfg | resolved _ _ cfg _ | saving _ _ cfg _ | saved _ _ cfg _
  | pointed _ _ cfg _ => cfg.packId = packId
  | _ => True

/-- What is published as far as a build has come. -/
def Proc.Outcome (p : Published) : Proc → Prop
  | started req was | resolving req was _ => req.dryRun = false → p = was
  | resolved req was _ _ => req.dryRun = false ∧ p = was
  | saving req was _ m => req.dryRun = false ∧ p = was ∧
    (req.overwrite = true ∨ p.manifest m.packVersion = none)
  | saved req _ _ m => req.dryRun = false ∧ p.manifest m.packVersion = some m
  | pointed req _ _ m => req.dryRun = false ∧ p.manifest m.packVersion = some m ∧
    p.latest = some m.packVersion
  | ended req was none => req.dryRun = false → p = was
  | ended req _ (some version) => req.dryRun = false → p.Names version
  | idle | waiting _ | deleting => True

/-- What is published matters to a build that is let in only. -/
theorem Proc.Outcome.of_not_holdsLock {p p' : Published} {q : Proc} (h : q.Outcome p)
    (hq : ¬ q.HoldsLock) : q.Outcome p' := by
  rcases q with _ | req | ⟨req, was⟩ | ⟨req, was, cfg⟩ | ⟨req, was, cfg, m⟩ | ⟨req, was, cfg, m⟩ |
    ⟨req, was, cfg, m⟩ | ⟨req, was, cfg, m⟩ | ⟨req, was, _ | version⟩ | _
  · trivial
  · trivial
  · exact fun hdry => absurd hdry hq
  · exact fun hdry => absurd hdry hq
  · exact absurd h.1 hq
  · exact absurd h.1 hq
  · exact absurd h.1 hq
  · exact absurd h.1 hq
  · exact fun hdry => absurd hdry hq
  · exact fun hdry => absurd hdry hq
  · trivial

/-- A build that may yet publish is let in. -/
theorem Proc.Outcome.holdsLock {p : Published} {q : Proc} (h : q.Outcome p) (hq : q.Loaded) :
    q.HoldsLock := by
  rcases q with _ | req | ⟨req, was⟩ | ⟨req, was, cfg⟩ | ⟨req, was, cfg, m⟩ | ⟨req, was, cfg, m⟩ |
    ⟨req, was, cfg, m⟩ | ⟨req, was, cfg, m⟩ | ⟨req, was, version⟩ | _
  · exact hq
  · exact hq.elim
  · exact hq.elim
  · exact hq
  · exact h.1
  · exact h.1
  · exact h.1
  · exact h.1
  · exact hq.elim
  · exact hq

section Inversion

variable {packId : String} {s s' : State} {i : ℕ}

theorem build_eq_some {req : Request} (h : build s i req = some s') : s.procs i = .idle ∧
    s' = s.to i (if req.dryRun then .started req s.published else .waiting req) := by
  rw [build] at h
  split at h
  · rename_i hp
    exact ⟨hp, (Option.some.inj h).symm⟩
  · exact absurd h nofun

theorem enter_eq_some (h : enter s i = some s') : ∃ req, s.procs i = .waiting req ∧
    s.lock = none ∧ s' = { s.to i (.started req s.published) with lock := some i } := by
  rw [enter] at h
  split at h
  · rename_i req hp
    split_ifs at h with hlock
    exact ⟨req, hp, hlock, (Option.some.inj h).symm⟩
  · exact absurd h nofun

theorem load_eq_some (h : load s i = some s') : ∃ req was, s.procs i = .started req was ∧
    s' = s.to i ((s.config req).elim (.ended req was none) (.resolving req was)) := by
  rw [load] at h
  split at h
  · rename_i req was hp
    exact ⟨req, was, hp, (Option.some.inj h).symm⟩
  · exact absurd h nofun

theorem resolve_eq_some {result : Option PackManifest} (h : resolve s i result = some s') :
    ∃ req was cfg, s.procs i = .resolving req was cfg ∧
      s' = s.to i (result.elim (.ended req was none) (.outOf req was cfg)) := by
  rw [resolve] at h
  split at h
  · rename_i req was cfg hp
    exact ⟨req, was, cfg, hp, (Option.some.inj h).symm⟩
  · exact absurd h nofun

theorem check_eq_some {answered : Bool} (h : check s i answered = some s') :
    ∃ req was cfg m, s.procs i = .resolved req was cfg m ∧ s' = s.to i
      (if !req.overwrite && answered && (s.published.manifest m.packVersion).isSome then
        .ended req was none else .saving req was cfg m) := by
  rw [check] at h
  split at h
  · rename_i req was cfg m hp
    exact ⟨req, was, cfg, m, hp, (Option.some.inj h).symm⟩
  · exact absurd h nofun

theorem write_eq_some {ok : Bool} (h : write s i ok = some s') :
    ∃ req was cfg m, s.procs i = .saving req was cfg m ∧ s' = if ok then
      { s.to i (.saved req was cfg m) with published := s.published.saveManifest m }
      else s.to i (.ended req was none) := by
  rw [write] at h
  split at h
  · rename_i req was cfg m hp
    exact ⟨req, was, cfg, m, hp, (Option.some.inj h).symm⟩
  · exact absurd h nofun

theorem point_eq_some {ok : Bool} (h : point s i ok = some s') :
    ∃ req was cfg m, s.procs i = .saved req was cfg m ∧ s' = if ok then
      { s.to i (.pointed req was cfg m) with
        published := { s.published with latest := some m.packVersion } }
      else s.to i (.ended req was none) := by
  rw [point] at h
  split at h
  · rename_i req was cfg m hp
    exact ⟨req, was, cfg, m, hp, (Option.some.inj h).symm⟩
  · exact absurd h nofun

theorem card_eq_some {ok : Bool} (h : card packId s i ok = some s') :
    ∃ req was cfg m, s.procs i = .pointed req was cfg m ∧ s' = if ok then
      { s.to i (.ended req was (some m.packVersion)) with
        published := s.published.writeCard packId (makePackSummary cfg m.packVersion) }
      else s.to i (.ended req was none) := by
  rw [card] at h
  split at h
  · rename_i req was cfg m hp
    exact ⟨req, was, cfg, m, hp, (Option.some.inj h).symm⟩
  · exact absurd h nofun

theorem leave_eq_some (h : leave s i = some s') :
    ∃ req was version, s.procs i = .ended req was version ∧
      s' = { s.to i .idle with lock := if req.dryRun then s.lock else none } := by
  rw [leave] at h
  split at h
  · rename_i req was version hp
    exact ⟨req, was, version, hp, (Option.some.inj h).symm⟩
  · exact absurd h nofun

theorem delete_eq_some (h : delete s i = some s') : s.procs i = .idle ∧
    s' = s.to i .deleting := by
  rw [delete] at h
  split at h
  · rename_i hp
    exact ⟨hp, (Option.some.inj h).symm⟩
  · exact absurd h nofun

theorem unlink_eq_some {e : Published.Entry} (h : unlink s i e = some s') :
    s.procs i = .deleting ∧
      s' = { s with published := s.published.unlink e, authoring := e.left s.authoring } := by
  rw [unlink] at h
  split at h
  · rename_i hp
    exact ⟨hp, (Option.some.inj h).symm⟩
  · exact absurd h nofun

theorem rmdir_eq_some (h : rmdir s i = some s') : s.procs i = .deleting ∧
    s' = { s.to i .idle with
      gone := s.gone || (s.published = .empty && s.authoring.isNone) } := by
  rw [rmdir] at h
  split at h
  · rename_i hp
    exact ⟨hp, (Option.some.inj h).symm⟩
  · exact absurd h nofun

theorem author_eq_some {cfg : PackConfig} {commits : List PackConfig}
    (h : author packId s cfg commits = some s') :
    (cfg.packId = packId ∧ ∀ c ∈ commits, c.packId = packId) ∧
      s' = { s with authoring := some (cfg, commits), gone := false } := by
  rw [author] at h
  split_ifs at h with hid
  exact ⟨hid, (Option.some.inj h).symm⟩

end Inversion

/-- The builds are let in one by one, each has come as far as it has, and none may publish a pack
    that is gone. -/
structure Inv (packId : String) (s : State) : Prop where
  exclusive : Exclusive Proc.HoldsLock s.lock s.procs
  outcome : ∀ i, (s.procs i).Outcome s.published
  owns : ∀ i, (s.procs i).Owns packId
  authoring : ∀ a ∈ s.authoring, a.1.packId = packId ∧ ∀ c ∈ a.2, c.packId = packId
  gone : s.gone = true → s.published = .empty ∧ s.authoring = none ∧ ∀ i, ¬ (s.procs i).Loaded

section Inv

variable {packId : String} {s s' : State} {i : ℕ} {q : Proc}

/-- A party moves that publishes nothing, and is not let in by that. -/
theorem Inv.to (h : Inv packId s) (hlock : q.HoldsLock → (s.procs i).HoldsLock)
    (hout : q.Outcome s.published) (howns : q.Owns packId) (hgone : s.gone = true → ¬ q.Loaded) :
    Inv packId (s.to i q) where
  exclusive := h.exclusive.keep hlock
  outcome := forall_setAt (P := fun _ => Proc.Outcome s.published) (fun j _ => h.outcome j) hout
  owns := forall_setAt (P := fun _ => Proc.Owns packId) (fun j _ => h.owns j) howns
  authoring := h.authoring
  gone hs := ⟨(h.gone hs).1, (h.gone hs).2.1, forall_setAt (P := fun _ q => ¬ Proc.Loaded q)
    (fun j _ => (h.gone hs).2.2 j) (hgone hs)⟩

/-- A build that is let in publishes something. -/
theorem Inv.publish (h : Inv packId s) {p : Published} (hloaded : (s.procs i).Loaded)
    (hlock : q.HoldsLock → (s.procs i).HoldsLock) (hout : q.Outcome p) (howns : q.Owns packId) :
    Inv packId { s.to i q with published := p } where
  exclusive := h.exclusive.keep hlock
  outcome := by
    have hholds := (h.outcome i).holdsLock hloaded
    exact forall_setAt (P := fun _ => Proc.Outcome p)
      (fun j hj => (h.outcome j).of_not_holdsLock (h.exclusive.not_of_ne hholds hj)) hout
  owns := forall_setAt (P := fun _ => Proc.Owns packId) (fun j _ => h.owns j) howns
  authoring := h.authoring
  gone hs := absurd hloaded ((h.gone hs).2.2 i)

/-- While nobody is let in, what is published may change. -/
theorem Inv.outcome_of_lock (h : Inv packId s) (hlock : s.lock = none) (p : Published) (j : ℕ) :
    (s.procs j).Outcome p :=
  (h.outcome j).of_not_holdsLock fun hj => absurd ((h.exclusive j hj).symm.trans hlock) nofun

/-- A config that is loaded is one of the pack. -/
theorem Inv.packId_of_config (h : Inv packId s) {req : Request} {cfg : PackConfig}
    (hcfg : s.config req = some cfg) : cfg.packId = packId := by
  obtain ⟨a, ha, hcfg⟩ := Option.bind_eq_some_iff.1 hcfg
  obtain ⟨hlive, hcommits⟩ := h.authoring a ha
  rcases hc : req.fromCommit with _ | commit
  · rw [hc] at hcfg
    exact Option.some.inj hcfg ▸ hlive
  · rw [hc] at hcfg
    exact hcommits cfg (List.mem_of_getElem? hcfg)

theorem Inv.build {req : Request} (h : Inv packId s) (hs : build s i req = some s') :
    Inv packId s' := by
  obtain ⟨hp, rfl⟩ := build_eq_some hs
  by_cases hdry : req.dryRun = true
  · rw [if_pos hdry]
    have hreal : req.dryRun ≠ false := by rw [hdry]; nofun
    exact h.to (fun hf => absurd hf hreal) (fun hf => absurd hf hreal) trivial fun _ => id
  · rw [if_neg hdry]
    exact h.to False.elim trivial trivial fun _ => id

theorem Inv.enter (h : Inv packId s) (hs : enter s i = some s') : Inv packId s' := by
  obtain ⟨req, hp, hlock, rfl⟩ := enter_eq_some hs
  have hfree : Exclusive Proc.HoldsLock none s.procs := hlock ▸ h.exclusive
  refine ⟨hfree.acquire, ?_, ?_, h.authoring, ?_⟩
  · exact forall_setAt (P := fun _ => Proc.Outcome s.published) (fun j _ => h.outcome j)
      fun _ => rfl
  · exact forall_setAt (P := fun _ => Proc.Owns packId) (fun j _ => h.owns j) trivial
  · exact fun hs => ⟨(h.gone hs).1, (h.gone hs).2.1,
      forall_setAt (P := fun _ q => ¬ Proc.Loaded q) (fun j _ => (h.gone hs).2.2 j) id⟩

/-- Of a pack that is gone no config is there to be loaded. -/
theorem Inv.load (h : Inv packId s) (hs : load s i = some s') : Inv packId s' := by
  obtain ⟨req, was, hp, rfl⟩ := load_eq_some hs
  have hout := h.outcome i
  rw [hp] at hout
  rcases hcfg : s.config req with _ | cfg
  · exact h.to (by rw [hp]; exact id) hout trivial fun _ => id
  · refine h.to (by rw [hp]; exact id) hout (h.packId_of_config hcfg) fun hs => ?_
    rw [State.config, (h.gone hs).2.1] at hcfg
    exact absurd hcfg nofun

theorem Inv.resolve {result : Option PackManifest} (h : Inv packId s)
    (hs : resolve s i result = some s') : Inv packId s' := by
  obtain ⟨req, was, cfg, hp, rfl⟩ := resolve_eq_some hs
  have hout := h.outcome i
  have howns := h.owns i
  rw [hp] at hout howns
  rcases result with _ | m
  · exact h.to (by rw [hp]; exact id) hout trivial fun _ => id
  · rw [Option.elim_some, Proc.outOf]
    by_cases hdry : req.dryRun = true
    · rw [if_pos hdry]
      have hreal : req.dryRun ≠ false := by rw [hdry]; nofun
      exact h.to (fun hf => absurd hf hreal) (fun hf => absurd hf hreal) trivial fun _ => id
    · rw [if_neg hdry]
      have hreal := Bool.eq_false_of_not_eq_true hdry
      refine h.to (by rw [hp]; exact id) ⟨hreal, hout hreal⟩ howns fun hs => ?_
      exact absurd (by rw [hp]; exact hreal) ((h.gone hs).2.2 i)

/-- A build goes on only if its version is free, or may be replaced. -/
theorem Inv.check {answered : Bool} (h : Inv packId s) (ha : Kept s (.check i answered))
    (hs : check s i answered = some s') : Inv packId s' := by
  obtain ⟨req, was, cfg, m, hp, rfl⟩ := check_eq_some hs
  have hout := h.outcome i
  have howns := h.owns i
  have hasked := ha req was cfg m hp
  rw [hp] at hout howns
  have hgone : s.gone = true → ¬ (Proc.saving req was cfg m).Loaded := fun hs =>
    absurd (by rw [hp]; trivial) ((h.gone hs).2.2 i)
  split_ifs with hthere
  · exact h.to (by rw [hp]; exact id) (fun _ => hout.2) trivial fun _ => id
  · refine h.to (by rw [hp]; exact id) ⟨hout.1, hout.2, ?_⟩ howns hgone
    by_contra! hboth
    refine hthere ?_
    rw [hasked hboth.2, Bool.eq_false_of_not_eq_true hboth.1]
    exact Option.isSome_iff_ne_none.2 hboth.2

theorem Inv.write {ok : Bool} (h : Inv packId s) (hs : write s i ok = some s') :
    Inv packId s' := by
  obtain ⟨req, was, cfg, m, hp, rfl⟩ := write_eq_some hs
  have hout := h.outcome i
  have howns := h.owns i
  rw [hp] at hout howns
  rcases ok with _ | _
  · exact h.to (by rw [hp]; exact id) (fun _ => hout.2.1) trivial fun _ => id
  · refine h.publish (by rw [hp]; trivial) (by rw [hp]; exact id) ⟨hout.1, ?_⟩ howns
    rw [Published.manifest_saveManifest, if_pos rfl]

theorem Inv.point {ok : Bool} (h : Inv packId s) (ha : Kept s (.point i ok))
    (hs : point s i ok = some s') : Inv packId s' := by
  obtain ⟨req, was, cfg, m, hp, rfl⟩ := point_eq_some hs
  have hout := h.outcome i
  have howns := h.owns i
  rw [hp] at hout howns
  rw [if_pos (show ok = true from ha)]
  exact h.publish (by rw [hp]; trivial) (by rw [hp]; exact id) ⟨hout.1, hout.2, rfl⟩ howns

/-- With its card a version is published. -/
theorem Inv.card {ok : Bool} (h : Inv packId s) (ha : Kept s (.card i ok))
    (hs : card packId s i ok = some s') : Inv packId s' := by
  obtain ⟨req, was, cfg, m, hp, rfl⟩ := card_eq_some hs
  have hout := h.outcome i
  have howns := h.owns i
  rw [hp] at hout howns
  have hcard : s.published.writeCard packId (makePackSummary cfg m.packVersion) =
      { s.published with summary := some (makePackSummary cfg m.packVersion) } := if_pos howns
  rw [if_pos (show ok = true from ha), hcard]
  refine h.publish (by rw [hp]; trivial) (by rw [hp]; exact id) (fun _ => ?_) trivial
  exact ⟨⟨m, hout.2.1, rfl⟩, hout.2.2, _, rfl, rfl⟩

theorem Inv.leave (h : Inv packId s) (hs : leave s i = some s') : Inv packId s' := by
  obtain ⟨req, was, version, hp, rfl⟩ := leave_eq_some hs
  have hto : Inv packId (s.to i .idle) := h.to False.elim trivial trivial fun _ => id
  refine { hto with exclusive := ?_ }
  by_cases hdry : req.dryRun = true
  · rw [if_pos hdry]
    exact hto.exclusive
  · rw [if_neg hdry]
    exact h.exclusive.release (by rw [hp]; exact Bool.eq_false_of_not_eq_true hdry) id

theorem Inv.delete (h : Inv packId s) (hs : delete s i = some s') : Inv packId s' := by
  obtain ⟨hp, rfl⟩ := delete_eq_some hs
  exact h.to False.elim trivial trivial fun _ => id

theorem Inv.unlink {e : Published.Entry} (h : Inv packId s) (ha : Kept s (.unlink i e))
    (hs : unlink s i e = some s') : Inv packId s' := by
  obtain ⟨hp, rfl⟩ := unlink_eq_some hs
  refine ⟨h.exclusive, h.outcome_of_lock ha _, h.owns, fun a hleft => h.authoring a ?_,
    fun hs => ?_⟩
  · rcases e with version | _ | _ | _
    · exact hleft
    · exact hleft
    · exact hleft
    · exact absurd hleft nofun
  · obtain ⟨hempty, hnone, hloaded⟩ := h.gone hs
    refine ⟨?_, ?_, hloaded⟩
    · change s.published.unlink e = .empty
      rw [hempty, Published.unlink_empty]
    · rcases e with version | _ | _ | _
      · exact hnone
      · exact hnone
      · exact hnone
      · rfl

/-- While nobody is let in, there is no build that may yet publish. -/
theorem Inv.rmdir (h : Inv packId s) (ha : Kept s (.rmdir i)) (hs : rmdir s i = some s') :
    Inv packId s' := by
  obtain ⟨hp, rfl⟩ := rmdir_eq_some hs
  have hto : Inv packId (s.to i .idle) := h.to False.elim trivial trivial fun _ => id
  refine { hto with gone := fun hs => ?_ }
  rcases Bool.or_eq_true_iff.1 hs with hs | hs
  · exact hto.gone hs
  · obtain ⟨hempty, hnone⟩ := Bool.and_eq_true_iff.1 hs
    refine ⟨of_decide_eq_true hempty, Option.isNone_iff_eq_none.1 hnone, fun j hj => ?_⟩
    have hlock : s.lock = some j := hto.exclusive j ((hto.outcome j).holdsLock hj)
    exact absurd (hlock.symm.trans ha) nofun

theorem Inv.author {cfg : PackConfig} {commits : List PackConfig} (h : Inv packId s)
    (hs : author packId s cfg commits = some s') : Inv packId s' := by
  obtain ⟨hid, rfl⟩ := author_eq_some hs
  refine ⟨h.exclusive, h.outcome, h.owns, fun a ha => ?_, nofun⟩
  obtain rfl := Option.some.inj ha
  exact hid

/-- A step that is kept keeps the invariant. -/
theorem inv_step {a : Act} (h : Inv packId s) (ha : Kept s a) (hs : step packId s a = some s') :
    Inv packId s' := by
  rcases a with ⟨i, req⟩ | i | i | ⟨i, result⟩ | ⟨i, answered⟩ | ⟨i, ok⟩ | ⟨i, ok⟩ | ⟨i, ok⟩ | i |
    i | ⟨i, e⟩ | i | ⟨cfg, commits⟩
  · exact h.build hs
  · exact h.enter hs
  · exact h.load hs
  · exact h.resolve hs
  · exact h.check ha hs
  · exact h.write hs
  · exact h.point ha hs
  · exact h.card ha hs
  · exact h.leave hs
  · exact h.delete hs
  · exact h.unlink ha hs
  · exact h.rmdir ha hs
  · exact h.author hs

theorem inv_of_reach (h : (system packId).Reach Kept s) : Inv packId s :=
  h.invariant
    (fun s ⟨hempty, hnone, _, hgone, hidle⟩ =>
      { exclusive := fun i hi => absurd hi (by rw [hidle i]; exact id)
        outcome := fun i => by rw [hidle i]; trivial
        owns := fun i => by rw [hidle i]; trivial
        authoring := fun a ha => absurd (hnone.symm.trans ha) nofun
        gone := fun hs => absurd (hgone.symm.trans hs) nofun })
    fun _ _ _ => inv_step

end Inv

/-! ## What is published, and by whom -/

/-- The request that a party works on. -/
def Proc.request : Proc → Option Request
  | waiting req | started req _ | resolving req _ _ | resolved req _ _ _ | saving req _ _ _
  | saved req _ _ _ | pointed req _ _ _ | ended req _ _ => some req
  | idle | deleting => none

/-- The party that takes a step. -/
def Act.party : Act → Option ℕ
  | build i _ | enter i | load i | resolve i _ | check i _ | write i _ | point i _ | card i _
  | leave i | delete i | unlink i _ | rmdir i => some i
  | author _ _ => none

section Published

variable {packId : String} {s s' : State} {a : Act}

theorem Published.manifest_writeCard (p : Published) (card : PackSummary) (v : String) :
    (p.writeCard packId card).manifest v = p.manifest v := by
  rw [writeCard]
  split_ifs <;> rfl

/-- What is published changes by a file that is written, or that goes. -/
theorem published_step (hs : step packId s a = some s') : s'.published = s.published ∨
    (∃ i req was cfg m, a = .write i true ∧ s.procs i = .saving req was cfg m ∧
      s'.published = s.published.saveManifest m) ∨
    (∃ i req was cfg m, a = .point i true ∧ s.procs i = .saved req was cfg m ∧
      s'.published = { s.published with latest := some m.packVersion }) ∨
    (∃ i req was cfg m, a = .card i true ∧ s.procs i = .pointed req was cfg m ∧
      s'.published = s.published.writeCard packId (makePackSummary cfg m.packVersion)) ∨
    ∃ i e, a = .unlink i e ∧ s.procs i = .deleting ∧ s'.published = s.published.unlink e := by
  rcases a with ⟨i, req⟩ | i | i | ⟨i, result⟩ | ⟨i, answered⟩ | ⟨i, ok⟩ | ⟨i, ok⟩ | ⟨i, ok⟩ | i |
    i | ⟨i, e⟩ | i | ⟨cfg, commits⟩
  · obtain ⟨_, rfl⟩ := build_eq_some hs
    exact .inl rfl
  · obtain ⟨_, _, _, rfl⟩ := enter_eq_some hs
    exact .inl rfl
  · obtain ⟨_, _, _, rfl⟩ := load_eq_some hs
    exact .inl rfl
  · obtain ⟨_, _, _, _, rfl⟩ := resolve_eq_some hs
    exact .inl rfl
  · obtain ⟨_, _, _, _, _, rfl⟩ := check_eq_some hs
    exact .inl rfl
  · obtain ⟨req, was, cfg, m, hp, rfl⟩ := write_eq_some hs
    rcases ok with _ | _
    · exact .inl rfl
    · exact .inr (.inl ⟨i, req, was, cfg, m, rfl, hp, rfl⟩)
  · obtain ⟨req, was, cfg, m, hp, rfl⟩ := point_eq_some hs
    rcases ok with _ | _
    · exact .inl rfl
    · exact .inr (.inr (.inl ⟨i, req, was, cfg, m, rfl, hp, rfl⟩))
  · obtain ⟨req, was, cfg, m, hp, rfl⟩ := card_eq_some hs
    rcases ok with _ | _
    · exact .inl rfl
    · exact .inr (.inr (.inr (.inl ⟨i, req, was, cfg, m, rfl, hp, rfl⟩)))
  · obtain ⟨_, _, _, _, rfl⟩ := leave_eq_some hs
    exact .inl rfl
  · obtain ⟨_, rfl⟩ := delete_eq_some hs
    exact .inl rfl
  · obtain ⟨hp, rfl⟩ := unlink_eq_some hs
    exact .inr (.inr (.inr (.inr ⟨i, e, rfl, hp, rfl⟩)))
  · obtain ⟨_, rfl⟩ := rmdir_eq_some hs
    exact .inl rfl
  · obtain ⟨_, rfl⟩ := author_eq_some hs
    exact .inl rfl

/-- A dry run changes nothing: only a build that was let in comes as far as to write. -/
theorem Inv.published_of_dryRun (h : Inv packId s) (hs : step packId s a = some s') {i : ℕ}
    {req : Request} (hi : a.party = some i) (hreq : (s.procs i).request = some req)
    (hdry : req.dryRun = true) : s'.published = s.published := by
  have hreal : ∀ j req', s.procs j = s.procs i → (s.procs j).request = some req' →
      req'.dryRun ≠ false := fun j req' hj hreq' hf => by
    obtain rfl := Option.some.inj ((hj ▸ hreq').symm.trans hreq)
    exact absurd (hdry.symm.trans hf) nofun
  rcases published_step hs with hp | ⟨j, req', was, cfg, m, rfl, hp, _⟩ |
    ⟨j, req', was, cfg, m, rfl, hp, _⟩ | ⟨j, req', was, cfg, m, rfl, hp, _⟩ | ⟨j, e, rfl, hp, _⟩
  · exact hp
  all_goals
    obtain rfl := Option.some.inj hi
    have hout := h.outcome j
    rw [hp] at hout hreq
  · exact absurd hout.1 (hreal j req' rfl (by rw [hp]; rfl))
  · exact absurd hout.1 (hreal j req' rfl (by rw [hp]; rfl))
  · exact absurd hout.1 (hreal j req' rfl (by rw [hp]; rfl))
  · exact absurd hreq nofun

/-- A manifest stays what it is, unless it goes, or a build replaces it that was asked to. -/
theorem Inv.manifest_step (h : Inv packId s) (hs : step packId s a = some s') {v : String}
    {m : PackManifest} (hm : s.published.manifest v = some m) :
    s'.published.manifest v = some m ∨
      (∃ i e, a = .unlink i e ∧ s'.published.manifest v = none) ∨
      ∃ i req was cfg m', a = .write i true ∧ s.procs i = .saving req was cfg m' ∧
        req.overwrite = true ∧ m'.packVersion = v := by
  rcases published_step hs with hp | ⟨i, req, was, cfg, m', rfl, hp, hpub⟩ |
    ⟨i, req, was, cfg, m', rfl, hp, hpub⟩ | ⟨i, req, was, cfg, m', rfl, hp, hpub⟩ |
    ⟨i, e, rfl, hp, hpub⟩
  · exact .inl (hp ▸ hm)
  · by_cases hv : v = m'.packVersion
    · refine .inr (.inr ⟨i, req, was, cfg, m', rfl, hp, ?_, hv.symm⟩)
      have hout := h.outcome i
      rw [hp] at hout
      rcases hout.2.2 with hover | hfree
      · exact hover
      · rw [hv, hfree] at hm
        exact absurd hm nofun
    · exact .inl (by rw [hpub, Published.manifest_saveManifest, if_neg hv, hm])
  · exact .inl (by rw [hpub]; exact hm)
  · exact .inl (by rw [hpub, Published.manifest_writeCard, hm])
  · rcases s.published.manifest_unlink e v with hkeep | hnone
    · exact .inl (by rw [hpub, hkeep, hm])
    · exact .inr (.inl ⟨i, e, rfl, by rw [hpub, hnone]⟩)

/-- A build publishes all or nothing, as long as every step is kept: one that fails leaves what was
    published when it was let in, after one that is done everything names its version, a dry run
    changes nothing, nor does any build a manifest that it was not asked to replace, and a pack that
    was deleted is gone. -/
theorem system_publishes (h : (system packId).Reach Kept s) :
    (∀ i req was, s.procs i = .ended req was none → req.dryRun = false → s.published = was) ∧
    (∀ i req was v, s.procs i = .ended req was (some v) → req.dryRun = false →
      s.published.Names v) ∧
    (∀ a i req s', a.party = some i → (s.procs i).request = some req → req.dryRun = true →
      (system packId).step s a = some s' → s'.published = s.published) ∧
    (∀ a s' v m, (system packId).step s a = some s' → s.published.manifest v = some m →
      s'.published.manifest v = some m ∨
        (∃ i e, a = .unlink i e ∧ s'.published.manifest v = none) ∨
        ∃ i req was cfg m', a = .write i true ∧ s.procs i = .saving req was cfg m' ∧
          req.overwrite = true ∧ m'.packVersion = v) ∧
    (s.gone = true → s.published = .empty) := by
  have hinv := inv_of_reach h
  refine ⟨fun i req was hp hreal => ?_, fun i req was v hp hreal => ?_,
    fun a i req s' hi hreq hdry hs => hinv.published_of_dryRun hs hi hreq hdry,
    fun a s' v m hs hm => hinv.manifest_step hs hm, fun hs => (hinv.gone hs).1⟩
  · have hout := hinv.outcome i
    rw [hp] at hout
    exact hout hreal
  · have hout := hinv.outcome i
    rw [hp] at hout
    exact hout hreal

end Published

section Runs

/-- A pack before anything happens. -/
def start : State := ⟨.empty, none, none, fun _ => .idle, false⟩

theorem system_start (packId : String) : (system packId).init start :=
  ⟨rfl, rfl, rfl, rfl, fun _ => rfl⟩

/-- A build of the stored config that is to be published. -/
def real : Request := ⟨false, false, none⟩

/-- What is built of a pack with nothing in it. -/
def bare (version : String) : PackManifest where
  packId := "Anvil"
  packVersion := version
  minecraftVersion := "1.12.2"
  loader := { name := "forge", version := "14.23.5.2922" }
  javaMajor := 8
  auth := none
  mods := []
  assets := []

theorem system_publishes_first :
    ∃ s, (system "Anvil").Reach Kept s ∧ s.published.Names "0.1.0" := by
  have h₀ : (system "Anvil").Reach Kept start := .init (system_start "Anvil")
  have h₁ := h₀.step (a := .author (.empty "Anvil") []) (by exact trivial) rfl
  have h₂ := h₁.step (a := .build 0 real) (by exact trivial) rfl
  have h₃ := h₂.step (a := .enter 0) (by exact trivial) rfl
  have h₄ := h₃.step (a := .load 0) (by exact trivial) rfl
  have h₅ := h₄.step (a := .resolve 0 (some (bare "0.1.0"))) (by exact trivial) rfl
  have h₆ := h₅.step (a := .check 0 true) (by exact fun _ _ _ _ _ _ => rfl) rfl
  have h₇ := h₆.step (a := .write 0 true) (by exact trivial) rfl
  have h₈ := h₇.step (a := .point 0 true) (by exact rfl) rfl
  have h₉ := h₈.step (a := .card 0 true) (by exact rfl) rfl
  exact ⟨_, h₉, (system_publishes h₉).2.1 0 real .empty "0.1.0" rfl rfl⟩

/-- A build has failed, and its version is there; and a pack was deleted that is there, with no
    build at work any more. -/
theorem system_halfway :
    (∃ s, (system "Anvil").Reachable s ∧ s.procs 0 = .ended real .empty none ∧
      s.published.manifest "0.1.0" = some (bare "0.1.0") ∧ s.published.latest = none) ∧
    ∃ s, (system "Anvil").Reachable s ∧ s.gone = true ∧ (∀ i, (s.procs i).request = none) ∧
      s.published.Names "0.1.0" := by
  have hstart : (system "Anvil").Reachable start := .init (system_start "Anvil")
  constructor
  · have hrun : ∃ s, (system "Anvil").run start [.author (.empty "Anvil") [], .build 0 real,
        .enter 0, .load 0, .resolve 0 (some (bare "0.1.0")), .check 0 true, .write 0 true,
        .point 0 false] = some s ∧ s.procs 0 = .ended real .empty none ∧
        s.published.manifest "0.1.0" = some (bare "0.1.0") ∧ s.published.latest = none :=
      ⟨_, rfl, rfl, rfl, rfl⟩
    obtain ⟨s, hs, h⟩ := hrun
    exact ⟨s, hstart.run hs, h⟩
  · have hrun : ∃ s, (system "Anvil").run start [.author (.empty "Anvil") [], .build 0 real,
        .enter 0, .load 0, .delete 1, .unlink 1 .authoring, .rmdir 1,
        .resolve 0 (some (bare "0.1.0")), .check 0 true, .write 0 true, .point 0 true,
        .card 0 true, .leave 0] = some s ∧ s.gone = true ∧ (∀ i, (s.procs i).request = none) ∧
        s.published.Names "0.1.0" :=
      ⟨_, rfl, rfl, fun i => by rcases i with _ | _ | i <;> rfl,
        ⟨_, rfl, rfl⟩, rfl, _, rfl, rfl⟩
    obtain ⟨s, hs, h⟩ := hrun
    exact ⟨s, hstart.run hs, h⟩

end Runs

end Publication

end Smrt
