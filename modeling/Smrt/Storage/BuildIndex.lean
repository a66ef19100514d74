import Smrt.Domain.Version
import Smrt.Lib.Rows
import Smrt.Lib.System

/-!
# The builds of each commit

Which versions came out of each commit of a pack is read off its manifests and remembered
(`builds_by_commit`): a call looks for what is remembered, or else lists the manifests and then
remembers what it has found. A manifest that is written has it forgotten; a pack that is deleted does
not.

A pack is a system of the calls that read the index, save a manifest or delete the pack. What is
remembered is what the manifests say, or a call has yet to have it forgotten, as long as (`Kept`)

* a call remembers what the manifests still say, or a call has yet to have it forgotten;
* no file goes that the index names while it is remembered.

Then a call that runs alone answers what the manifests say (`system_fresh`). A manifest that is
written and forgotten between the listing and the remembering of another call is missing for good
(`system_behind`).
-/

namespace Smrt

namespace BuildIndex

/-! ## The index -/

/-- What is read of a manifest when the builds are listed. -/
structure ManifestHead where
  packVersion : String
  generatedAt : String
  builtFrom : Option String
  deriving DecidableEq

/-- The manifests of a pack, by the names of the files; of a file that no longer parses there is
    nothing to read. -/
abbrev Manifests := List (String × Option ManifestHead)

/-- Whether a build is listed before another one: it is newer, or of a greater version. -/
def newerFirst (a b : ManifestHead) : Bool :=
  (compare b.generatedAt a.generatedAt).then (comparePackVersions b.packVersion a.packVersion) ≠ .gt

theorem newerFirst_le {a b : ManifestHead} (h : newerFirst a b = true) :
    b.generatedAt ≤ a.generatedAt := by
  by_contra hlt
  have hgt : compare b.generatedAt a.generatedAt = .gt :=
    (compareOfLessAndEq_eq_gt String.le_antisymm String.le_total String.not_le _ _).2
      (String.not_le.1 hlt)
  rw [newerFirst, hgt] at h
  exact of_decide_eq_true h rfl

theorem le_of_not_newerFirst {a b : ManifestHead} (h : ¬ newerFirst a b = true) :
    a.generatedAt ≤ b.generatedAt := by
  refine String.not_lt.1 fun hlt => h ?_
  have hcompare : compare b.generatedAt a.generatedAt = .lt := compareOfLessAndEq_eq_lt.2 hlt
  rw [newerFirst, hcompare]
  rfl

def listManifestBuilds (manifests : Manifests) : List ManifestHead :=
  (manifests.filterMap Prod.snd).insertionSort fun a b => newerFirst a b

theorem pairwise_listManifestBuilds (manifests : Manifests) :
    (listManifestBuilds manifests).Pairwise fun a b => b.generatedAt ≤ a.generatedAt := by
  rw [listManifestBuilds]
  refine pairwise_sorted (r := fun a b => newerFirst a b = true) ?_ ?_ ?_ _
  · intro a b h
    exact newerFirst_le h
  · intro a b h
    exact le_of_not_newerFirst h
  · intro a b c hab hbc
    exact String.le_trans hbc hab

/-- The versions that came out of each commit. -/
abbrev BuildsByCommit := String → Option (List String)

def addBuild (built : BuildsByCommit) (b : ManifestHead) : BuildsByCommit :=
  match b.builtFrom with
  | some commit => Function.update built commit (some ((built commit).getD [] ++ [b.packVersion]))
  | none => built

/-- What the manifests say; a pack without a directory of manifests has no builds. -/
def derived (dir : Option Manifests) : BuildsByCommit :=
  (dir.elim [] listManifestBuilds).foldl addBuild fun _ => none

/-- The builds that came out of a commit. -/
def ManifestHead.Of (commit : String) (b : ManifestHead) : Bool := b.builtFrom = some commit

theorem foldl_addBuild (built : BuildsByCommit) (l : List ManifestHead) (commit : String) :
    l.foldl addBuild built commit = if l.filter (ManifestHead.Of commit) = [] then built commit
      else some ((built commit).getD [] ++
        (l.filter (ManifestHead.Of commit)).map ManifestHead.packVersion) := by
  induction l generalizing built with
  | nil => rfl
  | cons b l ih =>
    rw [List.foldl_cons, ih]
    by_cases hb : ManifestHead.Of commit b = true
    · have hadd : addBuild built b commit = some ((built commit).getD [] ++ [b.packVersion]) := by
        rw [addBuild, of_decide_eq_true hb]
        exact Function.update_self ..
      rw [List.filter_cons_of_pos hb, hadd, if_neg (List.cons_ne_nil _ _), Option.getD_some,
        List.map_cons, List.append_assoc, List.singleton_append]
      split_ifs with hnil
      · rw [hnil, List.map_nil]
      · rfl
    · have hadd : addBuild built b commit = built commit := by
        rcases hc : b.builtFrom with _ | c
        · rw [addBuild, hc]
        · rw [addBuild, hc]
          exact Function.update_of_ne
            (fun he => hb (decide_eq_true (hc.trans (congrArg some he.symm)))) _ _
      rw [List.filter_cons_of_neg hb, hadd]

/-- What the manifests say of a commit: the versions of the builds that came out of it, newest
    first; and it is not named if there are none. -/
theorem derived_spec (manifests : Manifests) (commit : String) : ∃ builds : List ManifestHead,
    builds.Perm ((manifests.filterMap Prod.snd).filter (ManifestHead.Of commit)) ∧
    builds.Pairwise (fun a b => b.generatedAt ≤ a.generatedAt) ∧
    derived (some manifests) commit =
      if builds = [] then none else some (builds.map ManifestHead.packVersion) := by
  refine ⟨(listManifestBuilds manifests).filter (ManifestHead.Of commit), ?_, ?_, ?_⟩
  · exact (List.perm_insertionSort _ _).filter _
  · exact (pairwise_listManifestBuilds manifests).filter _
  · rw [derived]
    exact foldl_addBuild (fun _ => none) _ commit

/-! ## The system -/

/-- Where a call is. -/
inductive Proc
  | idle
  /-- Reads the index, and nothing is remembered: lists the manifests. -/
  | missed
  /-- Has listed the manifests: remembers what it has found. -/
  | listed (built : BuildsByCommit)
  | answered (built : BuildsByCommit)
  /-- Writes a manifest, under a version that is free or may be overwritten. -/
  | saving (head : ManifestHead)
  /-- Has written a manifest: has the index forgotten. -/
  | written
  /-- Deletes the pack, file by file, and then the directory. -/
  | deleting

/-- Whether nothing is in flight. -/
def Proc.AtRest : Proc → Prop
  | idle | answered _ => True
  | _ => False

/-- A pack: the directory of its manifests, the index that is remembered, and the calls. -/
structure State where
  dir : Option Manifests
  cache : Option BuildsByCommit
  procs : ℕ → Proc

/-- What happens: a call begins, or goes on. Listing the manifests and writing one may fail. -/
inductive Act
  | call (i : ℕ)
  | list (i : ℕ) (ok : Bool)
  | insert (i : ℕ)
  | save (i : ℕ) (head : ManifestHead) (overwrite : Bool)
  | write (i : ℕ) (ok : Bool)
  | forget (i : ℕ)
  | delete (i : ℕ)
  | unlink (i : ℕ) (version : String)
  | rmdir (i : ℕ)

/-- A file is replaced, or it is a new one. -/
def putFile (head : ManifestHead) (files : Manifests) : Manifests :=
  if files.any fun f => f.1 = head.packVersion then
    files.map fun f => if f.1 = head.packVersion then (f.1, some head) else f
  else files ++ [(head.packVersion, some head)]

def exists? (version : String) (dir : Option Manifests) : Bool :=
  dir.any fun files => files.any fun f => f.1 = version

def dropFile (version : String) (dir : Option Manifests) : Option Manifests :=
  dir.map fun files => files.filter fun f => f.1 ≠ version

def dropDir (dir : Option Manifests) : Option Manifests := dir.filter fun files => !files.isEmpty

section Step

variable (s : State) (i : ℕ)

/-- A call moves. -/
def State.to (p : Proc) : State := { s with procs := setAt s.procs i p }

@[simp] theorem State.procs_to (p : Proc) : (s.to i p).procs i = p := setAt_self ..

/-- A call begins, where nothing is in flight. -/
def State.begin (p : Proc) : Option State :=
  match s.procs i with
  | .idle | .answered _ => some (s.to i p)
  | _ => none

def insert : Option State :=
  match s.procs i with
  | .listed built => some { s.to i (.answered built) with cache := some built }
  | _ => none

/-- What the list holds when it cannot be made is nothing. -/
def list (ok : Bool) : Option State :=
  match s.procs i with
  | .missed => some (s.to i (.listed (if ok then derived s.dir else fun _ => none)))
  | _ => none

def write (ok : Bool) : Option State :=
  match s.procs i with
  | .saving head =>
    some (if ok then { s.to i .written with dir := some (putFile head (s.dir.getD [])) }
      else s.to i .idle)
  | _ => none

def forget : Option State :=
  match s.procs i with
  | .written => some { s.to i .idle with cache := none }
  | _ => none

def unlink (version : String) : Option State :=
  match s.procs i with
  | .deleting => some { s with dir := dropFile version s.dir }
  | _ => none

/-- The directory goes if it is empty; else the deletion has failed. -/
def rmdir : Option State :=
  match s.procs i with
  | .deleting => some { s.to i .idle with dir := dropDir s.dir }
  | _ => none

end Step

def step (s : State) : Act → Option State
  | .call i => s.begin i (s.cache.elim .missed .answered)
  | .list i ok => list s i ok
  | .insert i => insert s i
  | .save i head overwrite =>
    s.begin i (if !overwrite && exists? head.packVersion s.dir then .idle else .saving head)
  | .write i ok => write s i ok
  | .forget i => forget s i
  | .delete i => s.begin i .deleting
  | .unlink i version => unlink s i version
  | .rmdir i => rmdir s i

/-- A pack, of which nothing is remembered yet. -/
def system : System State Act where
  init s := s.cache = none ∧ ∀ i, s.procs i = .idle
  step := step

/-- A call has written a manifest, and has yet to have the index forgotten. -/
def Pending (s : State) : Prop := ∃ j, s.procs j = .written

/-- What is remembered is what the manifests say, or it is about to be forgotten. -/
def Fresh (s : State) : Prop := Pending s ∨ ∀ built ∈ s.cache, built = derived s.dir

/-- What a step may be taken in for the index to be kept. -/
def Kept (s : State) : Act → Prop
  | .insert i => ∀ built, s.procs i = .listed built → Pending s ∨ built = derived s.dir
  | .unlink _ version =>
    Pending s ∨ s.cache = none ∨ derived (dropFile version s.dir) = derived s.dir
  | _ => True

/-! ## The index is kept -/

variable {s s' : State}

theorem begin_eq_some {i : ℕ} {p : Proc} (h : s.begin i p = some s') :
    (s.procs i).AtRest ∧ s' = s.to i p := by
  rw [State.begin] at h
  split at h
  · rename_i hp
    exact ⟨hp ▸ trivial, (Option.some.inj h).symm⟩
  · rename_i built hp
    exact ⟨hp ▸ trivial, (Option.some.inj h).symm⟩
  · exact absurd h nofun

section Inversion

variable {i : ℕ}

theorem list_eq_some {ok : Bool} (h : list s i ok = some s') : s.procs i = .missed ∧
    s' = s.to i (.listed (if ok then derived s.dir else fun _ => none)) := by
  rw [list] at h
  split at h
  · rename_i hp
    exact ⟨hp, (Option.some.inj h).symm⟩
  · exact absurd h nofun

theorem insert_eq_some (h : insert s i = some s') : ∃ built, s.procs i = .listed built ∧
    s' = { s.to i (.answered built) with cache := some built } := by
  rw [insert] at h
  split at h
  · rename_i built hp
    exact ⟨built, hp, (Option.some.inj h).symm⟩
  · exact absurd h nofun

theorem write_eq_some {ok : Bool} (h : write s i ok = some s') : ∃ head, s.procs i = .saving head ∧
    s' = if ok then { s.to i .written with dir := some (putFile head (s.dir.getD [])) }
      else s.to i .idle := by
  rw [write] at h
  split at h
  · rename_i head hp
    exact ⟨head, hp, (Option.some.inj h).symm⟩
  · exact absurd h nofun

theorem forget_eq_some (h : forget s i = some s') : s.procs i = .written ∧
    s' = { s.to i .idle with cache := none } := by
  rw [forget] at h
  split at h
  · rename_i hp
    exact ⟨hp, (Option.some.inj h).symm⟩
  · exact absurd h nofun

theorem unlink_eq_some {version : String} (h : unlink s i version = some s') :
    s.procs i = .deleting ∧ s' = { s with dir := dropFile version s.dir } := by
  rw [unlink] at h
  split at h
  · rename_i hp
    exact ⟨hp, (Option.some.inj h).symm⟩
  · exact absurd h nofun

theorem rmdir_eq_some (h : rmdir s i = some s') : s.procs i = .deleting ∧
    s' = { s.to i .idle with dir := dropDir s.dir } := by
  rw [rmdir] at h
  split at h
  · rename_i hp
    exact ⟨hp, (Option.some.inj h).symm⟩
  · exact absurd h nofun

end Inversion

/-- A call that is about to have the index forgotten still is, when another one moves. -/
theorem Pending.to (h : Pending s) {i : ℕ} {p : Proc} (hi : s.procs i ≠ .written) :
    Pending (s.to i p) := by
  obtain ⟨j, hj⟩ := h
  have hne : j ≠ i := by
    rintro rfl
    exact hi hj
  exact ⟨j, (setAt_of_ne _ _ hne).trans hj⟩

/-- A call moves, and neither the manifests nor what is remembered do. -/
theorem Fresh.to (h : Fresh s) {i : ℕ} {p : Proc} (hi : s.procs i ≠ .written) :
    Fresh (s.to i p) := h.imp (fun hp => hp.to hi) id

theorem Proc.AtRest.ne_written {p : Proc} (h : p.AtRest) : p ≠ .written := by
  rintro rfl
  exact h

theorem derived_dropDir (dir : Option Manifests) : derived (dropDir dir) = derived dir := by
  rcases dir with _ | _ | ⟨f, files⟩ <;> rfl

/-- A step keeps what is remembered fresh. -/
theorem fresh_step {a : Act} (h : Fresh s) (ha : Kept s a) (hs : step s a = some s') : Fresh s' := by
  rcases a with i | ⟨i, ok⟩ | i | ⟨i, head, overwrite⟩ | ⟨i, ok⟩ | i | i | ⟨i, version⟩ | i
  · obtain ⟨hrest, rfl⟩ := begin_eq_some hs
    exact h.to hrest.ne_written
  · obtain ⟨hp, rfl⟩ := list_eq_some hs
    exact h.to (by rw [hp]; exact nofun)
  · obtain ⟨built, hp, rfl⟩ := insert_eq_some hs
    refine (ha built hp).imp (fun hpend => hpend.to (by rw [hp]; exact nofun)) ?_
    intro hbuilt built' hb
    exact (Option.some.inj hb).symm.trans hbuilt
  · obtain ⟨hrest, rfl⟩ := begin_eq_some hs
    exact h.to hrest.ne_written
  · obtain ⟨head, hp, rfl⟩ := write_eq_some hs
    split_ifs
    · exact .inl ⟨i, setAt_self ..⟩
    · exact h.to (by rw [hp]; exact nofun)
  · obtain ⟨-, rfl⟩ := forget_eq_some hs
    exact .inr nofun
  · obtain ⟨hrest, rfl⟩ := begin_eq_some hs
    exact h.to hrest.ne_written
  · obtain ⟨-, rfl⟩ := unlink_eq_some hs
    rcases ha with hpend | hnone | hsame
    · exact .inl hpend
    · exact .inr fun built hb => absurd (hnone.symm.trans hb) nofun
    · exact h.imp id fun hfresh built hb => (hfresh built hb).trans hsame.symm
  · obtain ⟨hp, rfl⟩ := rmdir_eq_some hs
    refine h.imp (fun hpend => hpend.to (by rw [hp]; exact nofun)) fun hfresh built hb => ?_
    exact (hfresh built hb).trans (derived_dropDir _).symm

/-- What is remembered when nothing is in flight is what the manifests say. -/
theorem system_kept (h : system.Reach Kept s) (hrest : ∀ i, (s.procs i).AtRest) :
    ∀ built ∈ s.cache, built = derived s.dir := by
  have hfresh : Fresh s := h.invariant
    (fun _ hs => .inr fun _ hb => absurd (hs.1.symm.trans hb) nofun)
    fun _ _ _ hfresh ha hs => fresh_step hfresh ha hs
  rcases hfresh with ⟨j, hj⟩ | hfresh
  · exact absurd hj (hrest j).ne_written
  · exact hfresh

/-- A call that begins while nothing is in flight, and runs alone: what it answers. -/
def Answers (s : State) (i : ℕ) (built : BuildsByCommit) : Prop :=
  ∃ as s', (as = [.call i] ∨ as = [.call i, .list i true, .insert i]) ∧
    system.run s as = some s' ∧ s'.procs i = .answered built

theorem State.begin_of_atRest {i : ℕ} (hrest : (s.procs i).AtRest) (p : Proc) :
    s.begin i p = some (s.to i p) := by
  rw [State.begin]
  rcases hp : s.procs i with _ | _ | built | built | head | _ | _ <;> rw [hp] at hrest
  all_goals exact False.elim hrest

/-- It answers what is remembered, or else what the manifests say. -/
theorem answers_cache {i : ℕ} (hrest : (s.procs i).AtRest) :
    Answers s i (s.cache.getD (derived s.dir)) := by
  rcases hc : s.cache with _ | built
  · have hcall : system.step s (.call i) = some (s.to i .missed) :=
      (congrArg (fun c : Option BuildsByCommit => s.begin i (c.elim .missed .answered)) hc).trans
        (s.begin_of_atRest hrest _)
    have hlist : system.step (s.to i .missed) (.list i true) =
        some ((s.to i .missed).to i (.listed (derived s.dir))) := by
      change list (s.to i .missed) i true = _
      rw [list, State.procs_to]
      rfl
    have hinsert : system.step ((s.to i .missed).to i (.listed (derived s.dir))) (.insert i) = some
        { ((s.to i .missed).to i (.listed (derived s.dir))).to i (.answered (derived s.dir)) with
          cache := some (derived s.dir) } := by
      change insert ((s.to i .missed).to i (.listed (derived s.dir))) i = _
      rw [insert, State.procs_to]
    have hrun : system.run s [.call i, .list i true, .insert i] = some
        { ((s.to i .missed).to i (.listed (derived s.dir))).to i (.answered (derived s.dir)) with
          cache := some (derived s.dir) } := by
      rw [System.run, hcall, Option.bind_some, System.run, hlist, Option.bind_some, System.run,
        hinsert, Option.bind_some, System.run]
    exact ⟨_, _, .inr rfl, hrun, State.procs_to ..⟩
  · have hcall : system.step s (.call i) = some (s.to i (.answered built)) :=
      (congrArg (fun c : Option BuildsByCommit => s.begin i (c.elim .missed .answered)) hc).trans
        (s.begin_of_atRest hrest _)
    have hrun : system.run s [.call i] = some (s.to i (.answered built)) := by
      rw [System.run, hcall, Option.bind_some, System.run]
    exact ⟨_, _, .inl rfl, hrun, State.procs_to ..⟩

/-- While nothing is in flight, a call answers what the manifests say, of each commit the versions that
    came out of it, newest first. -/
theorem system_fresh (h : system.Reach Kept s) (hrest : ∀ i, (s.procs i).AtRest) (i : ℕ) :
    Answers s i (derived s.dir) ∧
      ∀ files ∈ s.dir, ∀ commit, ∃ builds : List ManifestHead,
        builds.Perm ((files.filterMap Prod.snd).filter (ManifestHead.Of commit)) ∧
        builds.Pairwise (fun a b => b.generatedAt ≤ a.generatedAt) ∧
        derived s.dir commit =
          if builds = [] then none else some (builds.map ManifestHead.packVersion) := by
  constructor
  · have hanswers := answers_cache (hrest i)
    rcases hc : s.cache with _ | built
    · rwa [hc] at hanswers
    · rw [hc] at hanswers
      rwa [← system_kept h hrest built hc]
  · intro files hfiles commit
    rw [hfiles]
    exact derived_spec files commit

/-! ## A manifest is saved, and one is left behind -/

def start : State := ⟨some [], none, fun _ => .idle⟩

def shipped : ManifestHead where
  packVersion := "0.1.0"
  generatedAt := "2026-08-11T00:00:00Z"
  builtFrom := some "c1"

/-- A manifest is saved, and the next call names its commit. -/
theorem system_fresh_saved : ∃ s, s.dir = some [("0.1.0", some shipped)] ∧
    Answers s 1 (derived s.dir) ∧ derived s.dir "c1" = some ["0.1.0"] := by
  have h₀ : system.Reach Kept start := .init ⟨rfl, fun _ => rfl⟩
  have saved := h₀.step (a := .save 0 shipped false) (by exact trivial) rfl
  have written := saved.step (a := .write 0 true) (by exact trivial) rfl
  have forgotten := written.step (a := .forget 0) (by exact trivial) rfl
  refine ⟨_, rfl, (system_fresh forgotten (fun i => ?_) 1).1, rfl⟩
  rcases i with _ | i <;> exact trivial

/-- A call lists the manifests before one is written, and remembers what it found after that was
    forgotten: what shipped is not named. Nor is what was remembered forgotten when the pack goes. -/
theorem system_behind :
    (∃ s, system.Reachable s ∧ (∀ i, (s.procs i).AtRest) ∧
      derived s.dir "c1" = some ["0.1.0"] ∧ ∃ built, Answers s 2 built ∧ built "c1" = none) ∧
    ∃ s, system.Reachable s ∧ (∀ i, (s.procs i).AtRest) ∧
      derived s.dir "c1" = none ∧ ∃ built, Answers s 2 built ∧ built "c1" = some ["0.1.0"] := by
  have h₀ : system.Reachable start := .init ⟨rfl, fun _ => rfl⟩
  constructor
  · have called := h₀.step (a := .call 0) (by exact trivial) rfl
    have listed := called.step (a := .list 0 true) (by exact trivial) rfl
    have saved := listed.step (a := .save 1 shipped false) (by exact trivial) rfl
    have written := saved.step (a := .write 1 true) (by exact trivial) rfl
    have forgotten := written.step (a := .forget 1) (by exact trivial) rfl
    have inserted := forgotten.step (a := .insert 0) (by exact trivial) rfl
    refine ⟨_, inserted, fun i => ?_, rfl, _, answers_cache (by exact trivial), rfl⟩
    rcases i with _ | _ | i <;> exact trivial
  · have saved := h₀.step (a := .save 1 shipped false) (by exact trivial) rfl
    have written := saved.step (a := .write 1 true) (by exact trivial) rfl
    have forgotten := written.step (a := .forget 1) (by exact trivial) rfl
    have called := forgotten.step (a := .call 0) (by exact trivial) rfl
    have listed := called.step (a := .list 0 true) (by exact trivial) rfl
    have inserted := listed.step (a := .insert 0) (by exact trivial) rfl
    have deleting := inserted.step (a := .delete 1) (by exact trivial) rfl
    have unlinked := deleting.step (a := .unlink 1 "0.1.0") (by exact trivial) rfl
    have gone := unlinked.step (a := .rmdir 1) (by exact trivial) rfl
    refine ⟨_, gone, fun i => ?_, rfl, _, answers_cache (by exact trivial), rfl⟩
    rcases i with _ | _ | i <;> exact trivial

end BuildIndex

end Smrt
