import Smrt.Authoring.Commits
import Smrt.Domain.Serde
import Smrt.Http.BuildCommit
import Smrt.Lib.System

/-!
# The history of a pack

A commit is two files, its record and its snapshot, and `HEAD` names the last commit. A commit
names the one before it, and so the history is a chain of commits (`Chain`). A commit is saved by
four writes: its snapshot, its record, `HEAD`, and the list of the pending authors, which goes; and
it may stop after any of them. Every write is made or not.

As long as no two texts that were digested have one digest (`NoCollision`), the history only grows,
whatever saves stop in between: a commit that is in it can be read, stays what it is, and follows no
commit that follows it (`system_history`).
-/

namespace Smrt

/-! ## Commits as JSON -/

/-- What the record of a commit says: all of it but its snapshot. -/
structure CommitRecord where
  id : String
  parent : Option String
  author : String
  message : String
  at' : String
  configRev : String
  contributors : List String
  deriving DecidableEq

/-- The record of a commit. -/
def Commit.record (c : Commit) : CommitRecord :=
  ⟨c.id, c.parent, c.author, c.message, c.at', c.configRev, c.contributors⟩

theorem Commit.eq_of_record_eq {c c' : Commit} (hr : c.record = c'.record)
    (hs : c.snapshot = c'.snapshot) : c = c' := by
  obtain ⟨_, _, _, _, _, _, _, _⟩ := c
  obtain ⟨_, _, _, _, _, _, _, _⟩ := c'
  obtain ⟨rfl, rfl, rfl, rfl, rfl, rfl, rfl⟩ := CommitRecord.mk.inj hr
  obtain rfl := hs
  rfl

namespace CommitRecord

open Json

def keys : List String :=
  ["id", "parent", "author", "message", "at", "config_rev", "contributors"]

/-- The members written for a record. -/
def fields (c : CommitRecord) : List (String × Option Json) :=
  [("id", some (.str c.id)),
   ("parent", c.parent.map .str),
   ("author", some (.str c.author)),
   ("message", some (.str c.message)),
   ("at", some (.str c.at')),
   ("config_rev", some (.str c.configRev)),
   ("contributors", some (.arr (c.contributors.map .str)))]

def toValue (c : CommitRecord) : Json := .obj (members c.fields)

def ofMembers (o : Members) : Option CommitRecord := do
  let id ← must asStr (o.lookup "id")
  let parent ← may asStr (o.lookup "parent")
  let author ← must asStr (o.lookup "author")
  let message ← must asStr (o.lookup "message")
  let at' ← must asStr (o.lookup "at")
  let configRev ← must asStr (o.lookup "config_rev")
  let contributors ← orDefault (listOf asStr) [] (o.lookup "contributors")
  return { id, parent, author, message, at', configRev, contributors }

def fromValue (j : Json) : Option CommitRecord := (Json.record keys j).bind ofMembers

theorem fromValue_toValue (c : CommitRecord) : fromValue c.toValue = some c := by
  have hl := @lookup_members c.fields (by simp [fields])
  simp only [fromValue, toValue, record_obj, Option.bind_some, ofMembers, hl]
  simp [fields, List.lookup_cons]

end CommitRecord

/-- A snapshot, as it is written. -/
def snapshotValue (cfg : PackConfig) : Json := .obj [("config", cfg.toValue)]

/-- A snapshot, as it is read. -/
def snapshotOf (operatorUid : Int64) (j : Json) : Option PackConfig :=
  (Json.record ["config"] j).bind fun o =>
    Json.must (PackConfig.fromValue operatorUid) (o.lookup "config")

theorem snapshotOf_snapshotValue (operatorUid : Int64) (cfg : PackConfig) :
    snapshotOf operatorUid (snapshotValue cfg) = some cfg := by
  rw [snapshotOf, snapshotValue, Json.record_obj, Option.bind_some, List.lookup_cons_self,
    Json.must_some, PackConfig.fromValue_toValue]

namespace History

/-! ## The files -/

/-- The files under `commits`. -/
structure Disk where
  records : String → Option Json
  snapshots : String → Option Json
  headText : Option String
  pending : Option (List String)

/-- A write of one file, which is made or not. -/
inductive Write
  | snapshot (id : String) (content : Json)
  | record (id : String) (content : Json)
  | head (text : String)
  | pending (authors : Option (List String))

def Disk.write (d : Disk) : Write → Disk
  | .snapshot id j => { d with snapshots := fun k => if k = id then some j else d.snapshots k }
  | .record id j => { d with records := fun k => if k = id then some j else d.records k }
  | .head text => { d with headText := some text }
  | .pending authors => { d with pending := authors }

/-- The writes that save a commit. -/
def saveCommit (c : Commit) : List Write :=
  [.snapshot c.id (snapshotValue c.snapshot), .record c.id c.record.toValue, .head c.id,
    .pending none]

section Read

variable (operatorUid : Int64) (packId : String) (d : Disk)

def commitHead : Option String :=
  if isSafeId packId then (d.headText.map trim).filter fun id => isCommitId id else none

def loadCommit (id : String) : Option CommitRecord :=
  if isSafeId packId ∧ isCommitId id then (d.records id).bind CommitRecord.fromValue else none

def loadCommitConfig (id : String) : Option PackConfig :=
  if isSafeId packId ∧ isCommitId id then (d.snapshots id).bind (snapshotOf operatorUid) else none

/-- The history from a commit on, so many of its commits at most. -/
def walk : ℕ → Option String → List CommitRecord
  | 0, _ | _ + 1, none => []
  | limit + 1, some id => match loadCommit packId d id with
    | some c => c :: walk limit c.parent
    | none => []

def commitLog (after : Option String) (limit : ℕ) : List CommitRecord :=
  match after with
  | some id => match loadCommit packId d id with
    | some c => walk packId d limit c.parent
    | none => []
  | none => walk packId d limit (commitHead packId d)

/-- The commits from one on, each of which can be read, and so can the one before it. -/
inductive Chain : Option String → List Commit → Prop
  | nil : Chain none []
  | cons {c : Commit} {l : List Commit} : isCommitId c.id = true →
      loadCommit packId d c.id = some c.record →
      loadCommitConfig operatorUid packId d c.id = some c.snapshot → Chain c.parent l →
      Chain (some c.id) (c :: l)

end Read

/-! ## The system -/

/-- The files, and the texts that were digested. -/
structure State where
  disk : Disk
  made : List String

/-- What happens: a commit is saved, or only its first writes are made; somebody's work is noted. -/
inductive Act
  | save (cfg : PackConfig) (author message : String) (contributors : List String) (at' : String)
      (writes : ℕ)
  | note (authors : List String)

section Step

variable (X : Outside) (N : Naming) (packId : String)

/-- The text that names a commit. -/
def commitText (c : Commit) : String :=
  c.parent.getD "" ++ "\n" ++ c.author ++ "\n" ++ c.at' ++ "\n" ++ c.message ++ "\n" ++
    N.text c.snapshot

/-- A commit of a config, after the last one. -/
def State.commit (s : State) (cfg : PackConfig) (author message : String)
    (contributors : List String) (at' : String) : Commit :=
  makeCommit X N cfg (commitHead packId s.disk) author message contributors at'

def step (s : State) : Act → Option State
  | .save cfg author message contributors at' writes =>
    let c := s.commit X N packId cfg author message contributors at'
    if isSafeId packId ∧ isCommitId c.id then
      some ⟨((saveCommit c).take writes).foldl Disk.write s.disk, commitText N c :: s.made⟩
    else some { s with made := commitText N c :: s.made }
  | .note authors => some { s with disk := s.disk.write (.pending (some authors)) }

/-- A pack without a history. -/
def system : System State Act where
  init s := (∀ id, s.disk.records id = none) ∧ (∀ id, s.disk.snapshots id = none) ∧
    s.disk.headText = none ∧ s.made = []
  step := step X N packId

/-- What is digested has the digest of no other text that was. -/
def NoCollision (s : State) : Act → Prop
  | .save cfg author message contributors at' _ => ∀ t ∈ s.made,
    N.sha1 t = (s.commit X N packId cfg author message contributors at').id →
      t = commitText N (s.commit X N packId cfg author message contributors at')
  | .note _ => True

end Step

/-! ## Chains -/

section Chain

variable {operatorUid : Int64} {packId : String} {d d' : Disk} {p : Option String}
  {l l' : List Commit} {c : Commit}

/-- What can be read is one chain. -/
theorem Chain.eq (h : Chain operatorUid packId d p l) (h' : Chain operatorUid packId d p l') :
    l = l' := by
  induction h generalizing l' with
  | nil => rcases h' with _ | _; rfl
  | @cons c l _ hr hs _ ih =>
    generalize hq : some c.id = q at h'
    rcases h' with _ | @⟨c', l', _, hr', hs', h'⟩
    · exact absurd hq nofun
    · rw [Option.some.inj hq] at hr hs
      obtain rfl : c = c' := Commit.eq_of_record_eq
        (Option.some.inj (hr.symm.trans hr')) (Option.some.inj (hs.symm.trans hs'))
      rw [ih h']

/-- Files of other commits do not matter. -/
theorem Chain.congr (h : Chain operatorUid packId d p l)
    (hr : ∀ c ∈ l, d'.records c.id = d.records c.id)
    (hs : ∀ c ∈ l, d'.snapshots c.id = d.snapshots c.id) : Chain operatorUid packId d' p l := by
  induction h with
  | nil => exact .nil
  | @cons c l hid hc hcfg _ ih =>
    refine .cons hid ?_ ?_ (ih (fun c hc => hr c (List.mem_cons_of_mem _ hc))
      fun c hc => hs c (List.mem_cons_of_mem _ hc))
    · rw [loadCommit, hr c List.mem_cons_self]
      exact hc
    · rw [loadCommitConfig, hs c List.mem_cons_self]
      exact hcfg

/-- Every commit of a chain can be read. -/
theorem Chain.load (h : Chain operatorUid packId d p l) (hc : c ∈ l) :
    isCommitId c.id = true ∧ loadCommit packId d c.id = some c.record ∧
      loadCommitConfig operatorUid packId d c.id = some c.snapshot := by
  induction h with
  | nil => exact absurd hc List.not_mem_nil
  | cons hid hr hs _ ih =>
    rcases List.mem_cons.1 hc with rfl | hc
    · exact ⟨hid, hr, hs⟩
    · exact ih hc

theorem Chain.isCommitId_of_some {id : String} (h : Chain operatorUid packId d (some id) l) :
    isCommitId id = true := by
  rcases h with _ | ⟨hid, _, _, _⟩
  exact hid

/-- From every commit on there is a chain, a shorter one before it. -/
theorem Chain.before (h : Chain operatorUid packId d p l) (hc : c ∈ l) :
    ∃ l', Chain operatorUid packId d c.parent l' ∧ l'.length < l.length := by
  induction h with
  | nil => exact absurd hc List.not_mem_nil
  | @cons _ l _ _ _ hl ih =>
    rcases List.mem_cons.1 hc with rfl | hc
    · exact ⟨l, hl, Nat.lt_succ_self _⟩
    · obtain ⟨l', hl', hlt⟩ := ih hc
      exact ⟨l', hl', Nat.lt_succ_of_lt hlt⟩

/-- No commit follows a commit that follows it. -/
theorem Chain.parent_ne (h : Chain operatorUid packId d p l) (hc : c ∈ l) : c.parent ≠ p := by
  rintro rfl
  obtain ⟨l', hl', hlt⟩ := h.before hc
  exact absurd hlt (hl'.eq h ▸ Nat.lt_irrefl _)

theorem Chain.nodup (h : Chain operatorUid packId d p l) : (l.map Commit.id).Nodup := by
  induction h with
  | nil => exact List.nodup_nil
  | @cons c l hid hr hs hl ih =>
    refine List.nodup_cons.2 ⟨fun hmem => ?_, ih⟩
    obtain ⟨c', hc', hid'⟩ := List.mem_map.1 hmem
    obtain ⟨_, hr', hs'⟩ := hl.load hc'
    rw [hid'] at hr' hs'
    obtain rfl : c = c' := Commit.eq_of_record_eq
      (Option.some.inj (hr.symm.trans hr')) (Option.some.inj (hs.symm.trans hs'))
    exact hl.parent_ne hc' rfl

theorem walk_eq (h : Chain operatorUid packId d p l) (limit : ℕ) :
    walk packId d limit p = (l.map Commit.record).take limit := by
  induction h generalizing limit with
  | nil => rcases limit with _ | limit <;> rfl
  | cons _ hr _ _ ih =>
    rcases limit with _ | limit
    · rfl
    · rw [walk, hr, List.map_cons, List.take_succ_cons, ← ih limit]
      rfl

end Chain

/-! ## What is saved -/

section Save

variable {operatorUid : Int64} {N : Naming} {packId : String} {d : Disk} {p : Option String}
  {l : List Commit} {c : Commit}

theorem hex_of_isCommitId {id : String} (h : isCommitId id = true) :
    ∀ c ∈ id.toList, c.isDigit = true ∨ ('a' ≤ c ∧ c ≤ 'f') ∨ ('A' ≤ c ∧ c ≤ 'F') := fun c hc =>
  of_decide_eq_true
    (List.all_eq_true.1 (of_decide_eq_true (of_decide_eq_true h).2).2 c hc)

theorem trim_of_isCommitId {id : String} (h : isCommitId id = true) : trim id = id :=
  trim_eq_self fun c hc => not_isWhiteSpace_of_hex (hex_of_isCommitId h c hc)

theorem commitHead_eq_some {id : String} (hsafe : isSafeId packId = true)
    (h : isCommitId id = true) (hd : d.headText = some id) : commitHead packId d = some id := by
  rw [commitHead, if_pos hsafe, hd, Option.map_some, trim_of_isCommitId h, Option.filter_some,
    if_pos h]

/-- The first line of a text, if there is another one. -/
theorem takeWhile_line {a r : List Char} (h : '\n' ∉ a) :
    (a ++ '\n' :: r).takeWhile (· ≠ '\n') = a := by
  have hall : ∀ c ∈ a, decide (c ≠ '\n') = true := by
    intro c hc
    refine decide_eq_true ?_
    rintro rfl
    exact h hc
  rw [List.takeWhile_append_of_pos hall, List.takeWhile_cons_of_neg (by decide), List.append_nil]

/-- The text of a commit says in its first line which commit it follows. -/
theorem takeWhile_commitText (h : ∀ id ∈ c.parent, isCommitId id = true) :
    (commitText N c).toList.takeWhile (· ≠ '\n') = (c.parent.getD "").toList := by
  have hline : '\n' ∉ (c.parent.getD "").toList := fun hn => by
    rcases hp : c.parent with _ | id
    · rw [hp] at hn
      exact absurd hn (by decide)
    · rw [hp] at hn
      exact absurd (hex_of_isCommitId (h id hp) _ hn) (by decide)
  rw [commitText]
  simp only [String.toList_append, List.append_assoc]
  exact takeWhile_line hline

theorem parent_eq_of_commitText {c' : Commit} (h : ∀ id ∈ c.parent, isCommitId id = true)
    (h' : ∀ id ∈ c'.parent, isCommitId id = true) (ht : commitText N c = commitText N c') :
    c.parent = c'.parent := by
  have hline := takeWhile_commitText (N := N) h
  rw [ht, takeWhile_commitText h'] at hline
  have heq := String.toList_inj.1 hline
  have hne : ∀ id, isCommitId id = true → id ≠ "" := fun id hid he =>
    (of_decide_eq_true (of_decide_eq_true hid).2).1 he
  rcases hp : c.parent with _ | id
  · rcases hp' : c'.parent with _ | id'
    · rfl
    · rw [hp, hp'] at heq
      exact absurd heq (hne id' (h' id' hp'))
  · rcases hp' : c'.parent with _ | id'
    · rw [hp, hp'] at heq
      exact absurd heq.symm (hne id (h id hp))
    · rw [hp, hp'] at heq
      exact congrArg some heq.symm

/-- The first writes of a save leave the chain as it is, and its third one puts the commit before
    it. -/
theorem chain_saved (h : Chain operatorUid packId d (commitHead packId d) l)
    (hsafe : isSafeId packId = true) (hid : isCommitId c.id = true)
    (hp : c.parent = commitHead packId d) (hnew : ∀ c' ∈ l, c'.id ≠ c.id) (writes : ℕ) :
    Chain operatorUid packId (((saveCommit c).take writes).foldl Disk.write d)
      (commitHead packId (((saveCommit c).take writes).foldl Disk.write d))
      (if writes < 3 then l else c :: l) := by
  have hother : ∀ c' ∈ l, ∀ (j : Json) (f : String → Option Json),
      (if c'.id = c.id then some j else f c'.id) = f c'.id := fun c' hc' _ _ => if_neg (hnew c' hc')
  have hsnapshot : Chain operatorUid packId
      (d.write (.snapshot c.id (snapshotValue c.snapshot))) (commitHead packId d) l :=
    h.congr (fun _ _ => rfl) fun c' hc' => hother c' hc' _ _
  have hrecord : Chain operatorUid packId
      ((d.write (.snapshot c.id (snapshotValue c.snapshot))).write
        (.record c.id c.record.toValue)) (commitHead packId d) l :=
    hsnapshot.congr (fun c' hc' => hother c' hc' _ _) fun _ _ => rfl
  -- With both files there the commit can be read, and so can what it follows.
  have hhead : Chain operatorUid packId (((saveCommit c).take 3).foldl Disk.write d)
      (some c.id) (c :: l) := by
    refine .cons hid ?_ ?_ (hp ▸ hrecord.congr (fun _ _ => rfl) fun _ _ => rfl)
    · have hfile : (((saveCommit c).take 3).foldl Disk.write d).records c.id =
          some c.record.toValue := if_pos rfl
      rw [loadCommit, if_pos ⟨hsafe, hid⟩, hfile, Option.bind_some,
        CommitRecord.fromValue_toValue]
    · have hfile : (((saveCommit c).take 3).foldl Disk.write d).snapshots c.id =
          some (snapshotValue c.snapshot) := if_pos rfl
      rw [loadCommitConfig, if_pos ⟨hsafe, hid⟩, hfile, Option.bind_some,
        snapshotOf_snapshotValue]
  rcases writes with _ | _ | _ | _ | writes
  · exact h
  · exact hsnapshot
  · exact hrecord
  · rw [commitHead_eq_some hsafe hid rfl]
    exact hhead
  · have hall : (saveCommit c).take (writes + 4) = saveCommit c :=
      List.take_of_length_le (Nat.le_add_left 4 writes)
    rw [hall, if_neg (by omega), commitHead_eq_some hsafe hid rfl]
    exact hhead.congr (fun _ _ => rfl) fun _ _ => rfl

end Save

/-! ## The history -/

section Inv

variable {X : Outside} {N : Naming} {packId : String} {s s' : State} {l : List Commit}

/-- The commits before the last one are a chain, and their texts were digested. -/
structure Inv (X : Outside) (N : Naming) (packId : String) (s : State) (l : List Commit) :
    Prop where
  chain : Chain X.operatorUid packId s.disk (commitHead packId s.disk) l
  named : ∀ c ∈ l, c.id = N.sha1 (commitText N c) ∧ commitText N c ∈ s.made

theorem isCommitId_of_parent {d : Disk} {op : Int64} {p : Option String}
    (h : Chain op packId d p l) : ∀ id ∈ p, isCommitId id = true := by
  rintro id rfl
  exact h.isCommitId_of_some

/-- A commit after the last one has the name of no commit before it: else it would follow what that
    one follows. -/
theorem Inv.fresh (h : Inv X N packId s l) {c : Commit} (hp : c.parent = commitHead packId s.disk)
    (hcollision : ∀ t ∈ s.made, N.sha1 t = c.id → t = commitText N c) :
    ∀ c' ∈ l, c'.id ≠ c.id := by
  intro c' hc' he
  obtain ⟨hnamed, hmade⟩ := h.named c' hc'
  have htext := hcollision _ hmade (hnamed.symm.trans he)
  obtain ⟨l', hl', _⟩ := h.chain.before hc'
  have hparent := parent_eq_of_commitText (isCommitId_of_parent hl')
    (hp ▸ isCommitId_of_parent h.chain) htext
  exact h.chain.parent_ne hc' (hparent.trans hp)

/-- A step that digests no text to the digest of another one puts a commit before the others, or
    none. -/
theorem Inv.step {a : Act} (h : Inv X N packId s l) (ha : NoCollision X N packId s a)
    (hs : step X N packId s a = some s') : ∃ l', Inv X N packId s' (l' ++ l) := by
  rcases a with ⟨cfg, author, message, contributors, at', writes⟩ | authors
  · rw [History.step] at hs
    generalize hc : s.commit X N packId cfg author message contributors at' = c at hs
    have hp : c.parent = commitHead packId s.disk := hc ▸ rfl
    have hid : c.id = N.sha1 (commitText N c) := hc ▸ rfl
    have hnew := h.fresh hp (hc ▸ ha)
    have hnamed : ∀ c' ∈ l, c'.id = N.sha1 (commitText N c') ∧
        commitText N c' ∈ commitText N c :: s.made := fun c' hc' =>
      ⟨(h.named c' hc').1, List.mem_cons_of_mem _ (h.named c' hc').2⟩
    split_ifs at hs with hguard
    · obtain rfl := Option.some.inj hs
      have hchain := chain_saved h.chain hguard.1 hguard.2 hp hnew writes
      by_cases hw : writes < 3
      · rw [if_pos hw] at hchain
        exact ⟨[], hchain, hnamed⟩
      · rw [if_neg hw] at hchain
        refine ⟨[c], hchain, fun c' hc' => ?_⟩
        rcases List.mem_cons.1 hc' with rfl | hc'
        · exact ⟨hid, List.mem_cons_self⟩
        · exact hnamed c' hc'
    · obtain rfl := Option.some.inj hs
      exact ⟨[], h.chain, hnamed⟩
  · obtain rfl := Option.some.inj hs
    exact ⟨[], h.chain.congr (fun _ _ => rfl) fun _ _ => rfl, h.named⟩

theorem inv_of_reach (h : (system X N packId).Reach (NoCollision X N packId) s) :
    ∃ l, Inv X N packId s l :=
  h.invariant (P := fun s => ∃ l, Inv X N packId s l)
    (fun s ⟨_, _, hhead, _⟩ => ⟨[], by
      have hnone : commitHead packId s.disk = none := by
        rw [commitHead, hhead, Option.map_none, Option.filter_none, ite_self]
      exact ⟨hnone ▸ .nil, fun c hc => absurd hc List.not_mem_nil⟩⟩)
    fun _ _ _ ⟨_, hl⟩ ha hs =>
      have ⟨_, hl'⟩ := hl.step ha hs
      ⟨_, hl'⟩

/-- Later states have the same history, with commits before it. -/
theorem Inv.since (h : Inv X N packId s l)
    (hs : ((system X N packId).since s).Reach (NoCollision X N packId) s') :
    ∃ l', Inv X N packId s' (l' ++ l) :=
  hs.invariant (P := fun s' => ∃ l', Inv X N packId s' (l' ++ l))
    (fun t ht => by
      obtain rfl : t = s := ht
      exact ⟨[], h⟩)
    fun _ _ _ ⟨l', hl⟩ ha hs => by
      obtain ⟨l'', hl'⟩ := hl.step ha hs
      exact ⟨l'' ++ l', by rwa [List.append_assoc]⟩

/-- As long as no two digests collide, the last commit and all before it can be read, the log lists
    them once each, the last one first, and whatever is saved later, or saved in part, the commits
    of the history stay what they are. -/
theorem system_history (h : (system X N packId).Reach (NoCollision X N packId) s) :
    ∃ l, Chain X.operatorUid packId s.disk (commitHead packId s.disk) l ∧
      (l.map Commit.id).Nodup ∧
      (∀ limit, commitLog packId s.disk none limit = (l.map Commit.record).take limit) ∧
      ∀ s', ((system X N packId).since s).Reach (NoCollision X N packId) s' →
        ∃ l', Chain X.operatorUid packId s'.disk (commitHead packId s'.disk) (l' ++ l) := by
  obtain ⟨l, hl⟩ := inv_of_reach h
  refine ⟨l, hl.chain, hl.chain.nodup, fun limit => walk_eq hl.chain limit, fun s' hs => ?_⟩
  obtain ⟨l', hl'⟩ := hl.since hs
  exact ⟨l', hl'.chain⟩

end Inv

section Run

instance (X : Outside) (N : Naming) (packId : String) (s : State) :
    DecidablePred (NoCollision X N packId s)
  | .save cfg author message contributors at' _ => inferInstanceAs (Decidable (∀ t ∈ s.made,
      N.sha1 t = (s.commit X N packId cfg author message contributors at').id →
        t = commitText N (s.commit X N packId cfg author message contributors at')))
  | .note _ => isTrue trivial

/-- A pack with nothing in it, as text. -/
def anvilText : String :=
  "\x7b\"pack_id\":\"Anvil\",\"display_name\":\"Anvil\",\"tagline\":\"\"," ++
  "\"minecraft_version\":\"1.12.2\",\"loader\":\x7b\"name\":\"forge\"," ++
  "\"version\":\"14.23.5.2922\"\x7d,\"java_major\":8,\"tags\":[],\"featured\":false," ++
  "\"mods\":[],\"assets\":[],\"pack_meta\":\x7b\"icon_url\":null,\"banner_url\":null," ++
  "\"gallery_urls\":[],\"description_md\":null\x7d,\"owner\":0,\"tier\":\"official\"," ++
  "\"visibility\":\"published\"\x7d"

/-- The digests of the texts below. -/
def digests : List (String × String) :=
  [("\nada\n2026-01-01T00:00:00Z\nfirst\n" ++ anvilText,
    "5afb5b59a5633cae487d434d2fb18e970232c78c"),
   ("5afb5b59a5633cae487d434d2fb18e970232c78c\nada\n2026-01-02T00:00:00Z\nsecond\n" ++ anvilText,
    "8e7a533f77dc568cc5126a1f003de6784487a8b1"),
   ("5afb5b59a5633cae487d434d2fb18e970232c78c\nada\n2026-01-03T00:00:00Z\nsecond\n" ++ anvilText,
    "8119bf5ed0bd14072e733f5b09715fd3ea509a55")]

def naming : Naming where
  sha1 t := (digests.lookup t).getD ""
  text _ := anvilText

/-- A pack is committed, and again, where the second commit stops before `HEAD` the first time. -/
def saves : List Act :=
  [.save (.empty "Anvil") "ada" "first" ["ada"] "2026-01-01T00:00:00Z" 4,
   .note ["ben"],
   .save (.empty "Anvil") "ada" "second" ["ada", "ben"] "2026-01-02T00:00:00Z" 2,
   .save (.empty "Anvil") "ada" "second" ["ada", "ben"] "2026-01-03T00:00:00Z" 4]

/-- A pack that was never committed. -/
def start : State := ⟨⟨fun _ => none, fun _ => none, none, none⟩, []⟩

theorem system_history_saves : ∃ s : State,
    (commitLog "Anvil" s.disk none 9).map CommitRecord.id =
      ["8119bf5ed0bd14072e733f5b09715fd3ea509a55", "5afb5b59a5633cae487d434d2fb18e970232c78c"] ∧
    ∃ l, Chain 0 "Anvil" s.disk (commitHead "Anvil" s.disk) l ∧ (l.map Commit.id).Nodup := by
  have hrun : (((system .none naming "Anvil").guarded (NoCollision .none naming "Anvil")).run
      start saves).any (fun s : State => (commitLog "Anvil" s.disk none 9).map CommitRecord.id =
        ["8119bf5ed0bd14072e733f5b09715fd3ea509a55",
          "5afb5b59a5633cae487d434d2fb18e970232c78c"]) = true := by
    decide +kernel
  obtain ⟨s, hs, hids⟩ := (Option.any_eq_true _ _).1 hrun
  have h₀ : ((system .none naming "Anvil").guarded
      (NoCollision .none naming "Anvil")).Reachable start :=
    .init ⟨fun _ => rfl, fun _ => rfl, rfl, rfl⟩
  obtain ⟨l, hl, hnodup, _⟩ := system_history (h₀.run hs).of_guarded
  exact ⟨s, of_decide_eq_true hids, l, hl, hnodup⟩

end Run

end History

end Smrt
