import Smrt.Authoring.Sources
import Smrt.Http.Access
import Smrt.Lib.Table

/-!
# Uploads

A member uploads a jar, which is staged under its hash, and a row of the moderation queue is
added (`uploadJar`). An operator approves the row, and the staged jar moves to the shared cache
(`approveUpload`), or rejects it, and the staged jar goes (`rejectUpload`). A hash on the removed
list is not cached.

Rows are of an upload, and a staged jar is of all the uploads of the same bytes; neither decision
looks at what the row says, nor at the others. A pending upload is staged and can be approved,
and a row is decided once (`Decided`), as long as a decision is of a pending row, the only one
of its bytes, or changes nothing (`Once`): `system_decided`. Nothing sees to that: when the same
bytes are uploaded twice and one of the uploads is approved, the other one cannot be
(`system_stuck`), and a rejected upload that is approved for its twin has both fates
(`system_decidedTwice`).
-/

namespace Smrt

namespace Uploads

/-! ## States -/

/-- Whether an upload waits in the queue, and how it was decided. -/
inductive UploadStatus
  | pending
  | approved
  | rejected
  deriving DecidableEq

/-- A row of the queue. -/
structure UploadRow where
  uploader : Int64
  packId : String
  filename : String
  sha1 : String
  sizeBytes : Int64
  status : UploadStatus
  note : Option String
  createdAt : Int64
  decidedAt : Option Int64
  upstreamMaintainer : Option String
  decidedBy : Option Int64
  deriving DecidableEq

/-- How a row was decided. -/
structure Decision where
  status : UploadStatus
  note : Option String
  decidedBy : Option Int64
  deriving DecidableEq

/-- What a row says of how it was decided. -/
def UploadRow.decision (row : UploadRow) : Decision := ⟨row.status, row.note, row.decidedBy⟩

/-- The bytes of a jar. -/
abbrev Jar := List UInt8

/-- The queue, the staged jars, the shared cache and the removed list; then the history. -/
structure State where
  uploads : Table UploadRow
  staged : AList fun _ : String => Jar
  cache : AList fun _ : String => Jar
  removed : List String
  /-- What a row said as it left the queue. -/
  first : ℕ → Option Decision
  /-- The hash under which an approval of a row put its jar in the cache, or found it there. -/
  put : ℕ → Option String

/-- What an upload is told: by the accounts, and by Modrinth, whether it serves the jar and
    whether it covers what the jar is for. -/
structure Told where
  accounts : Accounts
  known : Except ApiError Bool
  covers : Except ApiError (Option String)

/-- What happens: an upload or a decision, and what operators do to the cache. -/
inductive Act
  | upload (told : Told) (identity : Identity) (now : Int64) (packId filename : String)
      (maintainer : Option String) (force : Bool) (body : Jar)
  | approve (identity : Identity) (now : Int64) (id : ℕ)
  | reject (identity : Identity) (now : Int64) (id : ℕ) (note : Option String)
  | deleteCacheJar (sha1 : String)
  | takedown (sha1 : String)
  | restore (sha1 : String)

/-! ## Storage -/

section Storage

variable (sha1Hex : Jar → String) (s : State) (sha1 : String)

def stageUpload (bytes : Jar) : Except ApiError State := do
  refuseIf (¬ isSha1 sha1) (.badRequest "invalid sha1")
  refuseIf (sha1Hex bytes ≠ sha1)
    (.badRequest ("sha1 mismatch: " ++ sha1 ++ " vs " ++ sha1Hex bytes))
  .ok { s with staged := s.staged.insert sha1 bytes }

def saveCacheJar (bytes : Jar) : Except ApiError State := do
  refuseIf (¬ isSha1 sha1) (.badRequest "invalid sha1")
  refuseIf (sha1Hex bytes ≠ sha1) (.badRequest
    ("sha1 mismatch: url claims " ++ sha1 ++ " but body hashes to " ++ sha1Hex bytes))
  refuseIf (sha1 ∈ s.removed) (.badRequest
    ("sha1 " ++ sha1 ++ " is on the removed-list and cannot be re-uploaded"))
  .ok (if sha1 ∈ s.cache then s else { s with cache := s.cache.insert sha1 bytes })

/-- A staged jar moves to the shared cache. -/
def promoteUpload : Except ApiError State :=
  match s.staged.lookup sha1 with
  | none => .error .notFound
  | some bytes => (saveCacheJar sha1Hex s sha1 bytes).map fun s =>
      { s with staged := s.staged.erase sha1 }

def discardUpload : State := { s with staged := s.staged.erase sha1 }

/-- The bytes of a cached jar are freed. -/
def deleteCacheJar : Except ApiError State := do
  refuseIf (¬ isSha1 sha1) (.badRequest "invalid sha1")
  refuseIf (sha1 ∉ s.cache) .notFound
  .ok { s with cache := s.cache.erase sha1 }

/-- A hash goes on the removed list, and its jar from the cache. -/
def takedown : Except ApiError State := do
  refuseIf (¬ isSha1 sha1) (.badRequest "invalid sha1")
  .ok { s with
    cache := s.cache.erase sha1
    removed := if sha1 ∈ s.removed then s.removed else s.removed ++ [sha1] }

def restore : Except ApiError State := do
  refuseIf (¬ isSha1 sha1) (.badRequest "invalid sha1")
  .ok { s with removed := s.removed.filter fun line => line ≠ sha1 }

end Storage

/-! ## Requests -/

section Requests

variable (sha1Hex : Jar → String) (s : State) (identity : Identity) (now : Int64)

/-- A jar is uploaded for a pack of somebody's. -/
def uploadJar (told : Told) (packId filename : String) (maintainer : Option String)
    (force : Bool) (body : Jar) : Except ApiError State := do
  told.accounts.authorize identity packId .edit
  let known ← told.known
  refuseIf known (.badRequest
    "this jar is on Modrinth -- add it via the Modrinth picker, not a self-hosted upload")
  refuseIf (force ∧ identity.role.rank < Role.debug.rank) .forbidden
  let covers ← (if force then .ok none else told.covers)
  (match covers with
    | some reason => .error (.badRequest reason)
    | none => .ok ())
  let s ← stageUpload sha1Hex s (sha1Hex body) body
  let row : UploadRow :=
    { uploader := identity.uid
      packId
      filename
      sha1 := sha1Hex body
      sizeBytes := Int64.ofNat body.length
      status := .pending
      note := none
      createdAt := now
      decidedAt := none
      upstreamMaintainer := maintainer.filter fun m => trim m ≠ ""
      decidedBy := none }
  .ok { s with uploads := s.uploads.insert row }

/-- A row is decided, whatever it says. -/
def setUploadStatus (id : ℕ) (d : Decision) : Except ApiError State :=
  match s.uploads.get? id with
  | none => .error (.internal ("no upload with id " ++ toString id))
  | some row => .ok { s with
      uploads := s.uploads.modify id fun row =>
        { row with
          status := d.status
          note := d.note
          decidedAt := some now
          decidedBy := d.decidedBy }
      first := if row.status = .pending then Function.update s.first id (some d) else s.first }

def getUpload (id : ℕ) : Except ApiError UploadRow :=
  match s.uploads.get? id with
  | none => .error .notFound
  | some row => .ok row

def approveUpload (id : ℕ) : Except ApiError State := do
  Access.requireAdmin identity
  let upload ← getUpload s id
  let s ← promoteUpload sha1Hex s upload.sha1
  let cached : Option String := if upload.sha1 ∈ s.cache then some upload.sha1 else s.put id
  setUploadStatus { s with put := Function.update s.put id cached } now id
    ⟨.approved, none, some identity.uid⟩

def rejectUpload (id : ℕ) (note : Option String) : Except ApiError State := do
  Access.requireAdmin identity
  let upload ← getUpload s id
  setUploadStatus (discardUpload s upload.sha1) now id ⟨.rejected, note, some identity.uid⟩

end Requests

/-! ## Steps -/

section Step

variable (sha1Hex : Jar → String)

/-- What an action does, if it is not refused. -/
def handle (s : State) : Act → Except ApiError State
  | .upload told identity now packId filename maintainer force body =>
    uploadJar sha1Hex s identity now told packId filename maintainer force body
  | .approve identity now id => approveUpload sha1Hex s identity now id
  | .reject identity now id note => rejectUpload s identity now id note
  | .deleteCacheJar sha1 => deleteCacheJar s sha1
  | .takedown sha1 => takedown s sha1
  | .restore sha1 => restore s sha1

/-- The state after an action: one that is refused changes nothing. -/
def step (s : State) (a : Act) : Option State :=
  match handle sha1Hex s a with
  | .ok s => some s
  | .error _ => some s

/-- The queue, from nothing having been uploaded, whatever the cache and the removed list are. -/
def system : System State Act where
  init s := s.uploads = .empty ∧ s.staged = ∅ ∧ (∀ id, s.first id = none) ∧ ∀ id, s.put id = none
  step := step sha1Hex

end Step

/-! ## Deciding once -/

/-- A pending upload is staged, and can be approved unless its hash is on the removed list; a
    row says what it said as it left the queue, which it leaves once; it is approved only if an
    approval of it put its jar in the cache, or found it there, and rejected only if none did. -/
structure Decided (sha1Hex : Jar → String) (s : State) : Prop where
  staged (id : ℕ) (row : UploadRow) : s.uploads.get? id = some row → row.status = .pending →
    ∃ jar, s.staged.lookup row.sha1 = some jar ∧ sha1Hex jar = row.sha1
  approvable (id : ℕ) (row : UploadRow) (identity : Identity) (now : Int64) :
    s.uploads.get? id = some row → row.status = .pending →
    Role.admin.rank ≤ identity.role.rank → row.sha1 ∉ s.removed →
    ∃ s', approveUpload sha1Hex s identity now id = .ok s'
  first (id : ℕ) (row : UploadRow) : s.uploads.get? id = some row →
    s.first id = if row.status = .pending then none else some row.decision
  settled (a : Act) (s' : State) (id : ℕ) (d : Decision) : step sha1Hex s a = some s' →
    s.first id = some d → s'.first id = some d
  approved (id : ℕ) (row : UploadRow) : s.uploads.get? id = some row → row.status = .approved →
    s.put id = some row.sha1
  rejected (id : ℕ) (row : UploadRow) : s.uploads.get? id = some row → row.status = .rejected →
    s.put id = none

/-- No other row of the same bytes waits in the queue. -/
def State.Alone (s : State) (id : ℕ) (sha1 : String) : Prop :=
  ∀ j row, s.uploads.get? j = some row → row.status = .pending → row.sha1 = sha1 → j = id

/-- An approval that goes through is of a pending row, the only one of its bytes; a rejection
    is of such a row, or is the one that the row already says. -/
def Once (s : State) : Act → Prop
  | .approve identity _ id =>
    ∀ row, s.uploads.get? id = some row → Role.admin.rank ≤ identity.role.rank →
      row.sha1 ∈ s.staged → row.sha1 ∉ s.removed → row.status = .pending ∧ s.Alone id row.sha1
  | .reject identity _ id note =>
    ∀ row, s.uploads.get? id = some row → Role.admin.rank ≤ identity.role.rank →
      (row.status = .pending ∨ row.decision = ⟨.rejected, note, some identity.uid⟩) ∧
        s.Alone id row.sha1
  | _ => True

/-! ## The invariant -/

/-- The staged jars are under their hashes, those of the pending rows among them; a row says
    what it said as it left the queue, and whether an approval of it put its jar in the cache;
    and there is no history of rows that are not there. -/
structure Inv (sha1Hex : Jar → String) (s : State) : Prop where
  hashed (sha1 : String) (jar : Jar) : s.staged.lookup sha1 = some jar →
    isSha1 sha1 = true ∧ sha1Hex jar = sha1
  staged (id : ℕ) (row : UploadRow) : s.uploads.get? id = some row → row.status = .pending →
    row.sha1 ∈ s.staged
  first (id : ℕ) (row : UploadRow) : s.uploads.get? id = some row →
    s.first id = if row.status = .pending then none else some row.decision
  put (id : ℕ) (row : UploadRow) : s.uploads.get? id = some row →
    s.put id = if row.status = .approved then some row.sha1 else none
  absent (id : ℕ) : s.uploads.get? id = none → s.first id = none ∧ s.put id = none

section Invariant

variable {sha1Hex : Jar → String} {s s' t : State} {identity : Identity} {now : Int64} {id : ℕ}
  {row : UploadRow} {sha1 : String}

/-- A staged jar that is under its hash moves to the cache, if the hash is not on the removed
    list. -/
theorem promoteUpload_of_staged {jar : Jar} (hstaged : s.staged.lookup sha1 = some jar)
    (hhex : isSha1 sha1 = true) (hjar : sha1Hex jar = sha1) (hremoved : sha1 ∉ s.removed) :
    ∃ s', promoteUpload sha1Hex s sha1 = .ok s' := by
  rw [promoteUpload, hstaged]
  simp only [map_eq_ok, saveCacheJar, bind_eq_ok]
  exact ⟨_, _, ⟨(), refuseIf_eq_ok.2 (not_not_intro hhex), (), refuseIf_eq_ok.2 (not_not_intro hjar),
    (), refuseIf_eq_ok.2 hremoved, rfl⟩, rfl⟩

/-- A staged jar that moved to the cache is there, and nothing else changed. -/
theorem promoteUpload_eq_ok (h : promoteUpload sha1Hex s sha1 = .ok s') :
    sha1 ∈ s.staged ∧ sha1 ∉ s.removed ∧ sha1 ∈ s'.cache ∧
      ∃ cache, s' = { s with cache, staged := s.staged.erase sha1 } := by
  rw [promoteUpload] at h
  rcases hstaged : s.staged.lookup sha1 with _ | jar <;> rw [hstaged] at h
  · cases h
  simp only [map_eq_ok, saveCacheJar, bind_eq_ok] at h
  obtain ⟨t, ⟨_, -, _, -, _, hremoved, ht⟩, rfl⟩ := h
  refine ⟨AList.lookup_isSome.1 (hstaged ▸ rfl), refuseIf_eq_ok.1 hremoved, ?_⟩
  split_ifs at ht with hcached <;> obtain rfl := Except.ok.inj ht
  · exact ⟨hcached, s.cache, rfl⟩
  · exact ⟨(AList.mem_insert _).2 (.inl rfl), _, rfl⟩

/-- A row is decided, once its jar is no longer staged: the only pending one of its bytes, or one
    that says the same already. -/
theorem Inv.decide (h : Inv sha1Hex s) (hrow : s.uploads.get? id = some row)
    (halone : s.Alone id row.sha1) {d : Decision} (hs : setUploadStatus t now id d = .ok s')
    (huploads : t.uploads = s.uploads) (hstaged : t.staged = s.staged.erase row.sha1)
    (hfirst : t.first = s.first)
    (hput : t.put = Function.update s.put id
      (if d.status = .approved then some row.sha1 else none))
    (hd : d.status ≠ .pending) (hmay : row.status = .pending ∨ row.decision = d) :
    Inv sha1Hex s' := by
  simp only [setUploadStatus, huploads, hrow, hfirst] at hs
  obtain rfl := Except.ok.inj hs
  -- The rows of the new queue: the decided one, and the others as they were.
  have hget {j : ℕ} {row' : UploadRow} (hj : (s.uploads.modify id fun row => { row with
      status := d.status, note := d.note, decidedAt := some now, decidedBy := d.decidedBy }).get? j =
        some row') : (j = id ∧ row'.decision = d ∧ row'.sha1 = row.sha1) ∨
          (j ≠ id ∧ s.uploads.get? j = some row') := by
    by_cases hji : j = id
    · rw [hji, Table.get?_modify_self, hrow, Option.map_some, Option.some.injEq] at hj
      exact .inl ⟨hji, hj ▸ ⟨rfl, rfl⟩⟩
    · exact .inr ⟨hji, (Table.get?_modify_of_ne hji).symm.trans hj⟩
  have hstatus {row' : UploadRow} (hdec : row'.decision = d) : row'.status = d.status :=
    congrArg Decision.status hdec
  have hnot {row' : UploadRow} (hdec : row'.decision = d) : row'.status ≠ .pending := fun hp =>
    hd ((hstatus hdec).symm.trans hp)
  refine ⟨fun sha jar hj => ?_, fun j row' hj hp => ?_, fun j row' hj => ?_, fun j row' hj => ?_,
    fun j hj => ?_⟩
  · rw [hstaged] at hj
    by_cases hsha : sha = row.sha1
    · rw [hsha, AList.lookup_erase] at hj
      cases hj
    · exact h.hashed sha jar ((AList.lookup_erase_ne hsha).symm.trans hj)
  · rcases hget hj with ⟨rfl, hdec, -⟩ | ⟨hji, hold⟩
    · exact absurd hp (hnot hdec)
    · rw [hstaged, AList.mem_erase]
      exact ⟨fun hsha => hji (halone j row' hold hp hsha), h.staged j row' hold hp⟩
  · rcases hget hj with ⟨rfl, hdec, -⟩ | ⟨hji, hold⟩
    · rw [if_neg (hnot hdec), hdec]
      change (if row.status = .pending then Function.update s.first j (some d) else s.first) j = _
      split_ifs with hp
      · exact Function.update_self ..
      · rw [h.first j row hrow, if_neg hp, hmay.resolve_left hp]
    · rw [← h.first j row' hold]
      change (if row.status = .pending then Function.update s.first id (some d) else s.first) j = _
      split_ifs with hp
      · exact Function.update_of_ne hji ..
      · rfl
  · change t.put j = _
    rcases hget hj with ⟨rfl, hdec, hsha⟩ | ⟨hji, hold⟩
    · rw [hput, Function.update_self, hstatus hdec, hsha]
    · rw [hput, Function.update_of_ne hji, h.put j row' hold]
  · have hji : j ≠ id := by
      rintro rfl
      rw [Table.get?_modify_self, hrow] at hj
      cases hj
    obtain ⟨hf, hp⟩ := h.absent j ((Table.get?_modify_of_ne hji).symm.trans hj)
    refine ⟨?_, (congrFun hput j).trans ((Function.update_of_ne hji ..).trans hp)⟩
    change (if row.status = .pending then Function.update s.first id (some d) else s.first) j = _
    split_ifs
    · exact (Function.update_of_ne hji ..).trans hf
    · exact hf

theorem getUpload_eq_ok (h : getUpload s id = .ok row) : s.uploads.get? id = some row := by
  rw [getUpload] at h
  rcases hrow : s.uploads.get? id with _ | row' <;> rw [hrow] at h
  · cases h
  · exact congrArg some (Except.ok.inj h)

theorem Inv.approve (h : Inv sha1Hex s) (hok : Once s (.approve identity now id))
    (hs : approveUpload sha1Hex s identity now id = .ok s') : Inv sha1Hex s' := by
  simp only [approveUpload, bind_eq_ok] at hs
  obtain ⟨_, hadmin, row, hget, t, hpromote, hs⟩ := hs
  have hrow := getUpload_eq_ok hget
  obtain ⟨hstaged, hremoved, hcached, cache, rfl⟩ := promoteUpload_eq_ok hpromote
  obtain ⟨hpending, halone⟩ := hok row hrow (Access.requireAdmin_eq_ok.1 hadmin) hstaged hremoved
  refine h.decide hrow halone hs rfl rfl rfl ?_ (fun he => nomatch he) (.inl hpending)
  rw [if_pos hcached]
  rfl

theorem Inv.reject (h : Inv sha1Hex s) {note : Option String}
    (hok : Once s (.reject identity now id note))
    (hs : rejectUpload s identity now id note = .ok s') : Inv sha1Hex s' := by
  simp only [rejectUpload, bind_eq_ok] at hs
  obtain ⟨_, hadmin, row, hget, hs⟩ := hs
  have hrow := getUpload_eq_ok hget
  obtain ⟨hmay, halone⟩ := hok row hrow (Access.requireAdmin_eq_ok.1 hadmin)
  refine h.decide hrow halone hs rfl rfl rfl ?_ (fun he => nomatch he) hmay
  -- No approval of the row put its jar anywhere, as it was not approved.
  have hnot : row.status ≠ .approved := by
    rcases hmay with hp | hd
    · rw [hp]
      decide
    · rw [show row.status = .rejected from congrArg Decision.status hd]
      decide
  rw [if_neg fun he => nomatch he]
  exact (Function.update_eq_self_iff.2 ((h.put id row hrow).trans (if_neg hnot)).symm).symm

/-- Only the cache and the removed list change. -/
theorem Inv.operate (h : Inv sha1Hex s) {cache : AList fun _ : String => Jar}
    {removed : List String} : Inv sha1Hex { s with cache, removed } :=
  ⟨h.hashed, h.staged, h.first, h.put, h.absent⟩

theorem Inv.upload (h : Inv sha1Hex s) {told : Told} {packId filename : String}
    {maintainer : Option String} {force : Bool} {body : Jar}
    (hs : uploadJar sha1Hex s identity now told packId filename maintainer force body = .ok s') :
    Inv sha1Hex s' := by
  simp only [uploadJar, stageUpload, bind_eq_ok] at hs
  obtain ⟨_, _, _, _, _, _, _, _, _, _, _, _, t, ⟨_, hhex, _, hsha, ht⟩, hs⟩ := hs
  obtain rfl := Except.ok.inj ht
  obtain rfl := Except.ok.inj hs
  -- The rows of the new queue: the new one, and those that were there.
  have hget {j : ℕ} {row row' : UploadRow} (hj : (s.uploads.insert row).get? j = some row') :
      (j = s.uploads.nextId ∧ row' = row) ∨ (j ≠ s.uploads.nextId ∧ s.uploads.get? j = some row') := by
    by_cases hn : j = s.uploads.nextId
    · rw [hn, Table.get?_insert_nextId] at hj
      exact .inl ⟨hn, (Option.some.inj hj).symm⟩
    · exact .inr ⟨hn, (Table.get?_insert_of_ne hn).symm.trans hj⟩
  have hnew := h.absent _ (Table.get?_of_nextId_le (Nat.le_refl s.uploads.nextId))
  refine ⟨fun sha jar hj => ?_, fun j row hj hp => ?_, fun j row hj => ?_, fun j row hj => ?_,
    fun j hj => h.absent j ?_⟩
  · by_cases hs : sha = sha1Hex body
    · subst hs
      rw [AList.lookup_insert] at hj
      exact ⟨of_not_not (refuseIf_eq_ok.1 hhex), Option.some.inj hj ▸ rfl⟩
    · exact h.hashed sha jar ((AList.lookup_insert_ne hs).symm.trans hj)
  · rw [AList.mem_insert]
    rcases hget hj with ⟨-, rfl⟩ | ⟨-, hold⟩
    · exact .inl rfl
    · exact .inr (h.staged j row hold hp)
  · rcases hget hj with ⟨rfl, rfl⟩ | ⟨-, hold⟩
    · exact hnew.1
    · exact h.first j row hold
  · rcases hget hj with ⟨rfl, rfl⟩ | ⟨-, hold⟩
    · exact hnew.2
    · exact h.put j row hold
  · rw [Table.get?_insert] at hj
    split_ifs at hj
    exact hj

/-! ## Runs -/

theorem setUploadStatus_of_row (now : Int64) {d : Decision} (h : s.uploads.get? id = some row) :
    ∃ s', setUploadStatus s now id d = .ok s' := by
  rw [setUploadStatus, h]
  exact ⟨_, rfl⟩

/-- A row that has left the queue does not leave it again. -/
theorem setUploadStatus_first {d d' : Decision} {j : ℕ}
    (hs : setUploadStatus t now j d' = .ok s')
    (hj : ∀ row, t.uploads.get? j = some row → row.status = .pending → t.first j = none)
    (hd : t.first id = some d) : s'.first id = some d := by
  rw [setUploadStatus] at hs
  rcases hrow : t.uploads.get? j with _ | row <;> rw [hrow] at hs
  · cases hs
  obtain rfl := Except.ok.inj hs
  change (if row.status = .pending then Function.update t.first j (some d') else t.first) id = _
  split_ifs with hp
  · have hne : id ≠ j := by
      rintro rfl
      rw [hj row hrow hp] at hd
      cases hd
    exact (Function.update_of_ne hne ..).trans hd
  · exact hd

theorem Inv.settled (h : Inv sha1Hex s) {a : Act} {d : Decision}
    (hs : step sha1Hex s a = some s') (hd : s.first id = some d) : s'.first id = some d := by
  have hpending (j : ℕ) (row : UploadRow) (hrow : s.uploads.get? j = some row)
      (hp : row.status = .pending) : s.first j = none := (h.first j row hrow).trans (if_pos hp)
  rw [step] at hs
  cases hh : handle sha1Hex s a with
  | error e =>
    rw [hh] at hs
    exact Option.some.inj hs ▸ hd
  | ok t =>
    rw [hh] at hs
    obtain rfl := Option.some.inj hs
    cases a with
    | upload =>
      simp only [handle, uploadJar, stageUpload, bind_eq_ok] at hh
      obtain ⟨_, _, _, _, _, _, _, _, _, _, _, _, t, ⟨_, _, _, _, ht⟩, hh⟩ := hh
      obtain rfl := Except.ok.inj ht
      obtain rfl := Except.ok.inj hh
      exact hd
    | approve =>
      simp only [handle, approveUpload, bind_eq_ok] at hh
      obtain ⟨_, _, _, _, t, hpromote, hh⟩ := hh
      obtain ⟨-, -, -, cache, rfl⟩ := promoteUpload_eq_ok hpromote
      exact setUploadStatus_first hh (hpending _) hd
    | reject =>
      simp only [handle, rejectUpload, bind_eq_ok] at hh
      obtain ⟨_, _, _, _, hh⟩ := hh
      exact setUploadStatus_first hh (hpending _) hd
    | deleteCacheJar =>
      simp only [handle, deleteCacheJar, bind_eq_ok] at hh
      obtain ⟨_, _, _, _, hh⟩ := hh
      exact Except.ok.inj hh ▸ hd
    | takedown =>
      obtain ⟨_, _, hh⟩ := bind_eq_ok.1 hh
      exact Except.ok.inj hh ▸ hd
    | restore =>
      obtain ⟨_, _, hh⟩ := bind_eq_ok.1 hh
      exact Except.ok.inj hh ▸ hd

/-- What the invariant says of the queue. -/
theorem Inv.decided (h : Inv sha1Hex s) : Decided sha1Hex s where
  staged id row hrow hp := by
    obtain ⟨jar, hjar⟩ := Option.isSome_iff_exists.1
      (AList.lookup_isSome.2 (h.staged id row hrow hp))
    exact ⟨jar, hjar, (h.hashed _ jar hjar).2⟩
  approvable id row identity now hrow hp hadmin hremoved := by
    obtain ⟨jar, hjar⟩ := Option.isSome_iff_exists.1
      (AList.lookup_isSome.2 (h.staged id row hrow hp))
    obtain ⟨hhex, hsha⟩ := h.hashed _ jar hjar
    obtain ⟨t, ht⟩ := promoteUpload_of_staged hjar hhex hsha hremoved
    have hget : getUpload s id = .ok row := by rw [getUpload, hrow]
    have htrow : t.uploads.get? id = some row := by
      obtain ⟨-, -, -, cache, rfl⟩ := promoteUpload_eq_ok ht
      exact hrow
    let cached : Option String := if row.sha1 ∈ t.cache then some row.sha1 else t.put id
    obtain ⟨s', hs'⟩ := setUploadStatus_of_row
      (s := { t with put := Function.update t.put id cached }) now
      (d := ⟨.approved, none, some identity.uid⟩) htrow
    exact ⟨s', bind_eq_ok.2 ⟨(), Access.requireAdmin_eq_ok.2 hadmin, bind_eq_ok.2
      ⟨row, hget, bind_eq_ok.2 ⟨t, ht, hs'⟩⟩⟩⟩
  first := h.first
  settled _ _ _ _ := h.settled
  approved id row hrow hs := (h.put id row hrow).trans (if_pos hs)
  rejected id row hrow hs := (h.put id row hrow).trans (if_neg (by rw [hs]; decide))

/-- In every run in which a decision is of a pending row, the only one of its bytes, or changes
    nothing, a pending upload can be decided, and an upload is decided once. -/
theorem system_decided (h : (system sha1Hex).Reach Once s) : Decided sha1Hex s := by
  suffices hinv : Inv sha1Hex s from hinv.decided
  refine h.invariant (fun s hs => ?_) fun s a s' hi hok hst => ?_
  · obtain ⟨huploads, hstaged, hfirst, hput⟩ := hs
    refine ⟨fun sha jar hj => ?_, fun id row hrow => ?_, fun id row hrow => ?_,
      fun id row hrow => ?_, fun id _ => ⟨hfirst id, hput id⟩⟩
    · rw [hstaged] at hj
      cases hj
    all_goals
      rw [huploads] at hrow
      cases hrow
  · simp only [system, step] at hst
    cases hh : handle sha1Hex s a with
    | error e =>
      rw [hh] at hst
      exact Option.some.inj hst ▸ hi
    | ok t =>
      rw [hh] at hst
      obtain rfl := Option.some.inj hst
      cases a with
      | upload => exact hi.upload hh
      | approve identity now id => exact hi.approve hok hh
      | reject identity now id note => exact hi.reject hok hh
      | deleteCacheJar sha1 =>
        simp only [handle, deleteCacheJar, bind_eq_ok] at hh
        obtain ⟨_, _, _, _, hh⟩ := hh
        exact Except.ok.inj hh ▸ hi.operate
      | takedown sha1 =>
        obtain ⟨_, _, hh⟩ := bind_eq_ok.1 hh
        exact Except.ok.inj hh ▸ hi.operate
      | restore sha1 =>
        obtain ⟨_, _, hh⟩ := bind_eq_ok.1 hh
        exact Except.ok.inj hh ▸ hi.operate

end Invariant

/-- Nothing is uploaded or cached. -/
def start : State := ⟨.empty, ∅, ∅, [], fun _ => none, fun _ => none⟩

/-- The jar that the examples upload, and its hash. -/
def abc : Jar := [0x61, 0x62, 0x63]

def abcSha1 : String := "a9993e364706816aba3e25717850c26c9cd0d89d"

/-- Account 42 uploads the jar for a pack of its namespace; Modrinth knows nothing of it. -/
def uploaded (filename : String) : Act :=
  .upload ⟨.empty, .ok false, .ok none⟩ ⟨42, "member", .member⟩ 1 "u/42/Industrial" filename none
    false abc

/-- An operator. -/
def admin : Identity := ⟨7, "admin", .admin⟩

/-- A jar is uploaded and approved. -/
theorem system_decided_approved :
    ∃ s, (system fun _ => abcSha1).Reachable s ∧ s.put 1 = some abcSha1 ∧ abcSha1 ∈ s.cache ∧
      s.first 1 = some ⟨.approved, none, some 7⟩ ∧ Decided (fun _ => abcSha1) s := by
  have h₀ : (system fun _ => abcSha1).Reach Once start :=
    .init ⟨rfl, rfl, fun _ => rfl, fun _ => rfl⟩
  have uploaded := h₀.step (a := uploaded "abc.jar") (by exact trivial) rfl
  have approved := uploaded.step (a := .approve admin 2 1) (by
    intro row hrow _ _ _
    obtain rfl := Option.some.inj hrow
    refine ⟨rfl, fun j row' hj _ _ => ?_⟩
    exact (Prod.mk.inj (List.mem_singleton.1 (Table.get?_eq_some.1 hj))).1) rfl
  exact ⟨_, approved.mono fun _ _ _ => trivial, by decide +kernel, by decide +kernel,
    by decide +kernel, system_decided approved⟩

/-- The same bytes are uploaded twice, and the first upload is approved: the second one waits,
    and cannot be approved. -/
theorem system_stuck :
    ∃ s row, (system fun _ => abcSha1).Reachable s ∧ s.uploads.get? 2 = some row ∧
      row.status = .pending ∧ s.removed = [] ∧
      (approveUpload (fun _ => abcSha1) s admin 3 2).toBool = false ∧
      ¬ Decided (fun _ => abcSha1) s := by
  have hrun : ∃ s row, (system fun _ => abcSha1).run start
      [uploaded "abc.jar", uploaded "again.jar", .approve admin 2 1] = some s ∧
      s.uploads.get? 2 = some row ∧ row.status = .pending ∧ s.removed = [] ∧
      row.sha1 = abcSha1 ∧ s.staged.lookup abcSha1 = none ∧
      (approveUpload (fun _ => abcSha1) s admin 3 2).toBool = false :=
    ⟨_, _, rfl, rfl, rfl, rfl, rfl, by decide +kernel, by decide +kernel⟩
  obtain ⟨s, row, hs, hrow, hp, hremoved, hsha, hstaged, happrove⟩ := hrun
  have h₀ : (system fun _ => abcSha1).Reachable start :=
    .init ⟨rfl, rfl, fun _ => rfl, fun _ => rfl⟩
  refine ⟨s, row, h₀.run hs, hrow, hp, hremoved, happrove, fun h => ?_⟩
  obtain ⟨jar, hjar, -⟩ := h.staged 2 row hrow hp
  rw [hsha, hstaged] at hjar
  cases hjar

/-- One of two uploads of the same bytes is rejected, and approved for the other one. -/
theorem system_decidedTwice :
    ∃ s row, (system fun _ => abcSha1).Reachable s ∧ s.uploads.get? 1 = some row ∧
      row.status = .approved ∧ s.first 1 = some ⟨.rejected, none, some 7⟩ := by
  have hrun : ∃ s row, (system fun _ => abcSha1).run start
      [uploaded "abc.jar", .reject admin 2 1 none, uploaded "again.jar", .approve admin 3 1] =
        some s ∧ s.uploads.get? 1 = some row ∧ row.status = .approved ∧
      s.first 1 = some ⟨.rejected, none, some 7⟩ :=
    ⟨_, _, rfl, rfl, rfl, by decide +kernel⟩
  obtain ⟨s, row, hs, h⟩ := hrun
  have h₀ : (system fun _ => abcSha1).Reachable start :=
    .init ⟨rfl, rfl, fun _ => rfl, fun _ => rfl⟩
  exact ⟨s, row, h₀.run hs, h⟩

end Uploads

end Smrt
