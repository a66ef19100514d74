import Smrt.Accounts.Store
import Smrt.Http.Words
import Smrt.Lib.System

/-!
# Who may do what

The requests that move the accounts store: signing in, setting a rung, letting somebody into a
pack and out of it, blocking somebody from a pack, and suspending an account. A request is
answered as a whole; one that is refused changes nothing, but that a session which has lapsed
is dropped when it is read (`serve_snd`).

The store answers the access gate (`Accounts.authorize`), and the gate is also read to list
packs (`filterMay`), to say what somebody may do (`myLevel`) and to let them write in a
discussion (`notSilenced`).
-/

namespace Smrt

/-- The tokens and the allowlists of the mirror. -/
structure MirrorConfig where
  debugToken : Option String
  adminToken : Option String
  debugGithubUids : List UInt64
  adminGithubUids : List UInt64

/-- The rung that the allowlists force on an account: the higher one. -/
def MirrorConfig.forcedRole (config : MirrorConfig) (uid : UInt64) : Option Role :=
  if uid ∈ config.debugGithubUids then some .debug
  else if uid ∈ config.adminGithubUids then some .admin
  else none

/-- What a request says of who makes it. -/
structure Headers where
  bearer : Option String
  cookie : Option String

/-- Who holds an emergency token. -/
def breakGlass (role : Role) : Identity := ⟨Accounts.breakGlassUid, "break-glass", role⟩

/-- A stop on somebody's writing, of a pack or of the whole mirror. -/
structure Stop where
  reason : Option String
  since : Int64
  everywhere : Bool

/-- What somebody may do to a pack, and why they may not write on it. -/
structure MyLevel where
  level : Option PackLevel
  suspended : Option Stop

namespace Accounts

/-! ## The gate -/

section Gate

variable (a : Accounts)

/-- Who makes a request: the holder of an emergency token, or whose session it is. -/
def resolveIdentity (config : MirrorConfig) (headers : Headers) (now : Int64) :
    Option Identity × Accounts :=
  if headers.bearer.isSome ∧ headers.bearer = config.debugToken then (some (breakGlass .debug), a)
  else if headers.bearer.isSome ∧ headers.bearer = config.adminToken then
    (some (breakGlass .admin), a)
  else match headers.cookie with
    | none => (none, a)
    | some sid => a.sessionIdentity sid now

variable (identity : Identity) (packId : String)

def authorize (need : PackLevel) : Except ApiError Unit :=
  Smrt.authorize identity packId need ((a.suspensionOf identity.uid).map Suspension.reason)
    (a.packAccessLevel packId identity.uid)

/-- Whether somebody may do `need`, as a question. -/
def may (need : PackLevel) : Bool := (a.authorize identity packId need).toBool

/-- Whether an account may do `need` to a pack: one that never signed in is a plain member. -/
def mayUid (uid : Int64) (need : PackLevel) : Bool :=
  a.may ((a.identityOf uid).getD ⟨uid, "", .member⟩) packId need

/-- Which of `packs` somebody may do `need` to, with one reading of the access list. -/
def filterMay (packs : List String) (need : PackLevel) : List String :=
  let granted : AList fun _ : String => PackLevel :=
    (a.packsGrantedTo identity.uid).foldl (fun m row => m.insert row.1 row.2) ∅
  packs.filter fun id =>
    match inherentLevel identity id with
    | some level => need.rank ≤ level.rank
    | none => (granted.lookup id).any fun level => need.rank ≤ level.rank

/-- A write on a pack is refused from who is suspended, and from whom it blocks. -/
def notSilenced : Except ApiError Unit := do
  notSuspended identity ((a.suspensionOf identity.uid).map Suspension.reason)
  match a.blockOn packId identity.uid with
  | none => .ok ()
  | some block => .error (.refused (match block.reason with
    | some reason => "writing here is suspended. reason: " ++ reason
    | none => "writing here is suspended"))

/-- What somebody may do to a pack, and which stop applies to them, the mirror's first. -/
def myLevel : MyLevel where
  level := [PackLevel.own, .edit, .view].find? fun step => a.may identity packId step
  suspended := match a.suspensionOf identity.uid with
    | some s => some ⟨s.reason, s.suspendedAt, true⟩
    | none => (a.blockOn packId identity.uid).map fun b => ⟨b.reason, b.blockedAt, false⟩

/-- Whoever an account is, it is that account. -/
theorem identityOf_getD_uid {uid : Int64} :
    ((a.identityOf uid).getD ⟨uid, "", .member⟩).uid = uid := by
  rw [identityOf]
  cases a.users.lookup uid <;> rfl

end Gate

end Accounts

namespace Access

open Accounts

/-! ## Requests -/

section Requests

variable (debug : String → String) (identity : Identity) (now : Int64) (a : Accounts)

/-- What only an operator may ask. -/
def requireAdmin : Except ApiError Unit :=
  if identity.role.rank < Role.admin.rank then .error .forbidden else .ok ()

def grantAccess (packId : String) (githubUid : Int64) (level : String) :
    Except ApiError Accounts := do
  a.authorize identity packId .own
  match PackLevel.parse level with
  | none => .error (.badRequest ("unknown level " ++ debug level))
  | some level =>
    if githubUid = identity.uid then
      .error (.badRequest "you already own this pack; a grant to yourself would say nothing")
    else (a.grantPackAccess packId githubUid level identity.uid now).mapError .badRequest

def revokeAccess (packId : String) (uid : Int64) : Except ApiError Accounts := do
  a.authorize identity packId .own
  .ok (a.revokePackAccess packId uid)

def blockFromPack (packId : String) (githubUid : Int64) (reason : Option String) :
    Except ApiError Accounts := do
  a.authorize identity packId .edit
  if a.mayUid packId githubUid .edit then
    .error (.badRequest "that person keeps this pack; take their access away first")
  else do
    let reason ← tidyReason reason
    (a.blockFromPack packId githubUid reason identity.uid now).mapError .badRequest

def unblockFromPack (packId : String) (uid : Int64) : Except ApiError Accounts := do
  a.authorize identity packId .edit
  .ok (a.unblockFromPack packId uid)

def suspendAccount (uid : Int64) (reason : Option String) : Except ApiError Accounts := do
  requireAdmin identity
  if uid = identity.uid then .error (.badRequest "suspending yourself would say nothing")
  else do
    let reason ← tidyReason reason
    if (a.identityOf uid).any fun theirs => Role.admin.rank ≤ theirs.role.rank then
      .error (.badRequest "that account runs the mirror; take the rung away first")
    else (a.suspendAccount uid reason identity.uid now).mapError .badRequest

def liftSuspension (uid : Int64) : Except ApiError Accounts := do
  requireAdmin identity
  .ok (a.liftSuspension uid)

def setUserRole (uid : Int64) (role : String) : Except ApiError Accounts := do
  requireAdmin identity
  (a.setRole uid role).mapError .badRequest

/-! What a request that is served went through, and what it did. -/

variable {debug identity now a} {a' : Accounts} {packId : String} {uid : Int64}

theorem requireAdmin_eq_ok :
    requireAdmin identity = .ok () ↔ Role.admin.rank ≤ identity.role.rank := by
  rw [requireAdmin]
  split_ifs with h
  · exact ⟨fun he => (nomatch he), fun hle => absurd hle (Nat.not_le_of_lt h)⟩
  · exact ⟨fun _ => Nat.le_of_not_lt h, fun _ => rfl⟩

theorem grantAccess_eq_ok {level : String}
    (h : grantAccess debug identity now a packId uid level = .ok a') :
    a.authorize identity packId .own = .ok () ∧ uid ≠ breakGlassUid ∧
      ∃ l, PackLevel.parse level = some l ∧
        a' = { a with packAccess := a.packAccess.insert (packId, uid) ⟨l, identity.uid, now⟩ } := by
  obtain ⟨_, hauth, h⟩ := bind_eq_ok.1 h
  cases hl : PackLevel.parse level with
  | none => rw [hl] at h; cases h
  | some l =>
    rw [hl] at h
    simp only [grantPackAccess] at h
    split_ifs at h with hself hzero
    · cases h
    · exact ⟨hauth, hzero, l, rfl, (Except.ok.inj h).symm⟩

theorem revokeAccess_eq_ok (h : revokeAccess identity a packId uid = .ok a') :
    a.authorize identity packId .own = .ok () ∧ a' = a.revokePackAccess packId uid := by
  obtain ⟨_, hauth, h⟩ := bind_eq_ok.1 h
  exact ⟨hauth, (Except.ok.inj h).symm⟩

theorem blockFromPack_eq_ok {reason : Option String}
    (h : blockFromPack identity now a packId uid reason = .ok a') :
    a.authorize identity packId .edit = .ok () ∧ a.mayUid packId uid .edit = false ∧
      uid ≠ breakGlassUid ∧ ∃ note, tidyReason reason = .ok note ∧
        a' = { a with packBlocks := a.packBlocks.insert (packId, uid) ⟨note, identity.uid, now⟩ } := by
  obtain ⟨_, hauth, h⟩ := bind_eq_ok.1 h
  split_ifs at h with hkeeps
  obtain ⟨note, hnote, h⟩ := bind_eq_ok.1 h
  rw [mapError_eq_ok, Accounts.blockFromPack] at h
  split_ifs at h with hzero
  exact ⟨hauth, Bool.eq_false_iff.2 hkeeps, hzero, note, hnote, (Except.ok.inj h).symm⟩

theorem unblockFromPack_eq_ok (h : unblockFromPack identity a packId uid = .ok a') :
    a' = a.unblockFromPack packId uid := by
  obtain ⟨_, -, h⟩ := bind_eq_ok.1 h
  exact (Except.ok.inj h).symm

theorem suspendAccount_eq_ok {reason : Option String}
    (h : suspendAccount identity now a uid reason = .ok a') :
    ∃ note, a' = { a with suspensions := a.suspensions.insert uid ⟨note, identity.uid, now⟩ } := by
  obtain ⟨_, -, h⟩ := bind_eq_ok.1 h
  split_ifs at h <;> obtain ⟨note, -, h⟩ := bind_eq_ok.1 h
  · cases h
  rw [mapError_eq_ok, Accounts.suspendAccount] at h
  split_ifs at h
  exact ⟨note, (Except.ok.inj h).symm⟩

theorem liftSuspension_eq_ok (h : liftSuspension identity a uid = .ok a') :
    a' = a.liftSuspension uid := by
  obtain ⟨_, -, h⟩ := bind_eq_ok.1 h
  exact (Except.ok.inj h).symm

theorem setUserRole_eq_ok {name : String} (h : setUserRole identity a uid name = .ok a') :
    Role.admin.rank ≤ identity.role.rank ∧ ∃ role user, Role.parse name = some role ∧
      a.users.lookup uid = some user ∧
      a' = { a with users := a.users.insert uid { user with role } } := by
  obtain ⟨_, hadmin, h⟩ := bind_eq_ok.1 h
  rw [mapError_eq_ok, setRole.eq_def] at h
  split_ifs at h
  rcases hrole : Role.parse name with _ | role <;> rw [hrole] at h
  · cases h
  rcases huser : a.users.lookup uid with _ | user <;> rw [huser] at h
  · cases h
  exact ⟨requireAdmin_eq_ok.1 hadmin, role, user, rfl, rfl, (Except.ok.inj h).symm⟩

end Requests

/-- What is asked of the store. -/
inductive Request
  | grantAccess (packId : String) (githubUid : Int64) (level : String)
  | revokeAccess (packId : String) (uid : Int64)
  | blockFromPack (packId : String) (githubUid : Int64) (reason : Option String)
  | unblockFromPack (packId : String) (uid : Int64)
  | suspendAccount (uid : Int64) (reason : Option String)
  | liftSuspension (uid : Int64)
  | setUserRole (uid : Int64) (role : String)

/-- What happens: somebody signs in under a fresh session, or makes a request. -/
inductive Act
  | signIn (uid : UInt64) (login sid : String) (now : Int64)
  | request (headers : Headers) (now : Int64) (r : Request)

section Step

variable (config : MirrorConfig) (debug : String → String)

/-- What a request of somebody does to the store. -/
def handle (a : Accounts) (identity : Identity) (now : Int64) : Request → Except ApiError Accounts
  | .grantAccess packId uid level => grantAccess debug identity now a packId uid level
  | .revokeAccess packId uid => revokeAccess identity a packId uid
  | .blockFromPack packId uid reason => blockFromPack identity now a packId uid reason
  | .unblockFromPack packId uid => unblockFromPack identity a packId uid
  | .suspendAccount uid reason => suspendAccount identity now a uid reason
  | .liftSuspension uid => liftSuspension identity a uid
  | .setUserRole uid role => setUserRole identity a uid role

/-- A request is answered: by whom it is, and whether they may. -/
def serve (a : Accounts) (headers : Headers) (now : Int64) (r : Request) :
    Except ApiError Unit × Accounts :=
  match a.resolveIdentity config headers now with
  | (none, a) => (.error .unauthorized, a)
  | (some identity, a) => match handle debug a identity now r with
    | .ok a => (.ok (), a)
    | .error e => (.error e, a)

/-- The store after an action. -/
def step (a : Accounts) : Act → Option Accounts
  | .signIn uid login sid now => a.signInGithub uid.toInt64 login (config.forcedRole uid) sid now
  | .request headers now r => some (serve config debug a headers now r).2

/-- The store, from nobody having signed in. -/
def system : System Accounts Act where
  init a := a = empty
  step := step config debug

variable {config debug} {a : Accounts} {headers : Headers} {now : Int64} {r : Request}

/-- Who is asking is read off, and at most a session is dropped. -/
theorem resolveIdentity_snd (config : MirrorConfig) (a : Accounts) (headers : Headers)
    (now : Int64) :
    ∃ sessions, (a.resolveIdentity config headers now).2 = { a with sessions } := by
  rw [resolveIdentity]
  split_ifs
  · exact ⟨a.sessions, rfl⟩
  · exact ⟨a.sessions, rfl⟩
  · rcases headers.cookie with _ | sid
    · exact ⟨a.sessions, rfl⟩
    · simp only [sessionIdentity]
      repeat' split
      all_goals exact ⟨_, rfl⟩

/-- A request that is served does what it asks; one that is refused changes nothing. -/
theorem serve_snd (config : MirrorConfig) (debug : String → String) (a : Accounts)
    (headers : Headers) (now : Int64) (r : Request) :
    ∃ sessions, (serve config debug a headers now r).2 = { a with sessions } ∨
      ∃ identity, (a.resolveIdentity config headers now).1 = some identity ∧
        handle debug { a with sessions } identity now r =
          .ok (serve config debug a headers now r).2 := by
  obtain ⟨sessions, hs⟩ := resolveIdentity_snd config a headers now
  refine ⟨sessions, ?_⟩
  rw [serve]
  rcases hr : a.resolveIdentity config headers now with ⟨_ | identity, b⟩ <;> rw [hr] at hs
  · exact .inl hs
  · obtain rfl : b = _ := hs
    simp only
    cases hh : handle debug { a with sessions } identity now r with
    | error e => exact .inl rfl
    | ok b => exact .inr ⟨identity, rfl, hh⟩

end Step

/-- A mirror with a token for its operators, and no lists of them. -/
def tokened : MirrorConfig := ⟨none, some "token", [], []⟩

/-- An operator, by the token. -/
def operator : Headers := ⟨some "token", none⟩

/-- Whose session it is. -/
def session (sid : String) : Headers := ⟨none, some sid⟩

end Access

end Smrt
