import Mathlib.Data.List.AList
import Mathlib.Data.List.Sort
import Smrt.Http.Auth

/-!
# The accounts store

Who has signed in and with which rung, their sessions, what each pack grants to whom, who is
suspended, and whom each pack blocks. A table is a list of rows in which no key is twice
(`AList`), so that the rows of a state are well formed; an upsert is an `insert` and a
deletion an `erase`.

The reserved account `breakGlassUid` is never a person: nothing is granted to it, it is
neither blocked nor suspended, and its rung is not set.
-/

namespace Smrt

/-- The rung of a name. -/
def Role.parse : String → Option Role
  | "member" => some .member
  | "admin" => some .admin
  | "debug" => some .debug
  | _ => none

/-- An account that has signed in. -/
structure User where
  login : String
  role : Role
  deriving DecidableEq

/-- A session of an account. -/
structure Session where
  uid : Int64
  expiresAt : Int64
  deriving DecidableEq

/-- What a pack grants to an account, who granted it, and when. -/
structure Grant where
  level : PackLevel
  grantedBy : Int64
  grantedAt : Int64
  deriving DecidableEq

/-- An account that may put nothing on the mirror. -/
structure Suspension where
  reason : Option String
  byUid : Int64
  suspendedAt : Int64
  deriving DecidableEq

/-- An account that may not write on a pack. -/
structure PackBlock where
  reason : Option String
  blockedBy : Int64
  blockedAt : Int64
  deriving DecidableEq

/-- The tables of the store. -/
structure Accounts where
  users : AList fun _ : Int64 => User
  sessions : AList fun _ : String => Session
  packAccess : AList fun _ : String × Int64 => Grant
  suspensions : AList fun _ : Int64 => Suspension
  packBlocks : AList fun _ : String × Int64 => PackBlock

namespace Accounts

/-- The account of the emergency token, which nobody has. -/
def breakGlassUid : Int64 := 0

/-- How long a session lasts, in seconds. -/
def sessionTtl : Int64 := 86400

/-- A store that nobody has signed in to. -/
def empty : Accounts := ⟨∅, ∅, ∅, ∅, ∅⟩

variable (a : Accounts)

/-! ## Sessions -/

/-- Who an account is. -/
def identityOf (uid : Int64) : Option Identity :=
  (a.users.lookup uid).map fun u => ⟨uid, u.login, u.role⟩

/-- Somebody signs in, under a fresh session. A rung that is forced is set again at every
    sign-in; else a new account is a plain member, and an old one keeps its rung. -/
def signInGithub (uid : Int64) (login : String) (forcedRole : Option Role) (sid : String)
    (now : Int64) : Option Accounts :=
  if sid ∈ a.sessions then none
  else
    let stored := ((a.users.lookup uid).map User.role).getD .member
    some { a with
      users := a.users.insert uid ⟨login, forcedRole.getD stored⟩
      sessions := a.sessions.insert sid ⟨uid, now + sessionTtl⟩ }

/-- Whose a session is. One that has lapsed is dropped when it is read. -/
def sessionIdentity (sid : String) (now : Int64) : Option Identity × Accounts :=
  match a.sessions.lookup sid with
  | none => (none, a)
  | some session =>
    match a.identityOf session.uid with
    | none => (none, a)
    | some identity =>
      if now < session.expiresAt then (some identity, a)
      else (none, { a with sessions := a.sessions.erase sid })

/-- The rung of an account is set. -/
def setRole (uid : Int64) (role : String) : Except String Accounts :=
  if uid = breakGlassUid then .error "cannot change the reserved uid 0"
  else match Role.parse role with
    | none => .error ("invalid role '" ++ role ++ "'")
    | some role =>
      match a.users.lookup uid with
      | none => .error ("no user with uid " ++ toString uid)
      | some user => .ok { a with users := a.users.insert uid { user with role } }

/-! ## Access -/

/-- What a pack grants to an account. -/
def packAccessLevel (packId : String) (uid : Int64) : Option PackLevel :=
  (a.packAccess.lookup (packId, uid)).map Grant.level

/-- Every pack that grants something to an account, in the order of their ids. -/
def packsGrantedTo (uid : Int64) : List (String × PackLevel) :=
  (a.packAccess.entries.filterMap fun row =>
    if row.1.2 = uid then some (row.1.1, row.2.level) else none).insertionSort fun x y => x.1 ≤ y.1

def grantPackAccess (packId : String) (uid : Int64) (level : PackLevel) (grantedBy now : Int64) :
    Except String Accounts :=
  if uid = breakGlassUid then .error "uid 0 is reserved"
  else .ok { a with packAccess := a.packAccess.insert (packId, uid) ⟨level, grantedBy, now⟩ }

def revokePackAccess (packId : String) (uid : Int64) : Accounts :=
  { a with packAccess := a.packAccess.erase (packId, uid) }

/-! ## Suspensions and blocks -/

def suspensionOf (uid : Int64) : Option Suspension := a.suspensions.lookup uid

def suspendAccount (uid : Int64) (reason : Option String) (byUid now : Int64) :
    Except String Accounts :=
  if uid = breakGlassUid then .error "uid 0 is reserved"
  else .ok { a with suspensions := a.suspensions.insert uid ⟨reason, byUid, now⟩ }

def liftSuspension (uid : Int64) : Accounts :=
  { a with suspensions := a.suspensions.erase uid }

def blockOn (packId : String) (uid : Int64) : Option PackBlock :=
  a.packBlocks.lookup (packId, uid)

def blockFromPack (packId : String) (uid : Int64) (reason : Option String)
    (blockedBy now : Int64) : Except String Accounts :=
  if uid = breakGlassUid then .error "uid 0 is reserved"
  else .ok { a with packBlocks := a.packBlocks.insert (packId, uid) ⟨reason, blockedBy, now⟩ }

def unblockFromPack (packId : String) (uid : Int64) : Accounts :=
  { a with packBlocks := a.packBlocks.erase (packId, uid) }

end Accounts

end Smrt
