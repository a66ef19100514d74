import Mathlib.Data.List.Basic

/-!
# Threads

The issues and the proposals of the packs. A proposal offers a commit of another pack. A
thread settles once: only an open one can be (`settleThread`), so of two that decide at
once only one does (`settleThread_of_not_open`, `settleThread_settled`).

The words of a thread, and the comments on it, are left out.
-/

namespace Smrt

/-- What a thread is. -/
inductive ThreadKind
  | issue
  | proposal
  deriving DecidableEq

/-- Whether a thread is open, and how it was settled. -/
inductive ThreadStatus
  | open
  | closed
  | merged
  | declined
  | withdrawn
  deriving DecidableEq

/-- The name of a status. -/
def ThreadStatus.name : ThreadStatus → String
  | .open => "open"
  | .closed => "closed"
  | .merged => "merged"
  | .declined => "declined"
  | .withdrawn => "withdrawn"

/-- A thread of a pack. -/
structure Thread where
  id : Int64
  packId : String
  kind : ThreadKind
  byUid : Int64
  status : ThreadStatus
  sourcePack : Option String
  sourceCommit : Option String
  /-- The commit that a merge wrote. -/
  mergedCommit : Option String
  decidedAt : Option Int64
  decidedBy : Option Int64
  deriving DecidableEq

/-- The thread settled, and whether it was: only an open one is. -/
def settleThread (t : Thread) (status : ThreadStatus) (now decidedBy : Int64)
    (mergedCommit : Option String) : Thread × Bool :=
  if t.status = .open then
    ({ t with status, decidedAt := some now, decidedBy := some decidedBy, mergedCommit }, true)
  else (t, false)

section Settle

variable {t : Thread} {status : ThreadStatus} {now decidedBy : Int64} {commit : Option String}

theorem settleThread_of_open (h : t.status = .open) :
    settleThread t status now decidedBy commit =
      ({ t with
          status
          decidedAt := some now
          decidedBy := some decidedBy
          mergedCommit := commit }, true) := if_pos h

theorem settleThread_of_not_open (h : t.status ≠ .open) :
    settleThread t status now decidedBy commit = (t, false) := if_neg h

/-- A thread that was settled does not settle again. -/
theorem settleThread_settled (hs : status ≠ .open) (h : t.status = .open)
    (status' : ThreadStatus) (now' decidedBy' : Int64) (commit' : Option String) :
    (settleThread (settleThread t status now decidedBy commit).1 status' now' decidedBy'
      commit').2 = false := by
  rw [settleThread_of_open h, settleThread_of_not_open hs]

end Settle

end Smrt
