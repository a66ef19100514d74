import Mathlib.Algebra.Group.Int.Defs
import Mathlib.Algebra.Group.Nat.Defs
import Mathlib.Data.Int.Notation
import Smrt.Http.Error
import Smrt.Lib.Except

/-!
# The access gate

What an account may do to a pack (`authorize`): an administrator and the owner of a
community namespace own the pack, without asking the store; everybody else may do what
the access list grants them. A suspended account may read, and nothing more.
-/

namespace Smrt

/-- The rungs of an account. -/
inductive Role
  | member
  | admin
  | debug
  deriving DecidableEq

/-- The height of a rung. -/
def Role.rank : Role → ℕ
  | .member => 0
  | .admin => 1
  | .debug => 2

/-- What somebody may do to a pack. -/
inductive PackLevel
  | view
  | edit
  | own
  deriving DecidableEq

/-- The level of a name. -/
def PackLevel.parse : String → Option PackLevel
  | "view" => some .view
  | "edit" => some .edit
  | "own" => some .own
  | _ => none

/-- The height of a level: each allows what the ones below it allow. -/
def PackLevel.rank : PackLevel → ℕ
  | .view => 0
  | .edit => 1
  | .own => 2

/-- Who is calling. -/
structure Identity where
  uid : Int64
  login : String
  role : Role
  deriving DecidableEq

/-! ## Namespaces -/

/-- The number of a non-empty list of digits. -/
def parseDigits (digits : List Char) : Option ℕ :=
  if digits ≠ [] ∧ digits.all Char.isDigit then
    some (digits.foldl (fun n c => 10 * n + (c.toNat - '0'.toNat)) 0)
  else none

/-- The signed 64-bit integer of a decimal numeral. -/
def parseInt64 (s : String) : Option Int64 :=
  let inRange (n : ℤ) : Option Int64 :=
    if -2 ^ 63 ≤ n ∧ n < 2 ^ 63 then some (Int64.ofInt n) else none
  match s.toList with
  | '-' :: digits => (parseDigits digits).bind fun n => inRange (-n)
  | '+' :: digits => (parseDigits digits).bind fun n => inRange n
  | digits => (parseDigits digits).bind fun n => inRange n

/-- The account whose namespace an id is in: a community id is `u/<uid>/<pack>`. -/
def packNamespaceUid (packId : String) : Option Int64 :=
  match packId.toList with
  | 'u' :: '/' :: rest =>
    if '/' ∈ rest then parseInt64 (String.ofList (rest.takeWhile fun c => c ≠ '/')) else none
  | _ => none

/-- One plain segment of a path. -/
def isFlatId (s : String) : Bool :=
  s ≠ "" ∧ s.utf8ByteSize ≤ 64 ∧ s.toList.head? ≠ some '.' ∧
    s.toList.all fun c => c.isAlphanum ∨ c = '-' ∨ c = '_' ∨ c = '.'

/-- Whether an id may name a pack: one segment, or a community id. -/
def isSafeId (s : String) : Bool :=
  match s.toList with
  | 'u' :: '/' :: rest =>
    let uid := rest.takeWhile fun c => c ≠ '/'
    '/' ∈ rest ∧ uid ≠ [] ∧ uid.all Char.isDigit ∧
      isFlatId (String.ofList (rest.drop (uid.length + 1)))
  | _ => s ≠ "u" ∧ isFlatId s

example : isSafeId "u/42/Industrial" = true ∧ isSafeId "u/42" = false := by decide +kernel

/-! ## The gate -/

section Authorize

variable (identity : Identity) (packId : String) (need : PackLevel)

/-- What an account may do to a pack without asking the store. -/
def inherentLevel : Option PackLevel :=
  if Role.admin.rank ≤ identity.role.rank then some .own
  else match packNamespaceUid packId with
    | some uid => if identity.uid = uid then some .own else none
    | none => none

/-- A write is refused from an account that is suspended, with the reason if there is
    one. Administrators never are. -/
def notSuspended (suspension : Option (Option String)) : Except ApiError Unit :=
  if Role.admin.rank ≤ identity.role.rank then .ok ()
  else match suspension with
    | none => .ok ()
    | some (some reason) => .error (.refused ("this account is suspended. reason: " ++ reason))
    | some none => .error (.refused "this account is suspended")

/-- Whether an account may do `need` to a pack, given its suspension, if it is suspended,
    and what the access list grants it. -/
def authorize (suspension : Option (Option String)) (granted : Option PackLevel) :
    Except ApiError Unit := do
  if PackLevel.edit.rank ≤ need.rank then notSuspended identity suspension
  match inherentLevel identity packId with
  | some level => if need.rank ≤ level.rank then .ok () else .error .forbidden
  | none =>
    match granted with
    | some level => if need.rank ≤ level.rank then .ok () else .error .forbidden
    | none => .error .forbidden

variable {identity packId need}

/-- Whom the gate does not stop from writing. -/
theorem notSuspended_eq_ok {suspension : Option (Option String)} :
    notSuspended identity suspension = .ok () ↔
      Role.admin.rank ≤ identity.role.rank ∨ suspension = none := by
  rw [notSuspended.eq_def]
  split_ifs with hadmin
  · exact ⟨fun _ => .inl hadmin, fun _ => rfl⟩
  · rcases suspension with _ | _ | reason
    · exact ⟨fun _ => .inr rfl, fun _ => rfl⟩
    · exact ⟨fun h => (nomatch h), fun h => (nomatch h.resolve_left hadmin)⟩
    · exact ⟨fun h => (nomatch h), fun h => (nomatch h.resolve_left hadmin)⟩

/-- Whom the gate lets through: to read, or not suspended, with a level that is high enough. -/
theorem authorize_eq_ok {suspension : Option (Option String)} {granted : Option PackLevel} :
    authorize identity packId need suspension granted = .ok () ↔
      (PackLevel.edit.rank ≤ need.rank → Role.admin.rank ≤ identity.role.rank ∨
        suspension = none) ∧
      ∃ level, (inherentLevel identity packId).or granted = some level ∧
        need.rank ≤ level.rank := by
  -- What is left to check, once the account is not suspended.
  have hlevel : (match inherentLevel identity packId with
      | some level => if need.rank ≤ level.rank then .ok () else .error .forbidden
      | none => match granted with
        | some level => if need.rank ≤ level.rank then .ok () else .error .forbidden
        | none => .error .forbidden : Except ApiError Unit) = .ok () ↔
      ∃ level, (inherentLevel identity packId).or granted = some level ∧
        need.rank ≤ level.rank := by
    cases inherentLevel identity packId <;> cases granted <;> simp
  rw [authorize.eq_def]
  by_cases hn : PackLevel.edit.rank ≤ need.rank
  · simp only [hn, forall_const, ← hlevel, ← notSuspended_eq_ok]
    exact bind_eq_ok.trans ⟨fun ⟨_, hs, h⟩ => ⟨hs, h⟩, fun ⟨hs, h⟩ => ⟨(), hs, h⟩⟩
  · simp only [hn, false_imp_iff, true_and, ← hlevel]
    rfl

/-- Who may do something to a pack may do what is less. -/
theorem authorize_of_le {need' : PackLevel} {suspension : Option (Option String)}
    {granted : Option PackLevel} (hle : need'.rank ≤ need.rank)
    (h : authorize identity packId need suspension granted = .ok ()) :
    authorize identity packId need' suspension granted = .ok () := by
  obtain ⟨hs, level, hl, hn⟩ := authorize_eq_ok.1 h
  exact authorize_eq_ok.2 ⟨fun he => hs (Nat.le_trans he hle), level, hl, Nat.le_trans hle hn⟩

/-- Who owns the pack neither by rung nor by namespace, and is granted nothing, may do
    nothing to it. -/
theorem authorize_of_not_granted (identity : Identity) (packId : String) (need : PackLevel)
    (h : inherentLevel identity packId = none) (suspension : Option (Option String)) :
    ∃ e, authorize identity packId need suspension none = .error e := by
  cases hr : authorize identity packId need suspension none with
  | error e => exact ⟨e, rfl⟩
  | ok _ =>
    obtain ⟨-, level, hl, -⟩ := authorize_eq_ok.1 hr
    rw [h] at hl
    cases hl

end Authorize

end Smrt
