import Smrt.Http.Error
import Smrt.Lib.Split

/-!
# What people write

The messages, titles and reasons that come with a request, made fit to be kept: a title is
trimmed and not empty (`trimmed`), a reason is one line and not too long (`tidyReason`).
-/

namespace Smrt

/-- The words of a string. -/
def splitWhitespace (s : String) : List String :=
  ((s.toList.splitOnP isWhiteSpace).filter fun w => w ≠ []).map String.ofList

/-- A text without the white space at its ends, which has to be there. -/
def trimmed (value complaint : String) : Except ApiError String :=
  if trim value = "" then .error (.badRequest complaint) else .ok (trim value)

/-- How long the reason of a block may be. -/
def maxBlockReason : ℕ := 300

/-- A reason as it will be read: one line, or none, and not too long. -/
def tidyReason (raw : Option String) : Except ApiError (Option String) :=
  match raw with
  | none => .ok none
  | some text =>
    let oneLine := " ".intercalate (splitWhitespace text)
    if oneLine = "" then .ok none
    else if maxBlockReason < oneLine.length then
      .error (.badRequest ("that reason is longer than " ++ toString maxBlockReason ++
        " characters; the thread is where the long version goes"))
    else .ok (some oneLine)

/-- A reason that is kept says something, and is not too long. -/
theorem tidyReason_some {raw : Option String} {reason : String}
    (h : tidyReason raw = .ok (some reason)) :
    reason ≠ "" ∧ reason.length ≤ maxBlockReason := by
  cases raw with
  | none => cases h
  | some text =>
    simp only [tidyReason] at h
    split_ifs at h with hempty hlong
    · cases h
    · obtain rfl := Option.some.inj (Except.ok.inj h)
      exact ⟨hempty, Nat.le_of_not_lt hlong⟩

example : tidyReason (some " a\n  b ") = .ok (some "a b") := by decide +kernel

end Smrt
