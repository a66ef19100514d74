import Mathlib.Data.List.Basic

/-!
# Errors

What a request answers when it is not served. The texts are the source's.
-/

namespace Smrt

/-- An error of the mirror's interface. -/
inductive ApiError
  | notFound
  | unauthorized
  | forbidden
  | refused (reason : String)
  | badRequest (reason : String)
  | conflict (reason : String)
  | internal (reason : String)
  deriving DecidableEq

end Smrt
