import Mathlib.Data.Option.Basic
import Mathlib.Tactic.SplitIfs

/-!
# Computations that may fail

When the parts of a computation in `Except` succeed, and what a computation that succeeded
went through.
-/

namespace Smrt

variable {ε ε' α β : Type}

/-- A computation succeeds if its parts do. -/
theorem bind_eq_ok {r : Except ε α} {f : α → Except ε β} {y : β} :
    (r >>= f) = .ok y ↔ ∃ x, r = .ok x ∧ f x = .ok y := by
  cases r with
  | error e => exact ⟨fun h => (nomatch h), fun ⟨_, h, _⟩ => (nomatch h)⟩
  | ok x => exact ⟨fun h => ⟨x, rfl, h⟩, fun ⟨_, h, hf⟩ => Except.ok.inj h ▸ hf⟩

theorem map_eq_ok {r : Except ε α} {f : α → β} {y : β} :
    r.map f = .ok y ↔ ∃ x, r = .ok x ∧ f x = y := by
  cases r with
  | error e => exact ⟨fun h => (nomatch h), fun ⟨_, h, _⟩ => (nomatch h)⟩
  | ok x =>
    exact ⟨fun h => ⟨x, rfl, Except.ok.inj h⟩, fun ⟨_, h, hf⟩ =>
      congrArg _ ((congrArg f (Except.ok.inj h)).trans hf)⟩

theorem mapError_eq_ok {r : Except ε α} {f : ε → ε'} {x : α} :
    r.mapError f = .ok x ↔ r = .ok x := by
  cases r with
  | error e => exact ⟨fun h => (nomatch h), fun h => (nomatch h)⟩
  | ok y => exact ⟨fun h => congrArg _ (Except.ok.inj h), fun h => congrArg _ (Except.ok.inj h)⟩

theorem map_bind {γ : Type} (r : Except ε α) (f : α → Except ε β) (g : β → γ) :
    (r >>= f).map g = r >>= fun x => (f x).map g := by
  cases r with
  | error e => rfl
  | ok x => rfl

/-- A check passes if it answers success. -/
theorem toBool_eq_true {r : Except ε Unit} : r.toBool = true ↔ r = .ok () := by
  cases r with
  | error e => exact ⟨fun h => (nomatch h), fun h => (nomatch h)⟩
  | ok x => exact ⟨fun _ => rfl, fun _ => rfl⟩

theorem toBool_eq_false {r : Except ε Unit} : r.toBool = false ↔ r ≠ .ok () := by
  rw [← Bool.not_eq_true, toBool_eq_true]

/-- An error, if a condition holds. -/
def refuseIf (c : Prop) [Decidable c] (e : ε) : Except ε Unit := if c then .error e else .ok ()

theorem refuseIf_eq_ok {c : Prop} [Decidable c] {e : ε} {x : Unit} :
    refuseIf c e = .ok x ↔ ¬ c := by
  rw [refuseIf]
  split_ifs with h
  · exact ⟨fun he => (nomatch he), fun hn => absurd h hn⟩
  · exact ⟨fun _ => h, fun _ => rfl⟩

theorem refuseIf_congr {c c' : Prop} [Decidable c] [Decidable c'] {e : ε} (h : c ↔ c') :
    refuseIf c e = refuseIf c' e := by
  rw [refuseIf, refuseIf]
  exact if_congr h rfl rfl

end Smrt
