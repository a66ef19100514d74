import Smrt.Authoring.PackDoc
import Smrt.Lib.System

/-!
# The documents being edited

The mirror holds the document of a pack from the moment somebody asks for it
(`PackDocs.getOrSeed`) until a write goes around it (`PackDocs.forget`). Whoever was given
a document keeps it, forgotten or not: documents are handed out as references, and so live
in a heap here. The tickets say which edit was the last one (`PackDocs.touch`,
`PackDocs.isCurrent`).

A document merges updates, which are not looked into. What it holds once it has merged the
updates `us` over the members `o` is `merged o us`, a parameter of which nothing is asked
but that without updates it holds what it was seeded with.
-/

namespace Smrt

open Json (Members)

/-- A document: the config it was seeded from, and the updates merged into it since. -/
structure Doc (U : Type) where
  seed : PackConfig
  applied : List U

/-- The members a document holds. -/
def Doc.content {U : Type} (merged : Members → List U → Members) (d : Doc U) : Members :=
  merged (PackDoc.fromConfig d.seed) d.applied

/-- The documents of one pack: the live one, all that were ever handed out, as a heap with
    its next free place, and the last ticket. -/
structure PackDocs (U : Type) where
  live : Option ℕ
  heap : ℕ → Doc U
  next : ℕ
  ticket : ℕ

namespace PackDocs

variable {U : Type} (docs : PackDocs U)

/-- The live document, seeded from `cfg` if there is none. -/
def getOrSeed (cfg : PackConfig) : PackDocs U × ℕ :=
  match docs.live with
  | some d => (docs, d)
  | none =>
    ({ docs with
        live := some docs.next
        heap := setAt docs.heap docs.next ⟨cfg, []⟩
        next := docs.next + 1 }, docs.next)

/-- The documents with `u` merged into one of them. -/
def apply (d : ℕ) (u : U) : PackDocs U :=
  { docs with heap := setAt docs.heap d ⟨(docs.heap d).seed, (docs.heap d).applied ++ [u]⟩ }

/-- The documents with one more ticket handed out. -/
def touch : PackDocs U := { docs with ticket := docs.ticket + 1 }

/-- Whether a ticket is the last one. -/
def isCurrent (ticket : ℕ) : Bool := docs.ticket = ticket

/-- The documents without a live one. -/
def forget : PackDocs U := { docs with live := none }

variable {docs}

theorem getOrSeed_of_live {d : ℕ} (h : docs.live = some d) (cfg : PackConfig) :
    docs.getOrSeed cfg = (docs, d) := by
  rw [getOrSeed, h]

theorem getOrSeed_of_none (h : docs.live = none) (cfg : PackConfig) :
    docs.getOrSeed cfg =
      ({ docs with
          live := some docs.next
          heap := setAt docs.heap docs.next ⟨cfg, []⟩
          next := docs.next + 1 }, docs.next) := by
  rw [getOrSeed, h]

/-- The document that is handed out is the live one. -/
theorem live_getOrSeed (cfg : PackConfig) :
    (docs.getOrSeed cfg).1.live = some (docs.getOrSeed cfg).2 := by
  cases h : docs.live with
  | some d => rw [getOrSeed_of_live h, h]
  | none => rw [getOrSeed_of_none h]

@[simp] theorem live_apply (d : ℕ) (u : U) : (docs.apply d u).live = docs.live := rfl

@[simp] theorem ticket_apply (d : ℕ) (u : U) : (docs.apply d u).ticket = docs.ticket := rfl

@[simp] theorem heap_apply_self (d : ℕ) (u : U) :
    (docs.apply d u).heap d = ⟨(docs.heap d).seed, (docs.heap d).applied ++ [u]⟩ :=
  setAt_self ..

theorem heap_apply_of_ne {d e : ℕ} (h : e ≠ d) (u : U) :
    (docs.apply d u).heap e = docs.heap e :=
  setAt_of_ne _ _ h

@[simp] theorem live_touch : docs.touch.live = docs.live := rfl

@[simp] theorem heap_touch : docs.touch.heap = docs.heap := rfl

@[simp] theorem live_forget : docs.forget.live = none := rfl

theorem isCurrent_touch : docs.touch.isCurrent docs.touch.ticket := by
  simp [isCurrent]

end PackDocs

end Smrt
