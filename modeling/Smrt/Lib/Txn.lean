import Mathlib.Data.List.Basic
import Mathlib.Order.Defs.Unbundled
import Mathlib.Tactic.SplitIfs

/-!
# Transactions

A store checks its constraints after every statement: a statement that would break them fails, and
with it the transaction. So the states of a store are those in which the constraints hold
(`Stored`), and a transaction (`Txn`) takes one to another, or fails.

A transaction `Lands` if it does not fail: from every state with the precondition it leads to one
with the postcondition. The rules are those of total correctness: for a statement
(`Lands.write`), what is read (`Lands.read_bind`), one thing after the other (`Lands.bind`), and the
items of a list in turn (`Lands.forM`, `Lands.foldlM`).

What a transaction does if it lands is said by a relation that it goes `Along`: the state before it
is related to the one after it. For a relation that is reflexive and transitive this holds of a
transaction when it holds of its statements; with the equality of a part of the state it is a frame.
Both together: a transaction that lands takes what it goes along with it (`Lands.along`).

Of a transaction that may fail it is said what it `Ensures` if it does not. The rules are those of
partial correctness; what lands ensures what it leads to, and so does what goes along a relation.
-/

namespace Smrt

variable {τ ε α β γ : Type} {Valid : τ → Prop}

/-- The states of a store with constraints. -/
abbrev Stored (Valid : τ → Prop) : Type := {t : τ // Valid t}

/-- A computation on a store, which may fail. -/
abbrev Txn (Valid : τ → Prop) (ε α : Type) : Type := StateT (Stored Valid) (Except ε) α

namespace Txn

/-- What the store holds. -/
def read : Txn Valid ε τ := fun s => .ok (s.1, s)

/-- A statement, which fails if the constraints do not hold after it. -/
def write [DecidablePred Valid] (e : ε) (f : τ → τ) : Txn Valid ε Unit := fun s =>
  if h : Valid (f s.1) then .ok ((), ⟨f s.1, h⟩) else .error e

/-- The transaction fails. -/
def fail (e : ε) : Txn Valid ε α := fun _ => .error e

/-- From every state with `P` the transaction leads to one with `Q`. -/
def Lands (P : τ → Prop) (m : Txn Valid ε α) (Q : α → τ → Prop) : Prop :=
  ∀ s : Stored Valid, P s.1 → ∃ a s', m s = .ok (a, s') ∧ Q a s'.1

namespace Lands

variable {P P' : τ → Prop} {Q Q' : α → τ → Prop} {R : β → τ → Prop} {m : Txn Valid ε α}
  {f : α → Txn Valid ε β}

theorem imp (h : Lands P m Q) (hP : ∀ t, Valid t → P' t → P t)
    (hQ : ∀ a t, Valid t → Q a t → Q' a t) : Lands P' m Q' := by
  intro s hs
  obtain ⟨a, s', hm, hq⟩ := h s (hP s.1 s.2 hs)
  exact ⟨a, s', hm, hQ a s'.1 s'.2 hq⟩

theorem of_pre (h : Lands P m Q) (hP : ∀ t, Valid t → P' t → P t) : Lands P' m Q :=
  h.imp hP fun _ _ _ hq => hq

theorem of_post (h : Lands P m Q) (hQ : ∀ a t, Valid t → Q a t → Q' a t) : Lands P m Q' :=
  h.imp (fun _ _ hp => hp) hQ

/-- What does not depend on the state is known before. -/
theorem of_forall {φ : Prop} (h : φ → Lands P m Q) : Lands (fun t => φ ∧ P t) m Q :=
  fun s hs => h hs.1 s hs.2

/-- The state it starts from is known. -/
theorem of_eq (h : ∀ t, Valid t → P t → Lands (fun t' => t' = t) m Q) : Lands P m Q :=
  fun s hs => h s.1 s.2 hs s rfl

theorem pure {a : α} (h : ∀ t, Valid t → P t → Q a t) :
    Lands P (pure a : Txn Valid ε α) Q :=
  fun s hs => ⟨a, s, rfl, h s.1 s.2 hs⟩

theorem bind (hm : Lands P m Q) (hf : ∀ a, Lands (Q a) (f a) R) : Lands P (m >>= f) R := by
  intro s hs
  obtain ⟨a, s', hrun, hq⟩ := hm s hs
  obtain ⟨b, s'', hrun', hr⟩ := hf a s' hq
  refine ⟨b, s'', ?_, hr⟩
  have hbind : (m >>= f) s = (m s >>= fun p => f p.1 p.2) := rfl
  rw [hbind, hrun]
  exact hrun'

/-- What is read is what the store holds. -/
theorem read_bind {f : τ → Txn Valid ε β}
    (h : ∀ t, Valid t → P t → Lands (fun t' => t' = t) (f t) R) : Lands P (read >>= f) R :=
  fun s hs => h s.1 s.2 hs s rfl

variable [DecidablePred Valid]

/-- A statement lands if the constraints hold after it. -/
theorem write {e : ε} {f : τ → τ} {Q : τ → Prop}
    (h : ∀ t, Valid t → P t → Valid (f t) ∧ Q (f t)) :
    Lands P (Txn.write e f : Txn Valid ε Unit) fun _ => Q := by
  intro s hs
  obtain ⟨hvalid, hq⟩ := h s.1 s.2 hs
  exact ⟨(), ⟨f s.1, hvalid⟩, dif_pos hvalid, hq⟩

omit [DecidablePred Valid]

/-- What every item keeps is kept by all of them. -/
theorem forM {l : List γ} {f : γ → Txn Valid ε PUnit} (h : ∀ x ∈ l, Lands P (f x) fun _ => P) :
    Lands P (l.forM f) fun _ => P := by
  induction l with
  | nil => exact Lands.pure fun _ _ hp => hp
  | cons x l ih =>
    obtain ⟨hx, hl⟩ := List.forall_mem_cons.1 h
    exact hx.bind fun _ => ih hl

theorem foldlM {l : List γ} {f : α → γ → Txn Valid ε α} {a : α}
    (h : ∀ x ∈ l, ∀ a, Lands P (f a x) fun _ => P) : Lands P (l.foldlM f a) fun _ => P := by
  induction l generalizing a with
  | nil => exact Lands.pure fun _ _ hp => hp
  | cons x l ih =>
    obtain ⟨hx, hl⟩ := List.forall_mem_cons.1 h
    exact (hx a).bind fun a' => ih hl

end Lands

/-! ## Along a relation -/

/-- If the transaction lands, the state after it is related to the one before. -/
def Along (R : τ → τ → Prop) (m : Txn Valid ε α) : Prop :=
  ∀ s a s', m s = .ok (a, s') → R s.1 s'.1

/-- A part of the state is the same. -/
def Same {κ : Type} (φ : τ → κ) (t t' : τ) : Prop := φ t' = φ t

instance {κ : Type} (φ : τ → κ) : Std.Refl (Same φ) := ⟨fun _ => rfl⟩

instance {κ : Type} (φ : τ → κ) : IsTrans τ (Same φ) := ⟨fun _ _ _ h h' => Eq.trans h' h⟩

namespace Along

variable {R R' : τ → τ → Prop} {m : Txn Valid ε α} {f : α → Txn Valid ε β}

theorem imp (h : Along R m) (hR : ∀ t t', R t t' → R' t t') : Along R' m :=
  fun s a s' hm => hR _ _ (h s a s' hm)

theorem fail {e : ε} : Along R (fail e : Txn Valid ε α) := nofun

theorem pure [Std.Refl R] {a : α} : Along R (pure a : Txn Valid ε α) := by
  intro s a' s' hm
  obtain ⟨-, rfl⟩ := Prod.mk.inj (Except.ok.inj hm)
  exact Std.Refl.refl s.1

theorem bind [IsTrans τ R] (hm : Along R m) (hf : ∀ a, Along R (f a)) : Along R (m >>= f) := by
  intro s b s'' hrun
  have hbind : (m >>= f) s = (m s >>= fun p => f p.1 p.2) := rfl
  rw [hbind] at hrun
  rcases hs : m s with e | ⟨a, s'⟩
  · rw [hs] at hrun
    cases hrun
  · rw [hs] at hrun
    exact IsTrans.trans _ _ _ (hm s a s' hs) (hf a s' b s'' hrun)

/-- What is read may be used, but the state is not known to be that. -/
theorem read_bind {f : τ → Txn Valid ε β} (h : ∀ t, Valid t → Along R (f t)) :
    Along R (read >>= f) :=
  fun s b s' hrun => h s.1 s.2 s b s' hrun

theorem forM [Std.Refl R] [IsTrans τ R] {l : List γ} {f : γ → Txn Valid ε PUnit}
    (h : ∀ x ∈ l, Along R (f x)) : Along R (l.forM f) := by
  induction l with
  | nil => exact Along.pure
  | cons x l ih =>
    obtain ⟨hx, hl⟩ := List.forall_mem_cons.1 h
    exact hx.bind fun _ => ih hl

theorem foldlM [Std.Refl R] [IsTrans τ R] {l : List γ} {f : α → γ → Txn Valid ε α} {a : α}
    (h : ∀ x ∈ l, ∀ a, Along R (f a x)) : Along R (l.foldlM f a) := by
  induction l generalizing a with
  | nil => exact Along.pure
  | cons x l ih =>
    obtain ⟨hx, hl⟩ := List.forall_mem_cons.1 h
    exact (hx a).bind fun a' => ih hl

/-- What has the same part has the same part of that. -/
theorem same_of {κ ι : Type} {φ : τ → κ} (h : Along (Same φ) m) (ψ : κ → ι) :
    Along (Same (ψ ∘ φ)) m :=
  h.imp fun _ _ he => congrArg ψ he

variable [DecidablePred Valid]

theorem write {e : ε} {f : τ → τ} (h : ∀ t, Valid t → Valid (f t) → R t (f t)) :
    Along R (write e f : Txn Valid ε Unit) := by
  intro s a s' hm
  rw [Txn.write] at hm
  split_ifs at hm with hvalid
  obtain ⟨-, rfl⟩ := Prod.mk.inj (Except.ok.inj hm)
  exact h s.1 s.2 hvalid

end Along

/-- A transaction that lands takes with it what it goes along. -/
theorem Lands.along {P : τ → Prop} {Q : α → τ → Prop} {R : τ → τ → Prop} [IsTrans τ R]
    {m : Txn Valid ε α} (h : Lands P m Q) (hR : Along R m) (t : τ) :
    Lands (fun t' => P t' ∧ R t t') m fun a t' => Q a t' ∧ R t t' := by
  intro s hs
  obtain ⟨a, s', hm, hq⟩ := h s hs.1
  exact ⟨a, s', hm, hq, IsTrans.trans _ _ _ hs.2 (hR s a s' hm)⟩

/-! ## Partial correctness -/

/-- If the transaction lands from a state with `P`, it leads to one with `Q`. -/
def Ensures (P : τ → Prop) (m : Txn Valid ε α) (Q : α → τ → Prop) : Prop :=
  ∀ s, P s.1 → ∀ a s', m s = .ok (a, s') → Q a s'.1

theorem Lands.ensures {P : τ → Prop} {m : Txn Valid ε α} {Q : α → τ → Prop} (h : Lands P m Q) :
    Ensures P m Q := by
  intro s hs a s' hm
  obtain ⟨a', s'', hm', hq⟩ := h s hs
  obtain ⟨rfl, rfl⟩ := Prod.mk.inj (Except.ok.inj (hm'.symm.trans hm))
  exact hq

theorem Along.ensures {R : τ → τ → Prop} [IsTrans τ R] {m : Txn Valid ε α} (h : Along R m)
    (t : τ) : Ensures (R t) m fun _ => R t :=
  fun s hs a s' hm => IsTrans.trans _ _ _ hs (h s a s' hm)

namespace Ensures

variable {P P' : τ → Prop} {Q Q' : α → τ → Prop} {R : β → τ → Prop} {m : Txn Valid ε α}
  {f : α → Txn Valid ε β}

theorem imp (h : Ensures P m Q) (hP : ∀ t, P' t → P t) (hQ : ∀ a t, Q a t → Q' a t) :
    Ensures P' m Q' :=
  fun s hs a s' hm => hQ _ _ (h s (hP _ hs) a s' hm)

theorem of_forall {φ : Prop} (h : φ → Ensures P m Q) : Ensures (fun t => φ ∧ P t) m Q :=
  fun s hs => h hs.1 s hs.2

theorem pure {a : α} (h : ∀ t, P t → Q a t) : Ensures P (pure a : Txn Valid ε α) Q := by
  intro s hs a' s' hm
  obtain ⟨rfl, rfl⟩ := Prod.mk.inj (Except.ok.inj hm)
  exact h _ hs

theorem fail {e : ε} : Ensures P (fail e : Txn Valid ε α) Q := nofun

theorem bind (hm : Ensures P m Q) (hf : ∀ a, Ensures (Q a) (f a) R) : Ensures P (m >>= f) R := by
  intro s hs b s'' hrun
  have hbind : (m >>= f) s = (m s >>= fun p => f p.1 p.2) := rfl
  rw [hbind] at hrun
  rcases hrun' : m s with e | ⟨a, s'⟩
  · rw [hrun'] at hrun
    cases hrun
  · rw [hrun'] at hrun
    exact hf a s' (hm s hs a s' hrun') b s'' hrun

/-- What is read is what the store holds. -/
theorem read_bind {f : τ → Txn Valid ε β}
    (h : ∀ t, Valid t → P t → Ensures (fun t' => t' = t) (f t) R) : Ensures P (read >>= f) R :=
  fun s hs => h s.1 s.2 hs s rfl

theorem write [DecidablePred Valid] {e : ε} {g : τ → τ} {Q : τ → Prop}
    (h : ∀ t, Valid t → Valid (g t) → P t → Q (g t)) :
    Ensures P (Txn.write e g : Txn Valid ε Unit) fun _ => Q := by
  intro s hs a s' hm
  rw [Txn.write] at hm
  split_ifs at hm with hvalid
  obtain ⟨-, rfl⟩ := Prod.mk.inj (Except.ok.inj hm)
  exact h s.1 s.2 hvalid hs

end Ensures

/-- What does not depend on the state stays known. -/
theorem Ensures.const {φ ψ : Prop} {m : Txn Valid ε α} (h : φ → ψ) :
    Ensures (fun _ => φ) m fun _ _ => ψ := fun _ hs _ _ _ => h hs

/-- A transaction that goes along a relation leads to what is related to the state before. -/
theorem Along.of_eq {R : τ → τ → Prop} {m : Txn Valid ε α} (h : Along R m) (t : τ) :
    Ensures (fun t' => t' = t) m fun _ t' => R t t' :=
  fun s hs a s' hm => hs ▸ h s a s' hm

/-- What is read is the state that the transaction starts from. -/
theorem Along.of_read {R : τ → τ → Prop} {f : τ → Txn Valid ε β}
    (h : ∀ t, Valid t → Ensures (fun t' => t' = t) (f t) fun _ t' => R t t') :
    Along R (read >>= f) :=
  fun s b s' hrun => h s.1 s.2 s rfl b s' hrun

end Txn

end Smrt
