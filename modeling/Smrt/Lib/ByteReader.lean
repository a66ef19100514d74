import Mathlib.Algebra.Order.Group.Nat
import Mathlib.Data.List.Basic
import Smrt.Lib.Records

/-!
# Readers of bytes

A reader goes over bytes, from the first one on, and keeps a log of the places it has read. It ends
with what it has read, or stops: for it finds what it cannot read (`none`), or for a fault of its
own.

* `Tracks`: what a reader has read it does not read again;
* `Calm`: with fewer bytes than this it has no fault;
* `Yields`: what it reads from these bytes, whatever comes after them;
* `Eats`: which bytes it has made something of;
* `Faults`: at which bytes it has a fault.

Each has a rule for one reader after the other, and most for the same reader many times (`times`)
and for a reader of the next so many bytes (`within`).
-/

namespace Smrt

/-- Where a reader is: what is left to read, at which place, and which places have been read. -/
structure Cur where
  rest : List UInt8
  pos : ℕ
  log : List ℕ

/-- What was read is before the place, in its order, so that nothing was read twice. -/
structure Cur.Sound (c : Cur) : Prop where
  increasing : c.log.Pairwise (· < ·)
  below : ∀ p ∈ c.log, p < c.pos

/-- Places that are read next, in their order. -/
theorem Cur.Sound.push {c : Cur} (h : c.Sound) (rest : List UInt8) (count : ℕ) :
    Cur.Sound ⟨rest, c.pos + count, c.log ++ List.range' c.pos count⟩ := by
  refine ⟨List.pairwise_append.2 ⟨h.increasing, List.pairwise_lt_range', fun p hp q hq => ?_⟩,
    fun p hp => ?_⟩
  · have := h.below p hp
    have := (List.mem_range'_1.1 hq).1
    omega
  · rcases List.mem_append.1 hp with hp | hp
    · have := h.below p hp
      dsimp only
      omega
    · exact (List.mem_range'_1.1 hp).2

/-- A reader, with faults of its own. -/
def ByteReader (ε α : Type) := Cur → Except (Option ε) α × Cur

namespace ByteReader

variable {ε α β : Type}

/-- What comes after a reader, if it does not stop. -/
def andThen (m : ByteReader ε α) (f : α → ByteReader ε β) : ByteReader ε β := fun c =>
  match m c with
  | (.ok a, c) => f a c
  | (.error e, c) => (.error e, c)

instance : Monad (ByteReader ε) where
  pure a := fun c => (.ok a, c)
  bind := andThen

/-- Here is what cannot be read. -/
def fail : ByteReader ε α := fun c => (.error none, c)

def fault (e : ε) : ByteReader ε α := fun c => (.error (some e), c)

/-- One byte. -/
def u1 : ByteReader ε UInt8 := fun c =>
  match c.rest with
  | [] => (.error none, c)
  | b :: rest => (.ok b, ⟨rest, c.pos + 1, c.log ++ [c.pos]⟩)

/-- Two bytes as a number, the most significant one first. -/
def u2 : ByteReader ε ℕ := do
  let hi ← u1
  let lo ← u1
  pure (256 * hi.toNat + lo.toNat)

def u4 : ByteReader ε ℕ := do
  let hi ← u2
  let lo ← u2
  pure (65536 * hi + lo)

/-- So many bytes are passed over. -/
def skip (n : ℕ) : ByteReader ε Unit := fun c =>
  if n ≤ c.rest.length then (.ok (), ⟨c.rest.drop n, c.pos + n, c.log⟩) else (.error none, c)

/-- So many bytes are given to a reader of their own, and passed over. -/
def within (n : ℕ) (m : ByteReader ε α) : ByteReader ε α := fun c =>
  if n ≤ c.rest.length then
    let r := m ⟨c.rest.take n, c.pos, c.log⟩
    (r.1, ⟨c.rest.drop n, c.pos + n, r.2.log⟩)
  else (.error none, c)

/-- All that is left. -/
def remaining : ByteReader ε (List UInt8) := fun c =>
  (.ok c.rest, ⟨[], c.pos + c.rest.length, c.log ++ List.range' c.pos c.rest.length⟩)

/-- So many bytes. -/
def bytes (n : ℕ) : ByteReader ε (List UInt8) := within n remaining

/-- So many times the same. -/
def times : ℕ → ByteReader ε α → ByteReader ε (List α)
  | 0, _ => pure []
  | n + 1, m => do
    let a ← m
    let l ← times n m
    pure (a :: l)

/-- A reader that need not find what it can read. -/
def attempt (m : ByteReader ε α) : ByteReader ε (Option α) := fun c =>
  match m c with
  | (.ok a, c) => (.ok (some a), c)
  | (.error none, c) => (.ok none, c)
  | (.error (some e), c) => (.error (some e), c)

/-- A value that was had without reading. -/
def ofExcept : Except ε α → ByteReader ε α
  | .ok a => pure a
  | .error e => fault e

/-! ## One after the other -/

section Bind

variable {m : ByteReader ε α} {f : α → ByteReader ε β} {c c' : Cur} {a : α} {b : β}
  {e : Option ε}

theorem bind_of_ok (h : m c = (.ok a, c')) : (m >>= f) c = f a c' := by
  have hbind : (m >>= f) c = andThen m f c := rfl
  rw [hbind, andThen, h]

theorem bind_of_error (h : m c = (.error e, c')) : (m >>= f) c = (.error e, c') := by
  have hbind : (m >>= f) c = andThen m f c := rfl
  rw [hbind, andThen, h]

theorem bind_cases (m : ByteReader ε α) (f : α → ByteReader ε β) (c : Cur) :
    (∃ e c₁, m c = (.error e, c₁) ∧ (m >>= f) c = (.error e, c₁)) ∨
      ∃ a c₁, m c = (.ok a, c₁) ∧ (m >>= f) c = f a c₁ := by
  rcases hm : m c with ⟨e | a, c₁⟩
  · exact .inl ⟨e, c₁, rfl, bind_of_error hm⟩
  · exact .inr ⟨a, c₁, rfl, bind_of_ok hm⟩

/-- What a reader after another one ends with. -/
theorem bind_eq_ok (h : (m >>= f) c = (.ok b, c')) :
    ∃ a c₁, m c = (.ok a, c₁) ∧ f a c₁ = (.ok b, c') := by
  obtain ⟨e, c₁, -, he⟩ | ⟨a, c₁, hm, hf⟩ := bind_cases m f c
  · rw [he] at h
    exact nomatch h
  · exact ⟨a, c₁, hm, hf ▸ h⟩

end Bind

/-! ## Nothing is read twice -/

/-- What was read stays read, and places are passed as bytes are. -/
structure Tracks (m : ByteReader ε α) : Prop where
  sound : ∀ c : Cur, c.Sound → (m c).2.Sound
  total : ∀ c, (m c).2.pos + (m c).2.rest.length = c.pos + c.rest.length
  shrinks : ∀ c, (m c).2.rest.length ≤ c.rest.length

/-- A reader of fewer bytes has no fault. -/
def Calm (n : ℕ) (m : ByteReader ε α) : Prop :=
  ∀ c e, c.rest.length < n → (m c).1 ≠ .error (some e)

section Rules

variable {m : ByteReader ε α} {f : α → ByteReader ε β} {n k : ℕ}

theorem tracks_pure (a : α) : Tracks (pure a : ByteReader ε α) :=
  ⟨fun _ h => h, fun _ => rfl, fun _ => le_rfl⟩

theorem tracks_fail : Tracks (fail : ByteReader ε α) :=
  ⟨fun _ h => h, fun _ => rfl, fun _ => le_rfl⟩

theorem tracks_fault (e : ε) : Tracks (fault e : ByteReader ε α) :=
  ⟨fun _ h => h, fun _ => rfl, fun _ => le_rfl⟩

theorem Tracks.bind (hm : Tracks m) (hf : ∀ a, Tracks (f a)) : Tracks (m >>= f) := by
  have hboth (c : Cur) : ((m >>= f) c).2 = (m c).2 ∨ ∃ a, ((m >>= f) c).2 = (f a (m c).2).2 := by
    obtain ⟨e, c₁, hm, he⟩ | ⟨a, c₁, hm, he⟩ := bind_cases m f c
    · exact .inl (by rw [he, hm])
    · exact .inr ⟨a, by rw [he, hm]⟩
  refine ⟨fun c hc => ?_, fun c => ?_, fun c => ?_⟩
  all_goals obtain h | ⟨a, h⟩ := hboth c
  · exact h ▸ hm.sound c hc
  · exact h ▸ (hf a).sound _ (hm.sound c hc)
  · exact h ▸ hm.total c
  · rw [h, (hf a).total, hm.total]
  · exact h ▸ hm.shrinks c
  · rw [h]
    exact ((hf a).shrinks _).trans (hm.shrinks c)

theorem tracks_u1 : Tracks (u1 : ByteReader ε UInt8) := by
  have hu1 (c : Cur) : (u1 (ε := ε) c).2 = c ∨ ∃ b rest, c.rest = b :: rest ∧
      (u1 (ε := ε) c).2 = ⟨rest, c.pos + 1, c.log ++ List.range' c.pos 1⟩ := by
    rcases c with ⟨_ | ⟨b, rest⟩, pos, log⟩
    · exact .inl rfl
    · exact .inr ⟨b, rest, rfl, rfl⟩
  refine ⟨fun c hc => ?_, fun c => ?_, fun c => ?_⟩
  all_goals obtain h | ⟨b, rest, hrest, h⟩ := hu1 c
  · rwa [h]
  · rw [h]
    exact hc.push rest 1
  · rw [h]
  · rw [h, hrest, List.length_cons]
    dsimp only
    omega
  · rw [h]
  · rw [h, hrest, List.length_cons]
    exact Nat.le_succ _

theorem tracks_u2 : Tracks (u2 : ByteReader ε ℕ) :=
  tracks_u1.bind fun _ => tracks_u1.bind fun _ => tracks_pure _

theorem tracks_u4 : Tracks (u4 : ByteReader ε ℕ) :=
  tracks_u2.bind fun _ => tracks_u2.bind fun _ => tracks_pure _

theorem tracks_skip : Tracks (skip n : ByteReader ε Unit) := by
  have hskip (c : Cur) : (skip (ε := ε) n c).2 = c ∨ n ≤ c.rest.length ∧
      (skip (ε := ε) n c).2 = ⟨c.rest.drop n, c.pos + n, c.log⟩ := by
    by_cases h : n ≤ c.rest.length
    · exact .inr ⟨h, by rw [skip, if_pos h]⟩
    · exact .inl (by rw [skip, if_neg h])
  refine ⟨fun c hc => ?_, fun c => ?_, fun c => ?_⟩
  all_goals obtain h | ⟨hn, h⟩ := hskip c
  · rwa [h]
  · rw [h]
    exact ⟨hc.increasing, fun p hp => (hc.below p hp).trans_le (Nat.le_add_right _ _)⟩
  · rw [h]
  · rw [h]
    dsimp only
    rw [List.length_drop]
    omega
  · rw [h]
  · rw [h, List.length_drop]
    exact Nat.sub_le _ _

/-- What is read within the next bytes is read before what comes after them. -/
theorem Tracks.within (hm : Tracks m) : Tracks (within n m) := by
  have hwithin (c : Cur) : (ByteReader.within n m c).2 = c ∨ n ≤ c.rest.length ∧
      (ByteReader.within n m c).2 =
        ⟨c.rest.drop n, c.pos + n, (m ⟨c.rest.take n, c.pos, c.log⟩).2.log⟩ := by
    by_cases h : n ≤ c.rest.length
    · exact .inr ⟨h, by rw [ByteReader.within, if_pos h]⟩
    · exact .inl (by rw [ByteReader.within, if_neg h])
  refine ⟨fun c hc => ?_, fun c => ?_, fun c => ?_⟩
  all_goals obtain h | ⟨hn, h⟩ := hwithin c
  · rwa [h]
  · have hsound := hm.sound ⟨c.rest.take n, c.pos, c.log⟩ ⟨hc.increasing, hc.below⟩
    have htotal := hm.total ⟨c.rest.take n, c.pos, c.log⟩
    rw [List.length_take] at htotal
    rw [h]
    refine ⟨hsound.increasing, fun p hp => ?_⟩
    have := hsound.below p hp
    dsimp only at htotal ⊢
    omega
  · rw [h]
  · rw [h]
    dsimp only
    rw [List.length_drop]
    omega
  · rw [h]
  · rw [h, List.length_drop]
    exact Nat.sub_le _ _

theorem tracks_bytes : Tracks (bytes n : ByteReader ε (List UInt8)) := by
  refine Tracks.within ⟨fun c hc => ?_, fun c => ?_, fun c => Nat.zero_le _⟩
  · exact hc.push [] c.rest.length
  · rfl

theorem Tracks.times (hm : Tracks m) : Tracks (times n m) := by
  induction n with
  | zero => exact tracks_pure []
  | succ n ih => exact hm.bind fun a => ih.bind fun l => tracks_pure (a :: l)

theorem attempt_snd (c : Cur) : (attempt m c).2 = (m c).2 := by
  rw [attempt]
  rcases m c with ⟨(_ | e) | a, c₁⟩ <;> rfl

theorem Tracks.attempt (hm : Tracks m) : Tracks (attempt m) :=
  ⟨fun c hc => attempt_snd (m := m) c ▸ hm.sound c hc, fun c => attempt_snd (m := m) c ▸ hm.total c,
    fun c => attempt_snd (m := m) c ▸ hm.shrinks c⟩

theorem tracks_ofExcept (x : Except ε α) : Tracks (ofExcept x) := by
  rcases x with e | a
  · exact tracks_fault e
  · exact tracks_pure a

theorem Tracks.ite {p : Prop} [Decidable p] {m' : ByteReader ε α} (hm : Tracks m)
    (hm' : Tracks m') : Tracks (if p then m else m') := by
  by_cases h : p
  · rwa [if_pos h]
  · rwa [if_neg h]

/-! ## Without a fault -/

theorem calm_pure (a : α) : Calm n (pure a : ByteReader ε α) := fun _ _ _ h => nomatch h

theorem calm_fail : Calm n (fail : ByteReader ε α) := fun _ _ _ h => nomatch h

theorem Calm.bind (hm : Calm n m) (ht : Tracks m) (hf : ∀ a, Calm n (f a)) :
    Calm n (m >>= f) := by
  intro c e hc
  obtain ⟨e', c₁, hm', he⟩ | ⟨a, c₁, hm', he⟩ := bind_cases m f c
  · have := hm c e hc
    rw [hm'] at this
    rw [he]
    exact fun h => this (congrArg Except.error (Except.error.inj h))
  · rw [he]
    refine hf a c₁ e (lt_of_le_of_lt ?_ hc)
    have := ht.shrinks c
    rwa [hm'] at this

theorem calm_u1 : Calm n (u1 : ByteReader ε UInt8) := by
  intro c e _
  rcases c with ⟨_ | ⟨b, rest⟩, pos, log⟩ <;> exact nofun

/-- After a byte there are fewer. -/
theorem Calm.u1_bind {f : UInt8 → ByteReader ε β} (hf : ∀ b, Calm n (f b)) :
    Calm (n + 1) (u1 >>= f) := by
  intro c e hc
  rcases c with ⟨_ | ⟨b, rest⟩, pos, log⟩
  · exact nofun
  · exact hf b _ e (Nat.lt_of_succ_lt_succ hc)

theorem calm_u2 : Calm n (u2 : ByteReader ε ℕ) :=
  calm_u1.bind tracks_u1 fun _ => calm_u1.bind tracks_u1 fun _ => calm_pure _

theorem calm_u4 : Calm n (u4 : ByteReader ε ℕ) :=
  calm_u2.bind tracks_u2 fun _ => calm_u2.bind tracks_u2 fun _ => calm_pure _

theorem calm_skip : Calm n (skip k : ByteReader ε Unit) := by
  intro c e _
  rw [skip]
  by_cases h : k ≤ c.rest.length
  · rw [if_pos h]
    exact nofun
  · rw [if_neg h]
    exact nofun

theorem Calm.within (hm : Calm (k + 1) m) : Calm n (within k m) := by
  intro c e _
  rw [ByteReader.within]
  by_cases h : k ≤ c.rest.length
  · rw [if_pos h]
    refine hm ⟨c.rest.take k, c.pos, c.log⟩ e (Nat.lt_succ_of_le ?_)
    exact List.length_take_le _ _
  · rw [if_neg h]
    exact nofun

theorem calm_bytes : Calm n (bytes k : ByteReader ε (List UInt8)) :=
  Calm.within fun _ _ _ => nofun

theorem Calm.times (hm : Calm n m) (ht : Tracks m) : Calm n (times k m) := by
  induction k with
  | zero => exact calm_pure []
  | succ k ih => exact hm.bind ht fun a => ih.bind ht.times fun l => calm_pure (a :: l)

theorem Calm.attempt (hm : Calm n m) : Calm n (attempt m) := by
  intro c e hc
  have h := hm c e hc
  rw [ByteReader.attempt]
  rcases hm : m c with ⟨(_ | e') | a, c₁⟩
  all_goals rw [hm] at h
  · exact nofun
  · exact fun he => h (congrArg Except.error (Except.error.inj he))
  · exact nofun

theorem Calm.ite {p : Prop} [Decidable p] {m' : ByteReader ε α} (hm : Calm n m) (hm' : Calm n m') :
    Calm n (if p then m else m') := by
  by_cases h : p
  · rwa [if_pos h]
  · rwa [if_neg h]

theorem calm_ofExcept_ok (a : α) : Calm n (ofExcept (.ok a) : ByteReader ε α) := calm_pure a

end Rules

/-! ## What is read -/

/-- What is read of these bytes, whatever follows them. -/
def Yields (m : ByteReader ε α) (enc : List UInt8) (a : α) : Prop :=
  ∀ rest pos log, ∃ log', m ⟨enc ++ rest, pos, log⟩ = (.ok a, ⟨rest, pos + enc.length, log'⟩)

section Yields

variable {m : ByteReader ε α} {f : α → ByteReader ε β} {enc enc' : List UInt8} {a : α} {b : β}
  {n : ℕ}

theorem yields_pure (a : α) : Yields (pure a : ByteReader ε α) [] a :=
  fun _ _ log => ⟨log, rfl⟩

theorem Yields.bind (hm : Yields m enc a) (hf : Yields (f a) enc' b) :
    Yields (m >>= f) (enc ++ enc') b := by
  intro rest pos log
  obtain ⟨log₁, h₁⟩ := hm (enc' ++ rest) pos log
  obtain ⟨log₂, h₂⟩ := hf rest (pos + enc.length) log₁
  refine ⟨log₂, ?_⟩
  rw [List.append_assoc, bind_of_ok h₁, h₂, List.length_append, Nat.add_assoc]

/-- What comes after a reader does not read more. -/
theorem Yields.map (hm : Yields m enc a) (g : α → β) :
    Yields (do let a ← m; pure (g a)) enc (g a) := by
  have h := hm.bind (f := fun a => (pure (g a) : ByteReader ε β)) (yields_pure (g a))
  rwa [List.append_nil] at h

theorem yields_u1 (x : UInt8) : Yields (u1 : ByteReader ε UInt8) [x] x :=
  fun _ pos log => ⟨log ++ [pos], rfl⟩

theorem yields_u2 (h : n < 2 ^ 16) : Yields (u2 : ByteReader ε ℕ) (beBytes 2 n) n := by
  have hvalue : 256 * (UInt8.ofNat (n / 256 ^ 1)).toNat +
      (UInt8.ofNat (n % 256 ^ 1 / 256 ^ 0)).toNat = n := by
    simp only [UInt8.toNat_ofNat']
    omega
  have h := (yields_u1 (ε := ε) (UInt8.ofNat (n / 256 ^ 1))).bind
    (f := fun hi => do let lo ← u1; pure (256 * hi.toNat + lo.toNat))
    ((yields_u1 (UInt8.ofNat (n % 256 ^ 1 / 256 ^ 0))).map fun lo => _)
  rwa [hvalue] at h

/-- A number of four bytes is two numbers of two. -/
theorem beBytes_four (n : ℕ) : beBytes 4 n = beBytes 2 (n / 65536) ++ beBytes 2 (n % 65536) := by
  have h1 : n / 256 ^ 3 = n / 65536 / 256 ^ 1 := by omega
  have h2 : n % 256 ^ 3 / 256 ^ 2 = n / 65536 % 256 ^ 1 / 256 ^ 0 := by omega
  have h3 : n % 256 ^ 3 % 256 ^ 2 / 256 ^ 1 = n % 65536 / 256 ^ 1 := by omega
  have h4 : n % 256 ^ 3 % 256 ^ 2 % 256 ^ 1 / 256 ^ 0 = n % 65536 % 256 ^ 1 / 256 ^ 0 := by omega
  simp only [beBytes, List.cons_append, List.nil_append, h1, h2, h3, h4]

theorem yields_u4 (h : n < 2 ^ 32) : Yields (u4 : ByteReader ε ℕ) (beBytes 4 n) n := by
  have h' := (yields_u2 (ε := ε) (n := n / 65536) (by omega)).bind
    (f := fun hi => do let lo ← u2; pure (65536 * hi + lo))
    ((yields_u2 (n := n % 65536) (by omega)).map fun lo => 65536 * (n / 65536) + lo)
  rwa [← beBytes_four, Nat.div_add_mod] at h'

/-- A reader that finds what it can read has tried with success. -/
theorem Yields.attempt (hm : Yields m enc a) : Yields (attempt m) enc (some a) := by
  intro rest pos log
  obtain ⟨log', h⟩ := hm rest pos log
  exact ⟨log', by rw [ByteReader.attempt, h]⟩

theorem attempt_of_error {c c' : Cur} (h : m c = (.error none, c')) :
    attempt m c = (.ok none, c') := by
  rw [ByteReader.attempt, h]

theorem yields_skip (enc : List UInt8) :
    Yields (skip enc.length : ByteReader ε Unit) enc () := by
  intro rest pos log
  refine ⟨log, ?_⟩
  rw [skip, List.length_append, if_pos (Nat.le_add_right _ _), List.drop_left]

/-- What a reader makes of the next bytes if it has no others. -/
theorem yields_within (h : ∀ pos log, ∃ c, m ⟨enc, pos, log⟩ = (.ok a, c)) :
    Yields (within enc.length m) enc a := by
  intro rest pos log
  obtain ⟨c, hc⟩ := h pos log
  refine ⟨c.log, ?_⟩
  rw [within, List.length_append, if_pos (Nat.le_add_right _ _), List.take_left, List.drop_left, hc]

theorem yields_bytes (enc : List UInt8) :
    Yields (bytes enc.length : ByteReader ε (List UInt8)) enc enc :=
  yields_within fun _ _ => ⟨_, rfl⟩

/-- The same reader for all that is written one after the other. -/
theorem yields_times {γ : Type} {l : List γ} {write : γ → List UInt8} {value : γ → α}
    (h : ∀ x ∈ l, Yields m (write x) (value x)) :
    Yields (times l.length m) (l.flatMap write) (l.map value) := by
  induction l with
  | nil => exact yields_pure []
  | cons x l ih =>
    obtain ⟨hx, hl⟩ := List.forall_mem_cons.1 h
    exact hx.bind ((ih hl).map fun l => value x :: l)

end Yields

/-! ## What was read -/

/-- What a reader ends with it has made of the bytes up to where it is then. -/
def Eats (m : ByteReader ε α) (P : List UInt8 → α → Prop) : Prop :=
  ∀ c a c', m c = (.ok a, c') → ∃ enc, c.rest = enc ++ c'.rest ∧ P enc a

section Eats

variable {m : ByteReader ε α} {f : α → ByteReader ε β} {P : List UInt8 → α → Prop}
  {Q : List UInt8 → β → Prop} {n : ℕ}

theorem eats_pure {a : α} (h : P [] a) : Eats (pure a : ByteReader ε α) P := by
  intro c b c' hc
  obtain ⟨hb, rfl⟩ := Prod.mk.inj hc
  exact ⟨[], rfl, by rw [← Except.ok.inj hb]; exact h⟩

theorem eats_fail : Eats (fail : ByteReader ε α) P := fun _ _ _ h => nomatch h

/-- What comes after a reader has read these bytes makes something of them and of its own. -/
theorem Eats.bind (hm : Eats m P) (hf : ∀ e a, P e a → Eats (f a) fun enc b => Q (e ++ enc) b) :
    Eats (m >>= f) Q := by
  intro c b c' h
  obtain ⟨a, c₁, h₁, h₂⟩ := bind_eq_ok h
  obtain ⟨e₁, he₁, hp⟩ := hm _ _ _ h₁
  obtain ⟨e₂, he₂, hq⟩ := hf e₁ a hp _ _ _ h₂
  exact ⟨e₁ ++ e₂, by rw [he₁, he₂, List.append_assoc], hq⟩

theorem Eats.mono {P' : List UInt8 → α → Prop} (hm : Eats m P) (h : ∀ enc a, P enc a → P' enc a) :
    Eats m P' := by
  intro c a c' hc
  obtain ⟨enc, henc, hp⟩ := hm c a c' hc
  exact ⟨enc, henc, h enc a hp⟩

theorem eats_ite {p : Prop} [Decidable p] {m' : ByteReader ε α} (hm : p → Eats m P)
    (hm' : ¬ p → Eats m' P) : Eats (if p then m else m') P := by
  by_cases h : p
  · rw [if_pos h]
    exact hm h
  · rw [if_neg h]
    exact hm' h

theorem eats_u1 : Eats (u1 : ByteReader ε UInt8) fun enc b => enc = [b] := by
  intro c b c' h
  rcases c with ⟨_ | ⟨x, rest⟩, pos, log⟩
  · exact nomatch h
  · obtain ⟨hb, rfl⟩ := Prod.mk.inj h
    exact ⟨[x], rfl, by rw [Except.ok.inj hb]⟩

theorem eats_u2 : Eats (u2 : ByteReader ε ℕ) fun enc n => n < 2 ^ 16 ∧ enc = beBytes 2 n := by
  refine eats_u1.bind fun _ hi hhi => eats_u1.bind fun _ lo hlo => eats_pure ?_
  have hlt := hi.toNat_lt
  have hlt' := lo.toNat_lt
  have hdiv : (256 * hi.toNat + lo.toNat) / 256 ^ 1 = hi.toNat := by omega
  have hmod : (256 * hi.toNat + lo.toNat) % 256 ^ 1 / 256 ^ 0 = lo.toNat := by omega
  refine ⟨by omega, ?_⟩
  rw [hhi, hlo, beBytes, beBytes, beBytes, hdiv, hmod, UInt8.ofNat_toNat, UInt8.ofNat_toNat]
  rfl

theorem eats_u4 : Eats (u4 : ByteReader ε ℕ) fun enc n => n < 2 ^ 32 ∧ enc = beBytes 4 n := by
  refine eats_u2.bind fun _ hi hhi => eats_u2.bind fun _ lo hlo => eats_pure ?_
  obtain ⟨hlt, rfl⟩ := hhi
  obtain ⟨hlt', rfl⟩ := hlo
  have hdiv : (65536 * hi + lo) / 65536 = hi := by omega
  have hmod : (65536 * hi + lo) % 65536 = lo := by omega
  exact ⟨by omega, by rw [beBytes_four, hdiv, hmod, List.append_nil]⟩

theorem eats_bytes : Eats (bytes n : ByteReader ε (List UInt8)) fun enc raw =>
    enc = raw ∧ raw.length = n := by
  intro c raw c' h
  rw [bytes, within] at h
  by_cases hn : n ≤ c.rest.length
  · rw [if_pos hn] at h
    obtain ⟨hraw, rfl⟩ := Prod.mk.inj h
    refine ⟨c.rest.take n, (List.take_append_drop n c.rest).symm, ?_, ?_⟩
    · exact Except.ok.inj hraw
    · rw [← Except.ok.inj hraw]
      exact List.length_take_of_le hn
  · rw [if_neg hn] at h
    exact nomatch h

/-- What was read one after the other was written one after the other. -/
theorem eats_times {γ : Type} {write : γ → List UInt8} {value : γ → α} {good : γ → Prop}
    (hm : Eats m fun enc a => ∃ x, good x ∧ enc = write x ∧ a = value x) :
    Eats (times n m) fun enc l => ∃ xs : List γ, xs.length = n ∧ (∀ x ∈ xs, good x) ∧
      enc = xs.flatMap write ∧ l = xs.map value := by
  induction n with
  | zero => exact eats_pure ⟨[], rfl, fun _ h => absurd h List.not_mem_nil, rfl, rfl⟩
  | succ n ih =>
    refine hm.bind fun e a h => ih.bind fun e' l h' => eats_pure ?_
    obtain ⟨x, hx, rfl, rfl⟩ := h
    obtain ⟨xs, rfl, hxs, rfl, rfl⟩ := h'
    exact ⟨x :: xs, rfl, List.forall_mem_cons.2 ⟨hx, hxs⟩, by rw [List.append_nil]; rfl, rfl⟩

end Eats

/-! ## Where a fault is -/

/-- A reader reads what was written so, and nothing else. -/
structure Exact {γ : Type} (m : ByteReader ε α) (good : γ → Prop) (write : γ → List UInt8)
    (value : γ → α) : Prop where
  yields : ∀ x, good x → Yields m (write x) (value x)
  eats : Eats m fun enc a => ∃ x, good x ∧ enc = write x ∧ a = value x

/-- A reader has this fault at bytes that are so, and at no others. -/
def Faults (m : ByteReader ε α) (e : ε) (bad : List UInt8 → Prop) : Prop :=
  ∀ c, (m c).1 = .error (some e) ↔ bad c.rest

section Faults

variable {m : ByteReader ε α} {f : α → ByteReader ε β} {e : ε} {bad : List UInt8 → Prop}

theorem exact_u2 : Exact (u2 : ByteReader ε ℕ) (· < 2 ^ 16) (beBytes 2) fun n => n :=
  ⟨fun _ h => yields_u2 h, eats_u2.mono fun _ n h => ⟨n, h.1, h.2, rfl⟩⟩

theorem exact_u4 : Exact (u4 : ByteReader ε ℕ) (· < 2 ^ 32) (beBytes 4) fun n => n :=
  ⟨fun _ h => yields_u4 h, eats_u4.mono fun _ n h => ⟨n, h.1, h.2, rfl⟩⟩

theorem faults_of_calm (h : ∀ n, Calm n m) : Faults m e fun _ => False :=
  fun c => iff_of_false (h (c.rest.length + 1) c e (Nat.lt_succ_self _)) id

theorem faults_fault (e' : ε) : Faults (fault e' : ByteReader ε α) e fun _ => e = e' :=
  fun c => ⟨fun h => (Option.some.inj (Except.error.inj h)).symm, fun h => by rw [h]; rfl⟩

theorem Faults.congr {bad' : List UInt8 → Prop} (h : Faults m e bad)
    (hbad : ∀ rest, bad rest ↔ bad' rest) : Faults m e bad' :=
  fun c => (h c).trans (hbad c.rest)

/-- After a reader that reads what was written so, a fault is where it is after that. -/
theorem Faults.bind {γ : Type} {good : γ → Prop} {write : γ → List UInt8} {value : γ → α}
    {bad : γ → List UInt8 → Prop} (hm : Exact m good write value) (hcalm : ∀ n, Calm n m)
    (hf : ∀ x, good x → Faults (f (value x)) e (bad x)) :
    Faults (m >>= f) e fun rest => ∃ x post, good x ∧ rest = write x ++ post ∧ bad x post := by
  intro c
  refine ⟨fun h => ?_, fun ⟨x, post, hx, hrest, hbad⟩ => ?_⟩
  · obtain ⟨e', c₁, hread, he⟩ | ⟨a, c₁, hread, he⟩ := bind_cases m f c
    · rw [he] at h
      have hno := hcalm (c.rest.length + 1) c e (Nat.lt_succ_self _)
      rw [hread] at hno
      exact absurd (congrArg Except.error (Except.error.inj h)) hno
    · obtain ⟨_, hrest, x, hx, rfl, rfl⟩ := hm.eats _ _ _ hread
      rw [he] at h
      exact ⟨x, c₁.rest, hx, hrest, (hf x hx c₁).1 h⟩
  · obtain ⟨log, hread⟩ := hm.yields x hx post c.pos c.log
    rw [← hrest] at hread
    rw [bind_of_ok (c := c) hread]
    exact (hf x hx _).2 hbad

/-- What comes after without a fault adds none. -/
theorem Faults.bind_calm (hm : Faults m e bad) (hf : ∀ a n, Calm n (f a)) :
    Faults (m >>= f) e bad := by
  intro c
  have hbad := hm c
  obtain ⟨e', c₁, hread, he⟩ | ⟨a, c₁, hread, he⟩ := bind_cases m f c
  all_goals rw [hread] at hbad
  · rw [he, ← hbad]
    exact ⟨fun h => congrArg Except.error (Except.error.inj h),
      fun h => congrArg Except.error (Except.error.inj h)⟩
  · rw [he, ← hbad]
    exact iff_of_false (hf a (c₁.rest.length + 1) c₁ e (Nat.lt_succ_self _)) nofun

theorem Faults.ite {p : Prop} [Decidable p] {m' : ByteReader ε α} (hm : Faults m e bad)
    (hm' : ∀ n, Calm n m') : Faults (if p then m else m') e fun rest => p ∧ bad rest := by
  by_cases h : p
  · rw [if_pos h]
    exact hm.congr fun _ => (and_iff_right h).symm
  · rw [if_neg h]
    exact (faults_of_calm hm').congr fun _ => iff_of_false id fun h' => h h'.1

end Faults

end ByteReader

end Smrt
