import Mathlib.Tactic.NormNum
import Smrt.Authoring.Bootstrap
import Smrt.Lib.System

/-!
# A jar on another server

Of a jar that the mirror does not have, ranges can be fetched. The reader of archives gets a view of
it that it can read and seek in (`Windowed`), which holds the block that was fetched last. What it
should be is a cursor over the bytes (`Cursor`), but for the number of the bytes that are read at
once.

* `Holds`: the block is what the file has there, which all operations preserve;
* `step_same`: of one operation, that the view and a cursor at the same place do the same (`Same`);
* `windowed_same`: so they do after any operations.
-/

namespace Smrt

namespace RemoteZip

open Bootstrap (Bytes)

/-! ## The view -/

/-- How many bytes are fetched at a time. -/
def block : ℕ := 256 * 1024

/-- Where a file can be fetched from by ranges: how long it is, and what each call is answered. -/
structure RangeSource where
  len : ℕ
  fetch : (call start len : ℕ) → Except String Bytes

/-- Where a seek goes: to a place, from the end, or from where one is. -/
inductive SeekFrom
  | start (n : ℕ)
  | ending (n : ℤ)
  | current (n : ℤ)

inductive Op
  | read (n : ℕ)
  | seek (target : SeekFrom)

/-- What an operation answers. A panic is what a program must not do. -/
inductive Answer
  | bytes (b : Bytes)
  | position (pos : ℕ)
  | invalid
  | failed (reason : String)
  | panic
  deriving DecidableEq

structure Windowed where
  pos : ℕ
  /-- Where the block begins that was fetched last. -/
  start : ℕ
  bytes : Bytes
  /-- How many times the source was called. -/
  calls : ℕ

namespace Windowed

def new : Windowed := ⟨0, 0, [], 0⟩

def cached (w : Windowed) (pos : ℕ) : Bool := w.start ≤ pos ∧ pos < w.start + w.bytes.length

/-- An unsigned number as a signed one. -/
def asI64 (n : ℕ) : ℤ := Int.bmod n (2 ^ 64)

/-- The sum, if it does not overflow. -/
def addI64 (a b : ℤ) : Option ℤ :=
  if -2 ^ 63 ≤ a + b ∧ a + b < 2 ^ 63 then some (a + b) else none

section Ops

variable (src : RangeSource) (w : Windowed)

def load (pos : ℕ) : Windowed × Except String Unit :=
  match src.fetch w.calls pos (min block (src.len - pos)) with
  | .error why => ({ w with calls := w.calls + 1 }, .error why)
  | .ok [] =>
    ({ w with calls := w.calls + 1 },
      .error ("range request at " ++ toString pos ++ " came back empty"))
  | .ok bytes => ({ w with start := pos, bytes, calls := w.calls + 1 }, .ok ())

/-- The bytes of the block from the position on, so many at most. -/
def take (n : ℕ) : Windowed × Answer :=
  if w.start ≤ w.pos ∧ w.pos - w.start ≤ w.bytes.length then
    let b := (w.bytes.drop (w.pos - w.start)).take n
    ({ w with pos := w.pos + b.length }, .bytes b)
  else (w, .panic)

def read (n : ℕ) : Windowed × Answer :=
  if n = 0 ∨ src.len ≤ w.pos then (w, .bytes [])
  else if w.cached w.pos then w.take n
  else
    match load src w w.pos with
    | (w, .error why) => (w, .failed why)
    | (w, .ok ()) => w.take n

/-- The place a seek is to, if no sum overflows. -/
def place : SeekFrom → Option ℤ
  | .start n => some (asI64 n)
  | .ending n => addI64 (asI64 src.len) n
  | .current n => addI64 (asI64 w.pos) n

def seek (target : SeekFrom) : Windowed × Answer :=
  match place src w target with
  | none => (w, .panic)
  | some pos =>
    if pos < 0 then (w, .invalid) else ({ w with pos := pos.toNat }, .position pos.toNat)

def step : Op → Windowed × Answer
  | .read n => read src w n
  | .seek target => seek src w target

end Ops

end Windowed

/-! ## What it should be -/

/-- A cursor over bytes. -/
structure Cursor where
  pos : ℕ

namespace Cursor

variable (file : Bytes) (c : Cursor)

/-- A sum that is no address is none. -/
def addSigned (base : ℕ) (n : ℤ) : Option ℕ :=
  if 0 ≤ base + n ∧ base + n < 2 ^ 64 then some (base + n).toNat else none

def place : SeekFrom → Option ℕ
  | .start n => some n
  | .ending n => addSigned file.length n
  | .current n => addSigned c.pos n

def step : Op → Cursor × Answer
  | .read n => (⟨c.pos + ((file.drop c.pos).take n).length⟩, .bytes ((file.drop c.pos).take n))
  | .seek target =>
    match c.place file target with
    | none => (c, .invalid)
    | some pos => (⟨pos⟩, .position pos)

end Cursor

/-- The operation with the number of the bytes that were read. -/
def taken : Op → Answer → Op
  | .read _, .bytes b => .read b.length
  | .read _, _ => .read 0
  | op, _ => op

/-- The source has the file: it is as long, and what is fetched is what was asked for, up to where
    the file ends. -/
structure Serves (src : RangeSource) (file : Bytes) : Prop where
  len : src.len = file.length
  fetch : ∀ call start n b, src.fetch call start n = .ok b → b = (file.drop start).take n
  -- A vector of bytes is no longer.
  small : file.length < 2 ^ 63

/-- A seek goes to where a signed number can say. -/
def Fits (file : Bytes) (pos : ℕ) : Op → Prop
  | .read _ => True
  | .seek (.start n) => n < 2 ^ 63
  | .seek (.ending n) => -2 ^ 63 ≤ file.length + n ∧ file.length + n < 2 ^ 63
  | .seek (.current n) => -2 ^ 63 ≤ pos + n ∧ pos + n < 2 ^ 63

/-- An operation does to the view what it does to the cursor: they are in the same place then, and
    have answered the same, unless a fetch has failed, which moves nothing. As many bytes are read
    as there is room for at most, and one at least before the end. -/
structure Same (src : RangeSource) (file : Bytes) (w : Windowed) (c : Cursor) (op : Op) : Prop where
  position : (w.step src op).1.pos = (c.step file (taken op (w.step src op).2)).1.pos
  answer : (w.step src op).2 = (c.step file (taken op (w.step src op).2)).2 ∨
    ∃ n why, op = .read n ∧ (w.step src op).2 = .failed why ∧ (w.step src op).1.pos = w.pos ∧
      ∃ call start len, src.fetch call start len = .error why
  room : ∀ n b, op = .read n → (w.step src op).2 = .bytes b → b.length ≤ n
  progress : ∀ n, op = .read n → 0 < n → w.pos < file.length → (w.step src op).2 ≠ .bytes []

/-- The view and a cursor, which does as the view does. -/
def lockstep (src : RangeSource) (file : Bytes) : System (Windowed × Cursor) Op where
  init s := s = (.new, ⟨0⟩)
  step s op := some ((s.1.step src op).1, (s.2.step file (taken op (s.1.step src op).2)).1)

/-! ## That it is -/

/-- The block is what the file has there, and the view is where the cursor is, which is where a
    signed number can say. -/
structure Holds (file : Bytes) (w : Windowed) (c : Cursor) : Prop where
  block : w.bytes <+: file.drop w.start
  pos : w.pos = c.pos
  small : w.pos < 2 ^ 63

section Facts

variable {src : RangeSource} {file : Bytes} {w : Windowed} {c : Cursor} {op : Op} {n : ℕ}

theorem asI64_of_lt (h : n < 2 ^ 63) : Windowed.asI64 n = n := by
  have hn : (n : ℤ) < 2 ^ 63 := by exact_mod_cast h
  exact Int.bmod_eq_of_le (by omega) (by norm_num; omega)

theorem addI64_of_fits {a b : ℤ} (h : -2 ^ 63 ≤ a + b ∧ a + b < 2 ^ 63) :
    Windowed.addI64 a b = some (a + b) := by
  rw [Windowed.addI64, if_pos h]

/-- What is taken of the block is what the cursor reads. -/
theorem take_same (hblock : w.bytes <+: file.drop w.start) (hc : w.cached w.pos = true)
    (hn : 0 < n) : ∃ b, w.take n = ({ w with pos := w.pos + b.length }, .bytes b) ∧
      b = (file.drop w.pos).take b.length ∧ b.length ≤ n ∧ b ≠ [] := by
  obtain ⟨hstart, hend⟩ := of_decide_eq_true hc
  refine ⟨(w.bytes.drop (w.pos - w.start)).take n, ?_, ?_, List.length_take_le _ _, ?_⟩
  · rw [Windowed.take, if_pos ⟨hstart, by omega⟩]
  · have hdrop : (file.drop w.start).drop (w.pos - w.start) = file.drop w.pos := by
      rw [List.drop_drop, Nat.add_sub_cancel' hstart]
    refine List.prefix_iff_eq_take.1 ?_
    rw [← hdrop]
    exact (List.take_prefix _ _).trans (hblock.drop _)
  · refine List.ne_nil_of_length_pos ?_
    rw [List.length_take, List.length_drop]
    omega

/-- A load fails as the source does, and only then: before the end of the file what comes back is
    not empty. -/
theorem load_cases (hs : Serves src file) (hpos : w.pos < file.length) :
    (∃ why, Windowed.load src w w.pos = ({ w with calls := w.calls + 1 }, .error why) ∧
      ∃ call start len, src.fetch call start len = .error why) ∨
    ∃ b, Windowed.load src w w.pos =
        ({ w with start := w.pos, bytes := b, calls := w.calls + 1 }, .ok ()) ∧
      b <+: file.drop w.pos ∧ b ≠ [] := by
  rw [Windowed.load]
  rcases hf : src.fetch w.calls w.pos (min block (src.len - w.pos)) with why | b
  · exact .inl ⟨why, rfl, _, _, _, hf⟩
  · have hb := hs.fetch _ _ _ _ hf
    have hne : b ≠ [] := by
      refine List.ne_nil_of_length_pos ?_
      rw [hb, List.length_take, List.length_drop, hs.len]
      exact lt_min (lt_min (by decide) (by omega)) (by omega)
    refine .inr ⟨b, ?_, hb ▸ List.take_prefix _ _, hne⟩
    rcases b with _ | ⟨x, b⟩
    · exact absurd rfl hne
    · rfl

/-- A read answers what the file has at the position, or fails as the source does. -/
theorem read_cases (hs : Serves src file) (h : Holds file w c) :
    (∃ w' b, w.read src n = (w', .bytes b) ∧ w'.pos = w.pos + b.length ∧
      w'.bytes <+: file.drop w'.start ∧ b = (file.drop w.pos).take b.length ∧ b.length ≤ n ∧
      (0 < n → w.pos < file.length → b ≠ [])) ∨
    ∃ w' why, w.read src n = (w', .failed why) ∧ w'.pos = w.pos ∧
      w'.bytes <+: file.drop w'.start ∧
      ∃ call start len, src.fetch call start len = .error why := by
  rw [Windowed.read, hs.len]
  by_cases hnone : n = 0 ∨ file.length ≤ w.pos
  · rw [if_pos hnone]
    exact .inl ⟨w, [], rfl, rfl, h.block, rfl, n.zero_le, by omega⟩
  rw [if_neg hnone]
  have hn : 0 < n := by omega
  by_cases hc : w.cached w.pos = true
  · -- Of the block that is held.
    rw [if_pos hc]
    obtain ⟨b, htake, hb, hlen, hne⟩ := take_same h.block hc hn
    exact .inl ⟨_, b, htake, rfl, h.block, hb, hlen, fun _ _ => hne⟩
  rw [if_neg hc]
  obtain ⟨why, hload, hfail⟩ | ⟨bytes, hload, hpre, hne⟩ := load_cases hs (w := w) (by omega)
  · rw [hload]
    exact .inr ⟨_, why, rfl, rfl, h.block, hfail⟩
  · -- Of the block that is fetched, which begins at the position.
    rw [hload]
    have hc' : (Windowed.mk w.pos w.pos bytes (w.calls + 1)).cached w.pos = true :=
      decide_eq_true ⟨le_rfl, Nat.lt_add_of_pos_right (List.length_pos_of_ne_nil hne)⟩
    obtain ⟨b, htake, hb, hlen, hbne⟩ := take_same hpre hc' hn
    exact .inl ⟨_, b, htake, rfl, hpre, hb, hlen, fun _ _ => hbne⟩

/-- What is read does not pass the end of the file, unless the position did. -/
theorem small_of_read (hs : Serves src file) (hpos : w.pos < 2 ^ 63) {b : Bytes}
    (hb : b = (file.drop w.pos).take b.length) : w.pos + b.length < 2 ^ 63 := by
  have hlen := congrArg List.length hb
  have hsmall := hs.small
  rw [List.length_take, List.length_drop] at hlen
  omega

theorem read_same (hs : Serves src file) (h : Holds file w c) :
    Same src file w c (.read n) ∧ Holds file (w.step src (.read n)).1
      (c.step file (taken (.read n) (w.step src (.read n)).2)).1 := by
  have hstep : w.step src (.read n) = w.read src n := rfl
  obtain ⟨w', b, hr, hpos, hblock, hb, hlen, hne⟩ | ⟨w', why, hr, hpos, hblock, hfail⟩ :=
    read_cases (n := n) hs h
  · have hcur : c.step file (.read b.length) = (⟨w'.pos⟩, .bytes b) := by
      rw [Cursor.step, ← h.pos, ← hb, hpos]
    refine ⟨⟨?_, .inl ?_, ?_, ?_⟩, ?_⟩ <;> rw [hstep, hr] <;> dsimp only [taken]
    · rw [hcur]
    · rw [hcur]
    · intro m b' hm hb'
      injection hm with hm
      injection hb' with hb'
      rw [← hb', ← hm]
      exact hlen
    · intro m hm hm0 hlt
      injection hm with hm
      intro hb'
      injection hb' with hb'
      exact hne (hm ▸ hm0) hlt hb'
    · rw [hcur]
      exact ⟨hblock, rfl, hpos ▸ small_of_read hs h.small hb⟩
  · have hcur : c.step file (.read 0) = (⟨w'.pos⟩, .bytes []) := by
      rw [Cursor.step, List.take_zero, hpos, h.pos]
      rfl
    refine ⟨⟨?_, .inr ⟨n, why, rfl, ?_⟩, ?_, ?_⟩, ?_⟩ <;> rw [hstep, hr] <;> dsimp only [taken]
    · rw [hcur]
    · exact ⟨rfl, hpos, hfail⟩
    · intro m b' _ hb'
      exact nomatch hb'
    · intro m _ _ _ hb'
      exact nomatch hb'
    · rw [hcur]
      exact ⟨hblock, rfl, hpos ▸ h.small⟩

/-- The sum is an address to both, or before the start of the file to both. -/
theorem place_sum {base : ℕ} {k : ℤ} (hbase : base < 2 ^ 63)
    (h : -2 ^ 63 ≤ base + k ∧ base + k < 2 ^ 63) :
    (∃ p < 0, Windowed.addI64 (Windowed.asI64 base) k = some p ∧
      Cursor.addSigned base k = none) ∨
    ∃ p : ℕ, p < 2 ^ 63 ∧ Windowed.addI64 (Windowed.asI64 base) k = some ↑p ∧
      Cursor.addSigned base k = some p := by
  rw [asI64_of_lt hbase, addI64_of_fits h, Cursor.addSigned]
  by_cases hneg : (base : ℤ) + k < 0
  · exact .inl ⟨_, hneg, rfl, if_neg (by omega)⟩
  · refine .inr ⟨(base + k).toNat, by omega, ?_, if_pos ⟨by omega, by omega⟩⟩
    rw [Int.toNat_of_nonneg (by omega)]

theorem place_cases (hs : Serves src file) (h : Holds file w c) {target : SeekFrom}
    (hfits : Fits file w.pos (.seek target)) :
    (∃ p < 0, w.place src target = some p ∧ c.place file target = none) ∨
    ∃ p : ℕ, p < 2 ^ 63 ∧ w.place src target = some ↑p ∧ c.place file target = some p := by
  rcases target with n | k | k
  · exact .inr ⟨n, hfits, congrArg some (asI64_of_lt hfits), rfl⟩
  · rw [Windowed.place, Cursor.place, hs.len]
    exact place_sum hs.small hfits
  · rw [Windowed.place, Cursor.place, ← h.pos]
    exact place_sum h.small hfits

/-- Where a seek goes is in the view what it is in the cursor. -/
theorem seek_cases (hs : Serves src file) (h : Holds file w c) {target : SeekFrom}
    (hfits : Fits file w.pos (.seek target)) :
    (w.seek src target = (w, .invalid) ∧ c.step file (.seek target) = (c, .invalid)) ∨
    ∃ pos, pos < 2 ^ 63 ∧ w.seek src target = ({ w with pos }, .position pos) ∧
      c.step file (.seek target) = (⟨pos⟩, .position pos) := by
  rw [Windowed.seek, Cursor.step]
  obtain ⟨p, hp, hw, hc⟩ | ⟨p, hp, hw, hc⟩ := place_cases hs h hfits
  · rw [hw, hc]
    exact .inl ⟨if_pos hp, rfl⟩
  · rw [hw, hc]
    exact .inr ⟨p, hp, if_neg (by omega), rfl⟩

theorem seek_same (hs : Serves src file) (h : Holds file w c) {target : SeekFrom}
    (hfits : Fits file w.pos (.seek target)) :
    Same src file w c (.seek target) ∧ Holds file (w.step src (.seek target)).1
      (c.step file (taken (.seek target) (w.step src (.seek target)).2)).1 := by
  have hstep : w.step src (.seek target) = w.seek src target := rfl
  have htaken : ∀ a, taken (.seek target) a = .seek target := fun _ => rfl
  have hread : ∀ n, Op.seek target = .read n → False := fun _ e => nomatch e
  obtain ⟨hw, hc⟩ | ⟨pos, hlt, hw, hc⟩ := seek_cases hs h hfits
  all_goals
    rw [← hstep] at hw
    refine ⟨⟨?_, .inl ?_, fun n _ e => (hread n e).elim, fun n e => (hread n e).elim⟩, ?_⟩
    all_goals rw [hw, htaken, hc]
  · exact h.pos
  · exact h
  · exact ⟨h.block, rfl, hlt⟩

/-- One operation: the view does what the cursor does, and they are in step after it. -/
theorem step_same (hs : Serves src file) (h : Holds file w c) (hfits : Fits file w.pos op) :
    Same src file w c op ∧
      Holds file (w.step src op).1 (c.step file (taken op (w.step src op).2)).1 := by
  rcases op with n | target
  · exact read_same hs h
  · exact seek_same hs h hfits

/-- The view is in step with the cursor after any operations. -/
theorem holds_of_reach (hs : Serves src file) {s : Windowed × Cursor}
    (hr : (lockstep src file).Reach (fun s op => Fits file s.1.pos op) s) :
    Holds file s.1 s.2 := by
  refine hr.invariant (P := fun s => Holds file s.1 s.2) ?_ ?_
  · intro s hs₀
    have hs₀ : s = (.new, ⟨0⟩) := hs₀
    subst hs₀
    exact ⟨List.nil_prefix, rfl, by decide⟩
  · intro s op s' h hfits hst
    injection hst with hst
    subst hst
    exact (step_same hs h hfits).2

end Facts

/-- To read a file by ranges is to read it: after any operations on a view of it that go where a
    signed number can say, the next does what it does to a cursor over the bytes. -/
theorem windowed_same (src : RangeSource) (file : Bytes) (hs : Serves src file)
    (w : Windowed) (c : Cursor)
    (hr : (lockstep src file).Reach (fun s op => Fits file s.1.pos op) (w, c)) (op : Op)
    (hfits : Fits file w.pos op) : Same src file w c op :=
  (step_same hs (holds_of_reach hs hr) hfits).1

/-- Three bytes, of which the last two are fetched after a seek from the end. -/
theorem windowed_same_tail :
    Same ⟨3, fun _ start n => .ok ((([1, 2, 3] : Bytes).drop start).take n)⟩ [1, 2, 3]
      ⟨1, 0, [], 0⟩ ⟨1⟩ (.read 5) :=
  windowed_same _ _ ⟨rfl, fun _ _ _ _ h => Except.ok.inj h.symm, by decide⟩ _ _
    (.step (a := .seek (.ending (-2))) (.init rfl) ⟨by decide, by decide⟩ rfl) (.read 5) trivial

end RemoteZip

end Smrt
