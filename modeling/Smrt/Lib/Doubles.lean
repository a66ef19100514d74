import Mathlib.Algebra.Order.Field.Rat
import Mathlib.Data.Nat.Log
import Mathlib.Tactic.FieldSimp
import Mathlib.Tactic.NormNum

/-!
# Doubles and the integers among them

A double is 64 bits: a sign, 11 bits of exponent and 52 bits of fraction. A finite one has a
rational value (`Double.value`).

* `ofInt` rounds an integer to the nearest double, ties going to the even one. An integer of up to
  53 bits is one exactly (`value_ofInt`).
* `whole` is the integer that a double is, as far as doubles count by ones (`whole_eq_some`).
-/

namespace Smrt.Double

/-! ## The value of a double -/

def negative (b : UInt64) : Bool := 2 ^ 63 ≤ b.toNat

def exponent (b : UInt64) : ℕ := b.toNat / 2 ^ 52 % 2 ^ 11

def fraction (b : UInt64) : ℕ := b.toNat % 2 ^ 52

/-- Neither infinite nor no number at all. -/
def Finite (b : UInt64) : Prop := exponent b ≠ 2047

instance : DecidablePred Finite := fun b => inferInstanceAs (Decidable (exponent b ≠ 2047))

/-- The fraction with the bit before it, which the least exponent has not. -/
def significand (b : UInt64) : ℕ := if exponent b = 0 then fraction b else 2 ^ 52 + fraction b

/-- How many of the least doubles there are in one. -/
def units (b : UInt64) : ℕ := significand b * 2 ^ (exponent b - 1)

/-- How many of the least doubles there are in the number one. -/
def one : ℕ := 2 ^ 1074

/-- The value of a finite double. -/
def value (b : UInt64) : ℚ := if negative b then -(units b / one) else units b / one

/-! ## Integers -/

/-- The quotient by a power of two, rounded to the nearest, and to the even one of two. -/
def rounded (a shift : ℕ) : ℕ :=
  let q := a / 2 ^ shift
  let r := a % 2 ^ shift
  if 2 ^ shift < 2 * r ∨ (2 ^ shift = 2 * r ∧ q % 2 = 1) then q + 1 else q

/-- The bits of the double next to a natural number. The first bit of the significand is not
    written, so it is what the exponent is more by, as is one that rounding adds. -/
def magnitudeOf (a : ℕ) : ℕ :=
  if a = 0 then 0
  else
    let e := Nat.log 2 a
    (1022 + e) * 2 ^ 52 + if e ≤ 52 then a * 2 ^ (52 - e) else rounded a (e - 52)

def ofInt (n : ℤ) : UInt64 :=
  UInt64.ofNat ((if n < 0 then 2 ^ 63 else 0) + magnitudeOf n.natAbs)

/-- The integer that a double is, if it is one up to which doubles count by ones. -/
def whole (b : UInt64) : Option ℤ :=
  if Finite b ∧ one ∣ units b ∧ units b / one ≤ 2 ^ 53 then
    some (if negative b then -(units b / one : ℕ) else (units b / one : ℕ))
  else none

example : whole (ofInt (-21)) = some (-21) := by decide +kernel

/-- One half. -/
example : whole 0x3fe0000000000000 = none := by decide +kernel

section Value

variable {b : UInt64} {n : ℤ} {a k : ℕ}

theorem one_pos : 0 < one := by
  rw [one]
  positivity

theorem units_eq_iff : (units b : ℚ) / one = k ↔ units b = k * one := by
  rw [div_eq_iff (by exact_mod_cast one_pos.ne')]
  exact_mod_cast Iff.rfl

/-- The value of a double with so many ones in it. -/
theorem value_eq (h : units b = k * one) : value b = if negative b then -(k : ℚ) else k := by
  rw [value, units_eq_iff.2 h]

/-- What is read as an integer is that integer. -/
theorem whole_eq_some : whole b = some n ↔ Finite b ∧ value b = n ∧ n.natAbs ≤ 2 ^ 53 := by
  constructor
  · intro h
    rw [whole, Option.ite_none_right_eq_some, Option.some_inj] at h
    obtain ⟨⟨hfinite, ⟨k, hk⟩, hle⟩, rfl⟩ := h
    rw [Nat.mul_comm] at hk
    rw [hk, Nat.mul_div_cancel _ one_pos] at hle ⊢
    refine ⟨hfinite, ?_, ?_⟩
    · rw [value_eq hk]
      split_ifs <;> simp
    · split_ifs <;> simpa using hle
  · rintro ⟨hfinite, hvalue, hle⟩
    have hunits : units b = n.natAbs * one := by
      rw [← units_eq_iff, Nat.cast_natAbs, Int.cast_abs, ← hvalue, value]
      have hpos : (0 : ℚ) ≤ units b / one := div_nonneg (Nat.cast_nonneg _) (Nat.cast_nonneg _)
      split_ifs
      · rw [abs_neg, abs_of_nonneg hpos]
      · rw [abs_of_nonneg hpos]
    have hsign : (n : ℚ) = ((if negative b then -(n.natAbs : ℤ) else n.natAbs : ℤ) : ℚ) := by
      rw [← hvalue, value_eq hunits]
      split_ifs <;> simp
    rw [whole, hunits, Nat.mul_div_cancel _ one_pos,
      if_pos ⟨hfinite, Dvd.intro_left _ rfl, hle⟩, Option.some_inj]
    exact_mod_cast hsign.symm

/-- The fields of the bits of a double. -/
theorem fields {negative' : Bool} {e f : ℕ} (he : e < 2 ^ 11) (hf : f < 2 ^ 52)
    (hb : b = UInt64.ofNat ((if negative' then 2 ^ 63 else 0) + (e * 2 ^ 52 + f))) :
    negative b = negative' ∧ exponent b = e ∧ fraction b = f := by
  have hnat : b.toNat = (if negative' then 2 ^ 63 else 0) + (e * 2 ^ 52 + f) := by
    rw [hb, UInt64.toNat_ofNat']
    refine Nat.mod_eq_of_lt ?_
    split_ifs <;> omega
  rw [negative, exponent, fraction, hnat]
  rcases negative' with _ | _
  · refine ⟨decide_eq_false ?_, ?_, ?_⟩ <;> simp only [Bool.false_eq_true, if_false] <;> omega
  · refine ⟨decide_eq_true ?_, ?_, ?_⟩ <;> simp only [if_true] <;> omega

/-- The bits of a natural number of up to 53 bits. -/
theorem exists_magnitudeOf (ha : a ≠ 0) (hle : a ≤ 2 ^ 53) : ∃ e f, 0 < e ∧ e < 2047 ∧ f < 2 ^ 52 ∧
    magnitudeOf a = e * 2 ^ 52 + f ∧ (2 ^ 52 + f) * 2 ^ (e - 1) = a * one := by
  have hlow : 2 ^ Nat.log 2 a ≤ a := Nat.pow_log_le_self 2 ha
  have hhigh : a < 2 ^ (Nat.log 2 a + 1) := Nat.lt_pow_succ_log_self (by decide) a
  rw [magnitudeOf, if_neg ha]
  simp only
  generalize Nat.log 2 a = e at hlow hhigh ⊢
  by_cases he : e ≤ 52
  · -- The number, moved up to the first bit of the significand.
    have hfirst : 2 ^ 52 ≤ a * 2 ^ (52 - e) := by
      calc 2 ^ 52 = 2 ^ e * 2 ^ (52 - e) := by rw [← pow_add, Nat.add_sub_of_le he]
        _ ≤ a * 2 ^ (52 - e) := Nat.mul_le_mul_right _ hlow
    have hlast : a * 2 ^ (52 - e) < 2 ^ 53 := by
      calc a * 2 ^ (52 - e) < 2 ^ (e + 1) * 2 ^ (52 - e) :=
            Nat.mul_lt_mul_of_pos_right hhigh (Nat.two_pow_pos _)
        _ = 2 ^ 53 := by rw [← pow_add]; congr 1; omega
    refine ⟨1023 + e, a * 2 ^ (52 - e) - 2 ^ 52, by omega, by omega, by omega, ?_, ?_⟩
    · rw [if_pos he]
      omega
    · rw [Nat.add_sub_of_le hfirst, one, Nat.mul_assoc, ← pow_add]
      congr 2
      omega
  · -- The first number of 54 bits, which ends with a zero.
    have he' : e = 53 := by
      have hpow : 2 ^ e < 2 ^ 54 := (hlow.trans hle).trans_lt (by decide)
      have hlt := (Nat.pow_lt_pow_iff_right (by decide)).1 hpow
      omega
    subst he'
    obtain rfl : a = 2 ^ 53 := le_antisymm hle hlow
    refine ⟨1076, 0, by decide, by decide, by decide, by decide, ?_⟩
    rw [one, Nat.add_zero, ← pow_add, ← pow_add]

/-- An integer of up to 53 bits is a double. -/
theorem value_ofInt (h : n.natAbs ≤ 2 ^ 53) : Finite (ofInt n) ∧ value (ofInt n) = n := by
  by_cases hn : n = 0
  · subst hn
    have hunits : units (ofInt 0) = 0 * one := by decide +kernel
    refine ⟨by decide +kernel, ?_⟩
    rw [value_eq hunits]
    simp
  · obtain ⟨e, f, hpos, he, hf, hm, hunits⟩ := exists_magnitudeOf (Int.natAbs_ne_zero.2 hn) h
    have hbits : ofInt n = UInt64.ofNat ((if decide (n < 0) then 2 ^ 63 else 0) +
        (e * 2 ^ 52 + f)) := by
      rw [ofInt, hm]
      simp only [decide_eq_true_eq]
    obtain ⟨hneg, hexp, hfrac⟩ := fields (he.trans (by decide)) hf hbits
    refine ⟨by rw [Finite, hexp]; exact he.ne, ?_⟩
    rw [value_eq (k := n.natAbs), hneg]
    · rw [Nat.cast_natAbs, Int.cast_abs]
      rcases lt_or_ge n 0 with hlt | hge
      · rw [if_pos (decide_eq_true hlt), abs_of_neg (Int.cast_lt_zero.2 hlt), neg_neg]
      · rw [if_neg (by simpa using hge), abs_of_nonneg (Int.cast_nonneg hge)]
    · rw [units, significand, hexp, hfrac, if_neg hpos.ne', hunits]

theorem whole_ofInt (h : n.natAbs ≤ 2 ^ 53) : whole (ofInt n) = some n :=
  whole_eq_some.2 ⟨(value_ofInt h).1, (value_ofInt h).2, h⟩

end Value

end Smrt.Double
