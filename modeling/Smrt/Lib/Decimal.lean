import Mathlib.Algebra.Group.Int.Defs
import Mathlib.Algebra.Group.Nat.Defs
import Mathlib.Data.Int.Notation
import Mathlib.Data.Nat.Notation
import Mathlib.Data.String.Basic
import Mathlib.Tactic.SplitIfs

/-!
# Decimal numbers

An integer of 64 bits read from a text: decimal digits, and not none, after at most one sign
(`parseI64`). What is written is read (`parseI64_toString`), and there is nothing in it but digits and
a sign (`mem_toString`).
-/

namespace Smrt

/-- The value of decimal digits. -/
def decimal (digits : List Char) : Option ℕ :=
  if digits ≠ [] ∧ digits.all Char.isDigit then some (Nat.ofDigitChars 10 digits 0) else none

def parseI64 (s : String) : Option ℤ :=
  let value : Option ℤ := match s.toList with
    | '-' :: digits => (decimal digits).map fun n : ℕ => -(n : ℤ)
    | '+' :: digits => (decimal digits).map Int.ofNat
    | digits => (decimal digits).map Int.ofNat
  value.filter fun n => -2 ^ 63 ≤ n ∧ n < 2 ^ 63

theorem toList_toString (n : ℕ) : (toString n).toList = Nat.toDigits 10 n := by
  rw [Nat.toString_eq_repr, Nat.repr, String.toList_ofList]

/-- A number is told by how it is written. -/
theorem eq_of_repr {m n : ℕ} (h : m.repr = n.repr) : m = n := by
  have hdigits := congrArg (fun s => Nat.ofDigitChars 10 s.toList 0) h
  simpa only [Nat.toList_repr, Nat.ofDigitChars_toDigits (by decide : 1 < 10) (by decide)]
    using hdigits

theorem isDigit_of_mem_toDigits {n : ℕ} {c : Char} (h : c ∈ Nat.toDigits 10 n) :
    c.isDigit = true :=
  Nat.isDigit_of_mem_toDigits (by decide) (by decide) h

theorem decimal_toDigits (n : ℕ) : decimal (Nat.toDigits 10 n) = some n := by
  have hdigits : (Nat.toDigits 10 n).all Char.isDigit = true :=
    List.all_eq_true.2 fun _ => isDigit_of_mem_toDigits
  rw [decimal, if_pos ⟨Nat.toDigits_ne_nil, hdigits⟩, Nat.ofDigitChars_ten_toDigits]

/-- Digits are not a sign. -/
theorem exists_toDigits (n : ℕ) :
    ∃ c l, Nat.toDigits 10 n = c :: l ∧ c ≠ '-' ∧ c ≠ '+' := by
  obtain ⟨c, l, h⟩ := List.exists_cons_of_ne_nil (Nat.toDigits_ne_nil (n := n) (b := 10))
  have hc : c.isDigit = true := isDigit_of_mem_toDigits (h ▸ List.mem_cons_self)
  refine ⟨c, l, h, ?_, ?_⟩ <;> rintro rfl <;> exact absurd hc (by decide)

/-- A number without a sign is read. -/
theorem parseI64_toString_nat {n : ℕ} (h : n < 2 ^ 63) : parseI64 (toString n) = some (n : ℤ) := by
  obtain ⟨c, l, hdigits, hminus, hplus⟩ := exists_toDigits n
  rw [parseI64, toList_toString, hdigits]
  have hvalue : decimal (c :: l) = some n := hdigits ▸ decimal_toDigits n
  split
  · rename_i heq
    exact absurd (List.cons.inj heq).1 hminus
  · rename_i heq
    exact absurd (List.cons.inj heq).1 hplus
  · rw [hvalue, Option.map_some, Option.filter_some, if_pos]
    · rfl
    · rw [decide_eq_true_eq, Int.ofNat_eq_natCast]
      omega

theorem toString_negSucc (n : ℕ) :
    (toString (Int.negSucc n)).toList = '-' :: Nat.toDigits 10 (n + 1) := by
  have hrepr : toString (Int.negSucc n) = "-" ++ toString (n + 1) := rfl
  rw [hrepr, String.toList_append, toList_toString]
  rfl

/-- What is written is read. -/
theorem parseI64_toString {n : ℤ} (h : -2 ^ 63 ≤ n) (h' : n < 2 ^ 63) :
    parseI64 (toString n) = some n := by
  cases n with
  | ofNat n =>
    refine parseI64_toString_nat (n := n) ?_
    simp only [Int.ofNat_eq_natCast] at h'
    omega
  | negSucc n =>
    rw [parseI64, toString_negSucc]
    simp only [decimal_toDigits, Option.map_some]
    rw [Option.filter_some, if_pos]
    · rfl
    · rw [decide_eq_true_eq]
      omega

/-- There are digits in a number, and a sign. -/
theorem mem_toString {n : ℤ} {c : Char} (h : c ∈ (toString n).toList) :
    c.isDigit = true ∨ c = '-' := by
  cases n with
  | ofNat n => exact .inl (isDigit_of_mem_toDigits (toList_toString n ▸ h))
  | negSucc n =>
    rw [toString_negSucc] at h
    exact (List.mem_cons.1 h).symm.imp isDigit_of_mem_toDigits id

end Smrt
