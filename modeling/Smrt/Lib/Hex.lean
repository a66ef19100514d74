import Mathlib.Data.List.Basic
import Mathlib.Data.String.Basic

/-!
# Hexadecimal bytes

Bytes written as pairs of hexadecimal digits (`hexOf`), by which they are told (`hexOf_injective`).
-/

namespace Smrt

/-- The letters of a hash. -/
def hexDigits : List Char := "0123456789abcdef".toList

/-- Bytes in hexadecimal. -/
def hexOf (bytes : List UInt8) : String :=
  String.ofList (bytes.flatMap fun b => [(b.toNat / 16).digitChar, (b.toNat % 16).digitChar])

theorem digitChar_injOn : ∀ m < 16, ∀ n < 16, Nat.digitChar m = Nat.digitChar n → m = n := by decide

theorem hexOf_injective : Function.Injective hexOf := by
  intro x y h
  have hchars := String.ofList_injective h
  clear h
  induction x generalizing y with
  | nil =>
    cases y with
    | nil => rfl
    | cons b y => simp at hchars
  | cons a x ih =>
    cases y with
    | nil => simp at hchars
    | cons b y =>
      simp only [List.flatMap_cons, List.cons_append, List.nil_append, List.cons.injEq] at hchars
      obtain ⟨hhigh, hlow, htail⟩ := hchars
      have ha := a.toNat_lt
      have hb := b.toNat_lt
      have hquot := digitChar_injOn _ (by omega) _ (by omega) hhigh
      have hrem := digitChar_injOn _ (by omega) _ (by omega) hlow
      have hab : a = b := UInt8.toNat_inj.1 (by omega)
      rw [hab, ih htail]

theorem mem_hexOf (bytes : List UInt8) : ∀ d ∈ (hexOf bytes).toList, d ∈ hexDigits := by
  have hdigits : ∀ n < 16, Nat.digitChar n ∈ hexDigits := by decide
  intro d hd
  rw [hexOf, String.toList_ofList, List.mem_flatMap] at hd
  obtain ⟨b, -, hb⟩ := hd
  have hlt := b.toNat_lt
  rcases List.mem_pair.1 hb with rfl | rfl
  · exact hdigits _ (by omega)
  · exact hdigits _ (Nat.mod_lt _ (by decide))

end Smrt
