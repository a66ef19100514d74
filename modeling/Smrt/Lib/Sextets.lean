import Mathlib.Data.List.Basic
import Mathlib.Data.Nat.Notation

/-!
# Base 64

Bytes are written as letters of six bits each, three bytes as four letters, with the letters that
may stand in an address, and without padding at the end (`sextets`). What is read back are bytes,
unless a letter is none of these or bits are left over (`fromSextets`).

* `fromSextets_sextets`: bytes come back;
* `mem_sextets`: only letters, digits, `-` and `_` are written.
-/

namespace Smrt

/-- The letters, by what they stand for. -/
def sextetLetters : List Char :=
  "ABCDEFGHIJKLMNOPQRSTUVWXYZabcdefghijklmnopqrstuvwxyz0123456789-_".toList

def sextet (n : ℕ) : Char := sextetLetters.getD n 'A'

def sextetValue (c : Char) : Option ℕ := sextetLetters.findIdx? fun d => d = c

/-- Bytes as letters. -/
def sextets : List UInt8 → List Char
  | [] => []
  | [a] => [sextet (a.toNat / 4), sextet (a.toNat % 4 * 16)]
  | [a, b] => [sextet (a.toNat / 4), sextet (a.toNat % 4 * 16 + b.toNat / 16),
      sextet (b.toNat % 16 * 4)]
  | a :: b :: c :: rest =>
    sextet (a.toNat / 4) :: sextet (a.toNat % 4 * 16 + b.toNat / 16) ::
      sextet (b.toNat % 16 * 4 + c.toNat / 64) :: sextet (c.toNat % 64) :: sextets rest

/-- The bytes that letters stand for. -/
def fromSextets : List Char → Option (List UInt8)
  | [] => some []
  | [_] => none
  | [w, x] => do
    let w ← sextetValue w
    let x ← sextetValue x
    if x % 16 = 0 then some [UInt8.ofNat (w * 4 + x / 16)] else none
  | [w, x, y] => do
    let w ← sextetValue w
    let x ← sextetValue x
    let y ← sextetValue y
    if y % 4 = 0 then some [UInt8.ofNat (w * 4 + x / 16), UInt8.ofNat (x % 16 * 16 + y / 4)]
    else none
  | w :: x :: y :: z :: rest => do
    let w ← sextetValue w
    let x ← sextetValue x
    let y ← sextetValue y
    let z ← sextetValue z
    let bytes ← fromSextets rest
    some (UInt8.ofNat (w * 4 + x / 16) :: UInt8.ofNat (x % 16 * 16 + y / 4) ::
      UInt8.ofNat (y % 4 * 64 + z) :: bytes)

theorem sextetValue_sextet : ∀ n < 64, sextetValue (sextet n) = some n := by
  decide +kernel

theorem sextet_mem : ∀ n < 64, sextet n ∈ sextetLetters := by decide +kernel

/-- Bytes come back. -/
theorem fromSextets_sextets (l : List UInt8) : fromSextets (sextets l) = some l := by
  induction l using sextets.induct with
  | case1 => rfl
  | case2 a =>
    have ha := a.toNat_lt
    rw [sextets, fromSextets, sextetValue_sextet _ (by omega), sextetValue_sextet _ (by omega)]
    have hbits : a.toNat / 4 * 4 + a.toNat % 4 * 16 / 16 = a.toNat := by omega
    have hrest : a.toNat % 4 * 16 % 16 = 0 := by omega
    simp only [Option.bind_eq_bind, Option.bind_some, if_pos hrest, hbits, UInt8.ofNat_toNat]
  | case3 a b =>
    have ha := a.toNat_lt
    have hb := b.toNat_lt
    rw [sextets, fromSextets, sextetValue_sextet _ (by omega), sextetValue_sextet _ (by omega),
      sextetValue_sextet _ (by omega)]
    have hfirst : a.toNat / 4 * 4 + (a.toNat % 4 * 16 + b.toNat / 16) / 16 = a.toNat := by omega
    have hsecond : (a.toNat % 4 * 16 + b.toNat / 16) % 16 * 16 + b.toNat % 16 * 4 / 4 =
        b.toNat := by omega
    have hrest : b.toNat % 16 * 4 % 4 = 0 := by omega
    simp only [Option.bind_eq_bind, Option.bind_some, if_pos hrest, hfirst, hsecond,
      UInt8.ofNat_toNat]
  | case4 a b c rest ih =>
    have ha := a.toNat_lt
    have hb := b.toNat_lt
    have hc := c.toNat_lt
    rw [sextets, fromSextets, sextetValue_sextet _ (by omega), sextetValue_sextet _ (by omega),
      sextetValue_sextet _ (by omega), sextetValue_sextet _ (by omega), ih]
    have hfirst : a.toNat / 4 * 4 + (a.toNat % 4 * 16 + b.toNat / 16) / 16 = a.toNat := by omega
    have hsecond : (a.toNat % 4 * 16 + b.toNat / 16) % 16 * 16 +
        (b.toNat % 16 * 4 + c.toNat / 64) / 4 = b.toNat := by omega
    have hthird : (b.toNat % 16 * 4 + c.toNat / 64) % 4 * 64 + c.toNat % 64 = c.toNat := by omega
    simp only [Option.bind_eq_bind, Option.bind_some, hfirst, hsecond, hthird, UInt8.ofNat_toNat]

/-- What is written are letters that may stand in an address. -/
theorem mem_sextets {l : List UInt8} : ∀ c ∈ sextets l, c ∈ sextetLetters := by
  induction l using sextets.induct with
  | case1 => exact fun _ h => absurd h List.not_mem_nil
  | case2 a =>
    have ha := a.toNat_lt
    rw [sextets]
    simp only [List.forall_mem_cons]
    exact ⟨sextet_mem _ (by omega), sextet_mem _ (by omega), fun _ h => absurd h List.not_mem_nil⟩
  | case3 a b =>
    have ha := a.toNat_lt
    have hb := b.toNat_lt
    rw [sextets]
    simp only [List.forall_mem_cons]
    exact ⟨sextet_mem _ (by omega), sextet_mem _ (by omega), sextet_mem _ (by omega),
      fun _ h => absurd h List.not_mem_nil⟩
  | case4 a b c rest ih =>
    have ha := a.toNat_lt
    have hb := b.toNat_lt
    have hc := c.toNat_lt
    rw [sextets]
    simp only [List.forall_mem_cons]
    exact ⟨sextet_mem _ (by omega), sextet_mem _ (by omega), sextet_mem _ (by omega),
      sextet_mem _ (by omega), ih⟩

end Smrt
