import Mathlib.Algebra.Order.Group.Nat
import Mathlib.Data.List.GetD
import Mathlib.Tactic.Positivity
import Smrt.Lib.Search

/-!
# Records of numbers

A list of numbers is written as one run of bytes, a record of one width for each number, the most
significant byte first (`beBytes`). Records of numbers that fit compare as the numbers do
(`beBytes_lt_beBytes`). So a run of increasing numbers is searched for one by halving, with records
in place of numbers (`searchRecords`): no record is read that is not there, and the answer is that
of the search among the numbers (`searchRecords_eq`).
-/

namespace Smrt

/-! ## Numbers as bytes -/

/-- A number in so many bytes, the most significant one first. -/
def beBytes : ℕ → ℕ → List UInt8
  | 0, _ => []
  | width + 1, n => UInt8.ofNat (n / 256 ^ width) :: beBytes width (n % 256 ^ width)

@[simp] theorem length_beBytes (width n : ℕ) : (beBytes width n).length = width := by
  induction width generalizing n with
  | zero => rfl
  | succ width ih => rw [beBytes, List.length_cons, ih]

/-- The leading byte of a number that fits. -/
theorem toNat_lead {width n : ℕ} (h : n < 256 ^ (width + 1)) :
    (UInt8.ofNat (n / 256 ^ width)).toNat = n / 256 ^ width := by
  have hlt : n / 256 ^ width < 256 := by
    refine Nat.div_lt_of_lt_mul ?_
    rwa [← pow_succ]
  rw [UInt8.toNat_ofNat']
  exact Nat.mod_eq_of_lt hlt

/-- Numbers that fit are in the order of their bytes. -/
theorem beBytes_lt_beBytes {width a b : ℕ} (ha : a < 256 ^ width) (hb : b < 256 ^ width) :
    beBytes width a < beBytes width b ↔ a < b := by
  induction width generalizing a b with
  | zero =>
    obtain rfl : a = 0 := by rw [pow_zero] at ha; omega
    obtain rfl : b = 0 := by rw [pow_zero] at hb; omega
    exact iff_of_false (List.lt_irrefl _) (Nat.lt_irrefl 0)
  | succ width ih =>
    have hpos : 0 < 256 ^ width := by positivity
    have hlead : UInt8.ofNat (a / 256 ^ width) < UInt8.ofNat (b / 256 ^ width) ↔
        a / 256 ^ width < b / 256 ^ width := by
      rw [UInt8.lt_iff_toNat_lt, toNat_lead ha, toNat_lead hb]
    have hsame : UInt8.ofNat (a / 256 ^ width) = UInt8.ofNat (b / 256 ^ width) ↔
        a / 256 ^ width = b / 256 ^ width := by
      rw [← UInt8.toNat_inj, toNat_lead ha, toNat_lead hb]
    rw [beBytes, beBytes, List.cons_lt_cons_iff, hlead, hsame,
      ih (Nat.mod_lt a hpos) (Nat.mod_lt b hpos)]
    have hda := Nat.div_add_mod a (256 ^ width)
    have hdb := Nat.div_add_mod b (256 ^ width)
    have hma := Nat.mod_lt a hpos
    have hmb := Nat.mod_lt b hpos
    generalize a / 256 ^ width = qa at *
    generalize b / 256 ^ width = qb at *
    generalize a % 256 ^ width = ra at *
    generalize b % 256 ^ width = rb at *
    generalize 256 ^ width = c at *
    constructor
    · rintro (hq | ⟨rfl, hr⟩)
      · -- A larger leading byte outweighs the rest.
        have hle : c * (qa + 1) ≤ c * qb := Nat.mul_le_mul_left c hq
        rw [Nat.mul_add, Nat.mul_one] at hle
        omega
      · omega
    · intro hlt
      rcases Nat.lt_trichotomy qa qb with hq | rfl | hq
      · exact .inl hq
      · exact .inr ⟨rfl, by omega⟩
      · have hle : c * (qb + 1) ≤ c * qa := Nat.mul_le_mul_left c hq
        rw [Nat.mul_add, Nat.mul_one] at hle
        omega

/-! ## Records -/

/-- The record at a place, if it is there. -/
def record (width : ℕ) (blob : List UInt8) (i : ℕ) : Option (List UInt8) :=
  if i * width + width ≤ blob.length then some ((blob.drop (i * width)).take width) else none

section Records

variable {width : ℕ} {l : List ℕ}

theorem length_records : (l.flatMap (beBytes width)).length = l.length * width := by
  induction l with
  | nil => rw [List.flatMap_nil, List.length_nil, List.length_nil, Nat.zero_mul]
  | cons n l ih =>
    rw [List.flatMap_cons, List.length_append, length_beBytes, ih, List.length_cons, Nat.succ_mul,
      Nat.add_comm]

/-- The records of a run are those of its numbers. -/
theorem record_records {i : ℕ} (h : i < l.length) :
    record width (l.flatMap (beBytes width)) i = some (beBytes width (l.getD i 0)) := by
  have hle : i * width + width ≤ l.length * width := by
    rw [← Nat.succ_mul]
    exact Nat.mul_le_mul_right width h
  rw [record, length_records, if_pos hle]
  clear hle
  refine congrArg some ?_
  induction l generalizing i with
  | nil => exact absurd h (Nat.not_lt_zero i)
  | cons n l ih =>
    rw [List.flatMap_cons]
    rcases i with _ | i
    · rw [Nat.zero_mul, List.drop_zero, List.getD_cons_zero]
      exact List.take_left' (length_beBytes width n)
    · have hskip : (i + 1) * width = (beBytes width n).length + i * width := by
        rw [length_beBytes, Nat.succ_mul, Nat.add_comm]
      rw [hskip, ← List.drop_drop, List.drop_left, List.getD_cons_succ]
      exact ih (Nat.lt_of_succ_lt_succ h)

/-! ## Searching -/

/-- What a search among records comes to. -/
inductive Found
  | answer (there : Bool)
  /-- It would read a record that is not there. -/
  | outside
  /-- It has not come to an end yet. -/
  | unfinished
  deriving DecidableEq

/-- The search for a record between two places, what is left being halved `fuel` times at most. -/
def searchRecords (width : ℕ) (blob want : List UInt8) : ℕ → ℕ → ℕ → Found
  | 0, lo, hi => if lo < hi then .unfinished else .answer false
  | fuel + 1, lo, hi =>
    if lo < hi then
      let mid := (lo + hi) / 2
      match record width blob mid with
      | none => .outside
      | some r =>
        if r < want then searchRecords width blob want fuel (mid + 1) hi
        else if want < r then searchRecords width blob want fuel lo mid
        else .answer true
    else .answer false

/-- The search among records is the one among their numbers. -/
theorem searchRecords_eq {n fuel lo hi : ℕ} (hl : ∀ m ∈ l, m < 256 ^ width) (hn : n < 256 ^ width)
    (hfuel : hi - lo ≤ fuel) (hhi : hi ≤ l.length) :
    searchRecords width (l.flatMap (beBytes width)) (beBytes width n) fuel lo hi =
      .answer (search (fun i => l.getD i 0) n fuel lo hi) := by
  induction fuel generalizing lo hi with
  | zero =>
    rw [searchRecords, search, if_neg (by omega)]
  | succ fuel ih =>
    rw [searchRecords, search]
    by_cases hlt : lo < hi
    · rw [if_pos hlt, if_pos hlt]
      dsimp only
      have hmid : (lo + hi) / 2 < l.length := by omega
      have hfits : l.getD ((lo + hi) / 2) 0 < 256 ^ width := by
        rw [List.getD_eq_getElem _ _ hmid]
        exact hl _ (List.getElem_mem hmid)
      rw [record_records hmid]
      dsimp only
      rw [if_congr (beBytes_lt_beBytes hfits hn) rfl rfl,
        if_congr (beBytes_lt_beBytes hn hfits) rfl rfl]
      split_ifs
      · exact ih (by omega) hhi
      · exact ih (by omega) (by omega)
      · rfl
    · rw [if_neg hlt, if_neg hlt]

end Records

end Smrt
