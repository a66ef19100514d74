import Mathlib.Data.List.Infix
import Mathlib.Data.Nat.Notation

/-!
# Patterns

Text that matches a pattern (`glob`): `*` is any text, `?` any letter, and `[...]` a letter of a set,
which may have ranges, and from which `^` takes the letters away. Other letters are themselves, in
their case.

A text without these letters (`Plain`) matches itself only, and followed by `*` what it begins
(`glob_plain_star`).
-/

namespace Smrt

/-- Whether `c` is in a set, and the pattern behind it; `prior` may begin a range. -/
def globSet (c : Char) : Option Char → Bool → List Char → Option (Bool × List Char)
  | _, _, [] => none
  | _, seen, ']' :: p => some (seen, p)
  | prior, seen, '-' :: hi :: p =>
    match prior with
    | some lo =>
      if hi = ']' then globSet c (some '-') (seen || c = '-') (hi :: p)
      else globSet c none (seen || (lo ≤ c ∧ c ≤ hi)) p
    | none => globSet c (some '-') (seen || c = '-') (hi :: p)
  | _, seen, c' :: p => globSet c (some c') (seen || c = c') p

/-- Whether `c` is in the set that a pattern begins with, and the pattern behind it. A bracket that
    comes first is a letter of the set. -/
def globBracket (c : Char) : List Char → Option (Bool × List Char)
  | '^' :: ']' :: p => (globSet c none (c = ']') p).map fun x => (!x.1, x.2)
  | '^' :: p => (globSet c none false p).map fun x => (!x.1, x.2)
  | ']' :: p => globSet c none (c = ']') p
  | p => globSet c none false p

/-- A text matches a pattern, which has `fuel` letters at most. -/
def globUpTo : ℕ → List Char → List Char → Bool
  | _, [], t => t = []
  | 0, _ :: _, _ => false
  | fuel + 1, '*' :: p, t => t.tails.any fun t' => globUpTo fuel p t'
  | fuel + 1, '?' :: p, _ :: t => globUpTo fuel p t
  | fuel + 1, '[' :: p, c :: t =>
    match globBracket c p with
    | some (true, p') => globUpTo fuel p' t
    | _ => false
  | fuel + 1, c :: p, c' :: t => c = c' && globUpTo fuel p t
  | _ + 1, _ :: _, [] => false

def glob (pattern text : String) : Bool :=
  globUpTo pattern.toList.length pattern.toList text.toList

/-- None of the letters means anything but itself. -/
def Plain (p : List Char) : Prop := ∀ c ∈ p, c ≠ '*' ∧ c ≠ '?' ∧ c ≠ '['

instance : DecidablePred Plain := fun p => List.decidableBAll _ p

theorem globUpTo_plain {p : List Char} (hp : Plain p) (fuel : ℕ) (q t : List Char) :
    globUpTo (p.length + fuel) (p ++ q) t = true ↔ ∃ t', t = p ++ t' ∧ globUpTo fuel q t' = true := by
  induction p generalizing t with
  | nil => simp
  | cons c p ih =>
    obtain ⟨⟨hstar, hany, hset⟩, hp⟩ := List.forall_mem_cons.1 hp
    have hfuel : (c :: p).length + fuel = p.length + fuel + 1 := by
      rw [List.length_cons]
      omega
    rw [hfuel, List.cons_append]
    rcases t with _ | ⟨c', t⟩
    · have hnone : globUpTo (p.length + fuel + 1) (c :: (p ++ q)) [] = false := by
        rw [globUpTo]
        simp_all
      simp [hnone]
    · have hone : globUpTo (p.length + fuel + 1) (c :: (p ++ q)) (c' :: t) =
          (decide (c = c') && globUpTo (p.length + fuel) (p ++ q) t) := by
        rw [globUpTo] <;> simp_all
      rw [hone, Bool.and_eq_true, decide_eq_true_eq, ih hp]
      constructor
      · rintro ⟨rfl, t', rfl, ht'⟩
        exact ⟨t', rfl, ht'⟩
      · rintro ⟨t', he, ht'⟩
        obtain ⟨rfl, rfl⟩ := List.cons.inj he
        exact ⟨rfl, t', rfl, ht'⟩

/-- What a text begins is what matches it with a star behind it. -/
theorem glob_plain_star {p t : String} (hp : Plain p.toList) :
    glob (p ++ "*") t = true ↔ p.toList <+: t.toList := by
  have hstar : ∀ t' : List Char, globUpTo 1 ['*'] t' = true := fun t' =>
    List.any_eq_true.2 ⟨[], (List.mem_tails _ _).2 List.nil_suffix, rfl⟩
  rw [glob, String.toList_append, List.length_append]
  refine (globUpTo_plain hp 1 ['*'] t.toList).trans ⟨?_, ?_⟩
  · rintro ⟨t', he, -⟩
    exact ⟨t', he.symm⟩
  · rintro ⟨t', he⟩
    exact ⟨t', he.symm, hstar t'⟩

example : glob "a[b-d]?e*" "acxe@1" = true := by decide

end Smrt
