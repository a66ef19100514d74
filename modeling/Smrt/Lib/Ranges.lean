import Mathlib.Data.List.Chain
import Mathlib.Order.Defs.Unbundled

/-!
# Sets of ranges

Ranges of a total preorder, each with a lower and an upper end that may be open, and sets of them
that are listed in their order (`Ordered`): each range begins where the one before it ends, or
behind it.

* `Ordered.not_contains_of_not_above`: what is not above the beginning of the first range is in
  none;
* `Ordered.not_contains_of_not_below`: what is not below the end of the last range is in none.

Both are so if no range but the last is open above.
-/

namespace Smrt

/-- A range: what is between its ends, which belong to it or not. An end that is none is open. -/
structure Range (α : Type*) where
  lower : Option α
  lowerInc : Bool
  upper : Option α
  upperInc : Bool
  deriving DecidableEq

namespace Range

variable {α : Type*} (le : α → α → Prop)

/-- An element is above the lower end of a range. -/
def Above (I : Range α) (x : α) : Prop :=
  ∀ l, I.lower = some l → le l x ∧ (le x l → I.lowerInc = true)

def Below (I : Range α) (x : α) : Prop :=
  ∀ u, I.upper = some u → le x u ∧ (le u x → I.upperInc = true)

def Contains (I : Range α) (x : α) : Prop := I.Above le x ∧ I.Below le x

/-- The ends of a range are in their order. -/
def Valid (I : Range α) : Prop := ∀ l u, I.lower = some l → I.upper = some u →
  le l u ∧ (le u l → I.lowerInc = true ∧ I.upperInc = true)

/-- A range begins where another one ends, or behind it. -/
def Follows (I J : Range α) : Prop := ∀ u, I.upper = some u → ∃ l, J.lower = some l ∧ le u l

/-- Ranges in their order. -/
structure Ordered (l : List (Range α)) : Prop where
  valid : ∀ I ∈ l, I.Valid le
  chain : l.IsChain (Follows le)

/-- No range but the last is open above. -/
def Closed (l : List (Range α)) : Prop := ∀ I ∈ l.dropLast, I.upper ≠ none

section Ends

variable {le} {x : α} {I J : Range α} {l : List (Range α)}
  (htrans : ∀ a b c, le a b → le b c → le a c)

include htrans

/-- What is not above a range's beginning is not above that of a range that follows. -/
theorem Follows.above (h : Follows le I J) (hI : I.Valid le) (hup : I.upper ≠ none)
    (hx : J.Above le x) : I.Above le x := by
  intro a ha
  obtain ⟨u, hu⟩ := Option.ne_none_iff_exists'.1 hup
  obtain ⟨b, hb, hub⟩ := h u hu
  have hux : le u x := htrans _ _ _ hub (hx b hb).1
  exact ⟨htrans _ _ _ (hI a u ha hu).1 hux,
    fun hxa => ((hI a u ha hu).2 (htrans _ _ _ hux hxa)).1⟩

/-- What is not below the end of a range that follows is not below the range's own. -/
theorem Follows.below (h : Follows le I J) (hJ : J.Valid le) (hup : I.upper ≠ none)
    (hx : I.Below le x) : J.Below le x := by
  intro w hw
  obtain ⟨u, hu⟩ := Option.ne_none_iff_exists'.1 hup
  obtain ⟨b, hb, hub⟩ := h u hu
  have hxb : le x b := htrans _ _ _ (hx u hu).1 hub
  exact ⟨htrans _ _ _ hxb (hJ b w hb hw).1,
    fun hwx => ((hJ b w hb hw).2 (htrans _ _ _ hwx hxb)).2⟩

theorem Ordered.not_contains_of_not_above (h : Ordered le (I :: l)) (hclosed : Closed (I :: l))
    (hx : ¬ I.Above le x) : ∀ J ∈ I :: l, ¬ J.Contains le x := by
  induction l generalizing I with
  | nil =>
    intro J hJ hc
    obtain rfl := List.mem_singleton.1 hJ
    exact hx hc.1
  | cons K l ih =>
    obtain ⟨hfollows, hchain⟩ := List.isChain_cons_cons.1 h.chain
    obtain ⟨hI, hl⟩ := List.forall_mem_cons.1 h.valid
    obtain ⟨hup, hclosed⟩ := List.forall_mem_cons.1
      (show ∀ J ∈ I :: (K :: l).dropLast, J.upper ≠ none from hclosed)
    intro J hJ
    rcases List.mem_cons.1 hJ with rfl | hJ
    · exact fun hc => hx hc.1
    · exact ih ⟨hl, hchain⟩ hclosed (fun hK => hx (hfollows.above htrans hI hup hK)) J hJ

theorem Ordered.not_contains_of_not_below {l : List (Range α)} (h : Ordered le (l ++ [I]))
    (hclosed : ∀ J ∈ l, J.upper ≠ none) (hx : ¬ I.Below le x) :
    ∀ J ∈ l ++ [I], ¬ J.Contains le x := by
  -- If it is not below the last end, it is below no end before.
  have hbelow : ∀ J ∈ l ++ [I], ¬ J.Below le x := by
    induction l with
    | nil =>
      intro J hJ
      obtain rfl := List.mem_singleton.1 hJ
      exact hx
    | cons K l ih =>
      obtain ⟨hup, hclosed⟩ := List.forall_mem_cons.1 hclosed
      obtain ⟨hK, hl⟩ := List.forall_mem_cons.1 h.valid
      have hrest := ih ⟨hl, h.chain.tail⟩ hclosed
      intro J hJ
      rcases List.mem_cons.1 hJ with rfl | hJ
      · obtain ⟨N, r, hr⟩ := List.exists_cons_of_ne_nil
          (List.append_ne_nil_of_right_ne_nil l (List.cons_ne_nil I []))
        have hfollows : Follows le J N := by
          have hchain := h.chain
          rw [List.cons_append, hr] at hchain
          exact (List.isChain_cons_cons.1 hchain).1
        have hN : N ∈ l ++ [I] := hr ▸ List.mem_cons_self
        exact fun hJx => hrest N hN (hfollows.below htrans (hl N hN) hup hJx)
      · exact hrest J hJ
  exact fun J hJ hc => hbelow J hJ hc.2

end Ends

end Range

end Smrt
