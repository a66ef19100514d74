import Smrt.Lib.Keyed

/-!
# Maps without an order

The rows of a map from texts come in an order that is another one each time that the map is built
(`HashMap.Same`). What is under a key is not touched by that (`Same.get`), and neither is what is
collected of all rows, up to its order.
-/

namespace Smrt

/-- A map from texts, with its rows in the order in which they are met. -/
structure HashMap (α : Type) where
  rows : List (String × α)
  nodup : (rows.map Prod.fst).Nodup

namespace HashMap

variable {α : Type}

def empty : HashMap α := ⟨[], .nil⟩

def get (m : HashMap α) (k : String) : Option α := m.rows.lookup k

def values (m : HashMap α) : List α := m.rows.map Prod.snd

/-- The same rows, maybe in another order. -/
def Same (m m' : HashMap α) : Prop := m.rows.Perm m'.rows

variable {m m' : HashMap α}

theorem Same.refl (m : HashMap α) : m.Same m := List.Perm.refl _

theorem Same.symm (h : m.Same m') : m'.Same m := List.Perm.symm h

theorem Same.get (h : m.Same m') (k : String) : m.get k = m'.get k := lookup_eq_of_perm h m.nodup k

theorem Same.values (h : m.Same m') : m.values.Perm m'.values := h.map _

end HashMap

end Smrt
