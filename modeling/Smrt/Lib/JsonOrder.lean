import Smrt.Lib.Json
import Smrt.Lib.Keyed
import Smrt.Lib.Rows

/-!
# JSON values in the order of their keys

A map that is ordered holds its members in the order of their keys, whatever order they came in:
`Json.sorted` is a value as such maps hold it. Where the keys of every object are told apart, they
increase then (`all_ordered_sorted`), and members that are put into a map one after the other make
it, in whatever order they are put there (`collect_eq`).

What is read of a value does not depend on the order of its members: the readers of single members
read the same (`must_sorted`, `may_sorted`, `orDefault_sorted`, `listOf_sorted`), and so does that
of a record that is read member by member (`record_sorted`).
-/

namespace Smrt.Json

/-- The values right inside a value. -/
def children : Json → List Json
  | .arr items => items
  | .obj o => o.map Prod.snd
  | _ => []

/-- A value is so, and all the values in it, at every depth. -/
inductive All (p : Json → Prop) : Json → Prop
  | intro {j : Json} (self : p j) (inside : ∀ c ∈ j.children, All p c) : All p j

/-- Members in the order of their keys. -/
def sortKeys {α : Type} (o : List (String × α)) : List (String × α) :=
  o.insertionSort fun a b => a.1 ≤ b.1

mutual

/-- A value with the members of all its objects in the order of their keys. -/
def sorted : Json → Json
  | .arr items => .arr (sortedItems items)
  | .obj o => .obj (sortKeys (sortedMembers o))
  | .null => .null
  | .bool b => .bool b
  | .int n => .int n
  | .float bits => .float bits
  | .str s => .str s

def sortedItems : List Json → List Json
  | [] => []
  | j :: items => sorted j :: sortedItems items

def sortedMembers : Members → Members
  | [] => []
  | (k, j) :: o => (k, sorted j) :: sortedMembers o

end

section Sorted

variable {p : Json → Prop} {j : Json} {items : List Json} {o : Members} {k : String}

theorem All.self (h : All p j) : p j := by
  obtain ⟨hj, -⟩ := h
  exact hj

theorem All.item (h : All p (.arr items)) : ∀ c ∈ items, All p c := by
  obtain ⟨-, hc⟩ := h
  exact hc

theorem All.member (h : All p (.obj o)) : ∀ m ∈ o, All p m.2 := by
  obtain ⟨-, hc⟩ := h
  exact fun m hm => hc _ (List.mem_map_of_mem hm)

/-- Where there is nothing inside, it is enough that the value itself is so. -/
theorem All.leaf (h : p j) (hc : j.children = []) : All p j :=
  ⟨h, fun _ hm => absurd (hc ▸ hm) List.not_mem_nil⟩

theorem All.imp {q : Json → Prop} (h : All p j) (hpq : ∀ j, p j → q j) : All q j := by
  induction h with
  | intro hself _ ih => exact ⟨hpq _ hself, ih⟩

theorem sortedItems_eq (items : List Json) : sortedItems items = items.map sorted := by
  induction items with
  | nil => rfl
  | cons j items ih => rw [sortedItems, ih, List.map_cons]

theorem sortedMembers_eq (o : Members) : sortedMembers o = o.map fun m => (m.1, sorted m.2) := by
  induction o with
  | nil => rfl
  | cons m o ih => rw [sortedMembers, ih, List.map_cons]

theorem sorted_arr : sorted (.arr items) = .arr (items.map sorted) := by
  rw [sorted, sortedItems_eq]

theorem sorted_obj :
    sorted (.obj o) = .obj (sortKeys (o.map fun m => (m.1, sorted m.2))) := by
  rw [sorted, sortedMembers_eq]

/-- The order is stable, so what is found under a key is the same. -/
theorem lookup_sortKeys {α : Type} (o : List (String × α)) (k : String) :
    (sortKeys o).lookup k = o.lookup k := by
  have hinsert : ∀ (m : String × α) (o : List (String × α)),
      (o.orderedInsert (fun a b => a.1 ≤ b.1) m).lookup k = (m :: o).lookup k := by
    intro m o
    induction o with
    | nil => rfl
    | cons q o ih =>
      rw [List.orderedInsert_cons]
      split_ifs with hle
      · rfl
      · have hne : m.1 ≠ q.1 := fun he => hle he.le
        rw [lookup_cons', ih, lookup_cons', lookup_cons', lookup_cons']
        by_cases hm : k = m.1
        · rw [if_pos hm, if_neg (hm ▸ hne), if_pos hm]
        · rw [if_neg hm, if_neg hm]
  induction o with
  | nil => rfl
  | cons m o ih =>
    have hcons : sortKeys (m :: o) = (sortKeys o).orderedInsert (fun a b => a.1 ≤ b.1) m := rfl
    rw [hcons, hinsert, lookup_cons', ih, lookup_cons']

theorem lookup_map_snd {α β : Type} {f : α → β} {o : List (String × α)} :
    (o.map fun m => (m.1, f m.2)).lookup k = (o.lookup k).map f := by
  induction o with
  | nil => rfl
  | cons m o ih =>
    rw [List.map_cons, lookup_cons', lookup_cons', ih]
    split_ifs <;> rfl

theorem lookup_sorted :
    (sortKeys (o.map fun m => (m.1, sorted m.2))).lookup k = (o.lookup k).map sorted := by
  rw [lookup_sortKeys, lookup_map_snd]

theorem perm_sortKeys {α : Type} (o : List (String × α)) : (sortKeys o).Perm o :=
  List.perm_insertionSort _ o

theorem increasing_sortKeys {α : Type} {o : List (String × α)} (h : (o.map Prod.fst).Nodup) :
    Increasing (sortKeys o) := by
  have hle : (sortKeys o).Pairwise fun a b => a.1 ≤ b.1 :=
    List.pairwise_map.1 (sorted_insertionSort Prod.fst o)
  have hne : (sortKeys o).Pairwise fun a b => a.1 ≠ b.1 :=
    List.pairwise_map.1 (((perm_sortKeys o).map _).nodup_iff.2 h)
  exact hle.imp₂ (fun _ _ hle hne => lt_of_le_of_ne hle hne) hne

/-- The map that members make which are put into it one after the other. -/
def collect {α : Type} (l : List (String × α)) : List (String × α) :=
  l.foldl (fun o m => put m.1 m.2 o) []

/-- A map holds its members whatever order they came in. -/
theorem collect_eq {α : Type} {l o : List (String × α)} (h : Increasing o) (hp : l.Perm o) :
    collect l = o := by
  have hput : ∀ (l m : List (String × α)), Increasing m → (m.map Prod.fst ++ l.map Prod.fst).Nodup →
      Increasing (l.foldl (fun o m => put m.1 m.2 o) m) ∧
        (l.foldl (fun o m => put m.1 m.2 o) m).Perm (m ++ l) := by
    intro l
    induction l with
    | nil => exact fun m hm _ => ⟨hm, .of_eq (List.append_nil m).symm⟩
    | cons p l ih =>
      intro m hm hn
      have hfresh : ∀ q ∈ m, q.1 ≠ p.1 := fun q hq => (List.nodup_append.1 hn).2.2 _
        (List.mem_map_of_mem hq) _ List.mem_cons_self
      have hperm := perm_put (a := p.2) hfresh
      obtain ⟨hinc, hall⟩ := ih (put p.1 p.2 m) hm.put (by
        refine (List.Perm.nodup_iff ?_).1 hn
        exact ((hperm.map Prod.fst).append_right _).trans List.perm_middle.symm |>.symm)
      exact ⟨hinc, hall.trans ((hperm.append_right l).trans List.perm_middle.symm)⟩
  have hn : (l.map Prod.fst).Nodup :=
    (hp.map Prod.fst).nodup_iff.2 (List.pairwise_map.2 (h.imp fun hlt => hlt.ne))
  obtain ⟨hinc, hall⟩ := hput l [] .nil hn
  exact hinc.eq_of_perm h (hall.trans hp)

/-- The keys of an object are told apart. -/
def Distinct : Json → Prop
  | .obj o => (o.map Prod.fst).Nodup
  | _ => True

/-- The members of an object are in the order of their keys. -/
def Ordered : Json → Prop
  | .obj o => Increasing o
  | _ => True

/-- What the order of members makes of what is so of all values in a value. -/
theorem All.sorted {q : Json → Prop} (h : All p j)
    (hleaf : ∀ j, (∀ items, j ≠ .arr items) → (∀ o, j ≠ .obj o) → p j → q j)
    (harr : ∀ items, p (.arr items) → q (.arr (items.map sorted)))
    (hobj : ∀ o, p (.obj o) → q (.obj (sortKeys (o.map fun m => (m.1, sorted m.2))))) :
    All q j.sorted := by
  induction h with
  | @intro j hself inside ih =>
    rcases j with _ | _ | _ | _ | _ | items | o
    case arr =>
      rw [sorted_arr]
      refine ⟨harr _ hself, fun c hc => ?_⟩
      obtain ⟨d, hd, rfl⟩ := List.mem_map.1 hc
      exact ih d hd
    case obj =>
      rw [sorted_obj]
      refine ⟨hobj _ hself, fun c hc => ?_⟩
      obtain ⟨m, hm, rfl⟩ := List.mem_map.1 hc
      obtain ⟨n, hn, rfl⟩ := List.mem_map.1 ((perm_sortKeys _).mem_iff.1 hm)
      exact ih _ (List.mem_map_of_mem hn)
    all_goals exact ⟨hleaf _ nofun nofun hself, fun c hc => absurd hc List.not_mem_nil⟩

/-- Keys that are told apart are in their order then. -/
theorem all_ordered_sorted (h : All Distinct j) : All Ordered j.sorted := by
  refine h.sorted (fun j _ hobj _ => ?_) (fun _ _ => trivial) fun o ho => ?_
  · rcases j with _ | _ | _ | _ | _ | _ | o
    case obj => exact absurd rfl (hobj o)
    all_goals trivial
  · refine increasing_sortKeys ?_
    rw [List.map_map]
    exact ho

/-! ## Reading -/

section Read

variable {β : Type} {dec : Json → Option β} (h : ∀ j, dec j.sorted = dec j)

theorem asStr_sorted (j : Json) : asStr j.sorted = asStr j := by
  rcases j with _ | _ | _ | _ | _ | _ | _ <;> rfl

theorem asBool_sorted (j : Json) : asBool j.sorted = asBool j := by
  rcases j with _ | _ | _ | _ | _ | _ | _ <;> rfl

theorem asUInt32_sorted (j : Json) : asUInt32 j.sorted = asUInt32 j := by
  rcases j with _ | _ | _ | _ | _ | _ | _ <;> rfl

/-- An object with nothing but one name has one member, in any order. -/
theorem variant_sorted (j : Json) : variant j.sorted = variant j := by
  rcases j with _ | _ | _ | _ | _ | _ | o
  case obj =>
    rw [sorted_obj]
    rcases o with _ | ⟨m, _ | ⟨n, o⟩⟩
    · rfl
    · obtain ⟨k, j⟩ := m
      rcases j with _ | _ | _ | _ | _ | _ | _ <;> rfl
    · have hlen : (sortKeys ((m :: n :: o).map fun m => (m.1, sorted m.2))).length =
          o.length + 2 := by
        rw [(perm_sortKeys _).length_eq, List.length_map]
        rfl
      rcases hs : sortKeys ((m :: n :: o).map fun m => (m.1, sorted m.2)) with _ | ⟨a, _ | ⟨b, r⟩⟩
      · rw [hs] at hlen
        exact absurd hlen (by simp)
      · rw [hs] at hlen
        exact absurd hlen (by simp)
      · rw [hs, variant, variant] <;> simp
  all_goals rfl

/-- Members as a map in the order of keys has them. -/
def SortedOf (o o' : Members) : Prop := ∀ k, o'.lookup k = (o.lookup k).map sorted

/-- A record is read from its members, by their keys. -/
theorem record_sorted {f : Members → Option β} {keys : List String}
    (hf : ∀ {o o'}, SortedOf o o' → f o' = f o) (j : Json) :
    (record keys j.sorted).bind f = (record keys j).bind f := by
  rcases j with _ | _ | _ | _ | _ | items | o
  case arr =>
    rw [sorted_arr, record, record, List.length_map]
    split_ifs
    · rw [Option.bind_some, Option.bind_some]
      refine hf fun k => ?_
      rw [List.zip_map_right]
      exact lookup_map_snd
    · rfl
  case obj =>
    rw [sorted_obj]
    exact hf fun k => lookup_sorted
  all_goals rfl

include h

theorem must_sorted (x : Option Json) : must dec (x.map sorted) = must dec x := by
  rcases x with _ | j
  · rfl
  · exact h j

theorem orDefault_sorted (d : β) (x : Option Json) :
    orDefault dec d (x.map sorted) = orDefault dec d x := by
  rcases x with _ | j
  · rfl
  · rw [Option.map_some, orDefault_some, orDefault_some, h]

theorem may_sorted (x : Option Json) : may dec (x.map sorted) = may dec x := by
  rcases x with _ | j
  · rfl
  by_cases hnull : j = .null
  · rw [hnull]
    rfl
  · have hne : j.sorted ≠ .null := by
      rcases j with _ | _ | _ | _ | _ | _ | _
      · exact absurd rfl hnull
      all_goals nofun
    rw [Option.map_some, may_of_ne_null _ hne, may_of_ne_null _ hnull, h]

theorem listOf_sorted (j : Json) : listOf dec j.sorted = listOf dec j := by
  rcases j with _ | _ | _ | _ | _ | items | _
  case arr =>
    rw [sorted_arr, listOf, listOf, List.mapM_map]
    exact congrArg (fun f => items.mapM f) (funext h)
  all_goals rfl

end Read

end Sorted

end Smrt.Json
