import Mathlib.Order.Compare
import Smrt.Domain.VersionOrder
import Smrt.Registry.Semver

/-!
# Readable versions

A version is dotted numbers if it is nothing else, without what is behind a `+` and without a `v`
before it (`Semver.Dotted`). It is then a tuple of numbers, with as many zeros behind it as one
likes (`Semver.tuple`).

The numbers are read into 64 bits (`Semver.Readable`): comparing is comparing the tuples of what
can be read, and there is no answer for anything else (`Semver.cmp_eq_some`). So it is a total
preorder on what can be read (`Semver.laws`).
-/

namespace Smrt

namespace Semver

/-! ## Dotted numbers -/

/-- What is compared of a version. -/
def core (s : String) : String :=
  let s := upTo '+' (trim s)
  ((stripPrefix s "v").or (stripPrefix s "V")).getD s

/-- The segments of a version. -/
def segmentsOf (s : String) : List (List Char) := (core s).toList.splitOnP fun c => c = '.'

/-- Numbers and dots between them, and nothing else is compared. -/
def Dotted (s : String) : Prop := ∀ seg ∈ segmentsOf s, isDigits seg = true

/-- The numbers of a version. -/
def numbers (s : String) : List ℕ := (segmentsOf s).map fun seg => Nat.ofDigitChars 10 seg 0

/-- All numbers of a version fit into 64 bits. -/
def Fits (s : String) : Prop := ∀ n ∈ numbers s, n < 2 ^ 64

def Readable (s : String) : Prop := Dotted s ∧ Fits s

instance : DecidablePred Dotted := fun s =>
  inferInstanceAs (Decidable (∀ seg ∈ segmentsOf s, isDigits seg = true))

instance : DecidablePred Fits := fun s =>
  inferInstanceAs (Decidable (∀ n ∈ numbers s, n < 2 ^ 64))

instance : DecidablePred Readable := fun _ => inferInstanceAs (Decidable (_ ∧ _))

/-- The numbers of a version in their places, with zeros behind them. -/
def tuple (s : String) : Places := toLex fun i => (numbers s).getD i 0

section Parse

variable {a b c s : String}

/-- There is no `+` in what is compared. -/
theorem not_mem_core : '+' ∉ (core s).toList := by
  intro h
  have hcut : '+' ∉ (upTo '+' (trim s)).toList := by
    rw [upTo, String.toList_ofList]
    intro hm
    exact absurd (List.mem_takeWhile_imp hm) (by decide)
  have hsub : ∀ {t w r : String}, stripPrefix t w = some r → r.toList ⊆ t.toList := by
    intro t w r hr
    rw [stripPrefix_eq_some.1 hr, String.toList_append]
    exact List.subset_append_right _ _
  refine hcut ?_
  rw [core] at h
  rcases hv : (stripPrefix (upTo '+' (trim s)) "v").or (stripPrefix (upTo '+' (trim s)) "V")
    with _ | r
  · simpa only [hv, Option.getD_none] using h
  · simp only [hv, Option.getD_some] at h
    rcases Option.or_eq_some_iff.1 hv with hr | ⟨-, hr⟩ <;> exact hsub hr h

/-- What is in a segment is in the version. -/
theorem mem_of_mem_segmentsOf {seg : List Char} (h : seg ∈ segmentsOf s) {d : Char} (hd : d ∈ seg) :
    d ∈ (core s).toList :=
  (mem_splitOn (c := '.') seg h).2 hd

/-- What is made of all elements, if each has something made of it. -/
theorem mapM_eq_if {α β : Type} {f : α → Option β} {p : α → Prop} {g : α → β} {l : List α}
    (h : ∀ a ∈ l, ∀ y, f a = some y ↔ p a ∧ y = g a) {m : List β} :
    l.mapM f = some m ↔ (∀ a ∈ l, p a) ∧ m = l.map g := by
  induction l generalizing m with
  | nil => simp [eq_comm]
  | cons a l ih =>
    obtain ⟨ha, hl⟩ := List.forall_mem_cons.1 h
    rw [List.mapM_cons, List.forall_mem_cons, List.map_cons]
    constructor
    · intro hm
      obtain ⟨y, hy, hrest⟩ := Option.bind_eq_some_iff.1 hm
      obtain ⟨r, hr, hm⟩ := Option.bind_eq_some_iff.1 hrest
      obtain ⟨hp, rfl⟩ := (ha y).1 hy
      obtain ⟨hall, rfl⟩ := (ih hl).1 hr
      exact ⟨⟨hp, hall⟩, (Option.some.inj hm).symm⟩
    · rintro ⟨⟨hp, hall⟩, rfl⟩
      exact Option.bind_eq_some_iff.2 ⟨_, (ha _).2 ⟨hp, rfl⟩,
        Option.bind_eq_some_iff.2 ⟨_, (ih hl).2 ⟨hall, rfl⟩, rfl⟩⟩

/-- A readable version is read as its numbers. -/
theorem parse_eq_some {l : List UInt64} :
    parse s = some l ↔ Readable s ∧ l = (numbers s).map UInt64.ofNat := by
  have hseg : ∀ seg ∈ segmentsOf s, ∀ x, parseU64 (String.ofList seg) = some x ↔
      (isDigits seg = true ∧ Nat.ofDigitChars 10 seg 0 < 2 ^ 64) ∧
        x = UInt64.ofNat (Nat.ofDigitChars 10 seg 0) := by
    intro seg hs x
    have hplus : '+' ∉ (String.ofList seg).toList := by
      rw [String.toList_ofList]
      exact fun hm => not_mem_core ((mem_of_mem_segmentsOf hs) hm)
    rw [parseU64_eq hplus, String.toList_ofList]
    split_ifs with hif
    · rw [Option.some.injEq, and_iff_right hif, eq_comm]
    · exact iff_of_false nofun fun h => hif h.1
  have hread : parse s = if core s = "" then none
      else (segmentsOf s).mapM fun seg => parseU64 (String.ofList seg) := rfl
  have hall : (∀ seg ∈ segmentsOf s, isDigits seg = true ∧ Nat.ofDigitChars 10 seg 0 < 2 ^ 64) ↔
      Readable s := by
    rw [Readable, Dotted, Fits, numbers, List.forall_mem_map]
    exact ⟨fun h => ⟨fun seg hs => (h seg hs).1, fun seg hs => (h seg hs).2⟩,
      fun h seg hs => ⟨h.1 seg hs, h.2 seg hs⟩⟩
  rw [hread]
  split_ifs with hempty
  · refine iff_of_false nofun fun h => ?_
    have hnil : segmentsOf s = [[]] := by
      rw [segmentsOf, hempty]
      rfl
    exact absurd (h.1.1 [] (hnil ▸ List.mem_singleton_self _)) (by decide)
  · rw [mapM_eq_if hseg, hall, numbers, List.map_map]
    rfl

/-- The numbers that are read are the numbers. -/
theorem placeValues_numbers (h : Fits s) :
    placeValues ((numbers s).map UInt64.ofNat) = tuple s := by
  refine congrArg toLex (funext fun i => ?_)
  have hzero : (UInt64.ofNat 0) = 0 := rfl
  rw [← hzero, List.getD_map]
  rcases Nat.lt_or_ge i (numbers s).length with hi | hi
  · rw [List.getD_eq_getElem _ _ hi]
    exact UInt64.toNat_ofNat_of_lt' (h _ (List.getElem_mem hi))
  · rw [List.getD_eq_default _ _ hi]
    rfl

/-! ## Comparing -/

theorem compareNumbers_swap (a b : List UInt64) :
    compareNumbers b a = (compareNumbers a b).swap := by
  have hplace : ∀ x y : UInt64, compare y x = (compare x y).swap := fun x y =>
    Std.OrientedCmp.eq_swap
  have hplaces : (List.range (max b.length a.length)).map (fun i =>
      compare (b.getD i 0) (a.getD i 0)) = ((List.range (max a.length b.length)).map fun i =>
        compare (a.getD i 0) (b.getD i 0)).map Ordering.swap := by
    rw [List.map_map, max_comm]
    exact List.map_congr_left fun i _ => hplace _ _
  have hfind : ∀ l : List Ordering, ((l.map Ordering.swap).find? fun o => o ≠ .eq).getD .eq =
      ((l.find? fun o => o ≠ .eq).getD .eq).swap := by
    intro l
    induction l with
    | nil => rfl
    | cons o l ih => rcases o <;> first | exact ih | rfl
  rw [compareNumbers, compareNumbers, hplaces, hfind]

/-- Numbers are compared as the tuples are. -/
theorem compareNumbers_eq (a b : List UInt64) :
    compareNumbers a b = compare (placeValues a) (placeValues b) := by
  rcases lt_trichotomy (placeValues a) (placeValues b) with h | h | h
  · rw [compare_lt_iff_lt.2 h, compareNumbers_swap, compareNumbers_eq_gt.2 h]
    rfl
  · rw [compare_eq_iff_eq.2 h]
    rcases ho : compareNumbers a b with _ | _ | _
    · have hswap := compareNumbers_swap a b
      rw [ho] at hswap
      exact absurd h (compareNumbers_eq_gt.1 hswap).ne
    · rfl
    · exact absurd h (compareNumbers_eq_gt.1 ho).ne'
  · rw [compareNumbers_eq_gt.2 h, compare_gt_iff_gt.2 h]

theorem compare_swap (p q : Places) : compare q p = (compare p q).swap := by
  rcases lt_trichotomy p q with h | h | h
  · rw [compare_lt_iff_lt.2 h, compare_gt_iff_gt.2 h]
    rfl
  · rw [compare_eq_iff_eq.2 h, compare_eq_iff_eq.2 h.symm]
    rfl
  · rw [compare_gt_iff_gt.2 h, compare_lt_iff_lt.2 h]
    rfl

/-- What can be read is compared by its tuples. -/
theorem cmp_of_readable (ha : Readable a) (hb : Readable b) :
    cmp a b = some (compare (tuple a) (tuple b)) := by
  have hnumbers : cmp a b = some (compareNumbers ((numbers a).map UInt64.ofNat)
      ((numbers b).map UInt64.ofNat)) := by
    rw [cmp, parse_eq_some.2 ⟨ha, rfl⟩, parse_eq_some.2 ⟨hb, rfl⟩]
    rfl
  rw [hnumbers, compareNumbers_eq, placeValues_numbers ha.2, placeValues_numbers hb.2]

/-- Nothing else is compared. -/
theorem cmp_eq_none : cmp a b = none ↔ ¬ Readable a ∨ ¬ Readable b := by
  constructor
  · intro h
    by_contra hno
    rw [not_or, not_not, not_not] at hno
    rw [cmp_of_readable hno.1 hno.2] at h
    exact absurd h (Option.some_ne_none _)
  · intro h
    rw [cmp]
    rcases hpa : parse a with _ | pa
    · rfl
    rcases hpb : parse b with _ | pb
    · rfl
    exact absurd h (not_or.2 ⟨not_not.2 (parse_eq_some.1 hpa).1, not_not.2 (parse_eq_some.1 hpb).1⟩)

theorem cmp_eq_some {o : Ordering} : cmp a b = some o ↔
    Readable a ∧ Readable b ∧ compare (tuple a) (tuple b) = o := by
  by_cases hab : Readable a ∧ Readable b
  · rw [cmp_of_readable hab.1 hab.2, Option.some.injEq, and_iff_right hab.1, and_iff_right hab.2]
  · rw [cmp_eq_none.2 (not_and_or.1 hab)]
    exact iff_of_false nofun fun h => hab ⟨h.1, h.2.1⟩

/-- What an order of versions is, on what it can read. -/
structure Laws (a b c : String) : Prop where
  refl : Readable a → cmp a a = some .eq
  total : Readable a → Readable b → ∃ o, cmp a b = some o ∧ cmp b a = some o.swap
  trans : ∀ o o', cmp a b = some o → o ≠ .gt → cmp b c = some o' → o' ≠ .gt →
    ∃ o'', cmp a c = some o'' ∧ o'' ≠ .gt ∧ (o'' = .eq → o = .eq ∧ o' = .eq)

theorem laws (a b c : String) : Laws a b c where
  refl ha := cmp_eq_some.2 ⟨ha, ha, compare_eq_iff_eq.2 rfl⟩
  total ha hb := ⟨_, cmp_eq_some.2 ⟨ha, hb, rfl⟩, cmp_eq_some.2 ⟨hb, ha, (compare_swap _ _)⟩⟩
  trans o o' h ho h' ho' := by
    obtain ⟨ha, hb, rfl⟩ := cmp_eq_some.1 h
    obtain ⟨-, hc, rfl⟩ := cmp_eq_some.1 h'
    rw [ne_eq, compare_gt_iff_gt, not_lt] at ho ho'
    refine ⟨_, cmp_eq_some.2 ⟨ha, hc, rfl⟩, ?_, fun he => ?_⟩
    · rw [ne_eq, compare_gt_iff_gt, not_lt]
      exact ho.trans ho'
    · rw [compare_eq_iff_eq] at he
      rw [compare_eq_iff_eq, compare_eq_iff_eq]
      exact ⟨le_antisymm ho (ho'.trans he.symm.le), le_antisymm ho' (he.symm.le.trans ho)⟩

end Parse

end Semver

end Smrt
