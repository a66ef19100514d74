import Smrt.Lib.Lines
import Smrt.Registry.Readable

/-!
# Windows of versions

A window is an operator and a version, a range, or one version in brackets (`Window`). What is
answered of it, where it is answered, is whether the tuple of a version is in it, and for that the
version and the bounds that are needed have been read (`window_exact`, `readable_or_openBoth`).

Of a window that is open at both ends nothing has to be read, so every version is in it
(`inRange_of_openBoth`).
-/

namespace Smrt

namespace Semver

/-! ## What windows say -/

/-- A window: an operator and a version, a range, or one version in brackets. -/
inductive Window
  | bound (op : Op) (version : String)
  | pair (lowerInc : Bool) (lo hi : String) (upperInc : Bool)
  | single (version : String)

/-- What a version is compared with stands behind an operator, or is all there is. -/
def comparators : List (String × Op) := operators ++ [("", .ge)]

def opening (inclusive : Bool) : String := if inclusive then "[" else "("

def closing (inclusive : Bool) : String := if inclusive then "]" else ")"

/-- A text in which no range ends. -/
def Unclosed (l : List Char) : Prop := ']' ∉ l ∧ ')' ∉ l

instance : DecidablePred Unclosed := fun _ => inferInstanceAs (Decidable (_ ∧ _))

/-- What is written as a window. -/
def Describes (range : String) : Window → Prop
  | .bound op version => Dotted version ∧
      ∃ p ∈ comparators, p.2 = op ∧ trim range = p.1 ++ version
  | .pair lowerInc lo hi upperInc => ',' ∉ lo.toList ∧ Unclosed lo.toList ∧ Unclosed hi.toList ∧
      trim range = opening lowerInc ++ lo ++ "," ++ hi ++ closing upperInc
  | .single version => ',' ∉ version.toList ∧ Unclosed version.toList ∧
      ∃ lowerInc upperInc, trim range = opening lowerInc ++ version ++ closing upperInc

/-- What is not below the lower end of a range. -/
def AtLeast (lowerInc : Bool) (lo : String) (p : Places) : Prop :=
  trim lo ≠ "" → if lowerInc then tuple lo ≤ p else tuple lo < p

def AtMost (upperInc : Bool) (hi : String) (p : Places) : Prop :=
  trim hi ≠ "" → if upperInc then p ≤ tuple hi else p < tuple hi

/-- The tuples in a window. -/
def Window.Contains (p : Places) : Window → Prop
  | .bound .ge v | .bound .lower v => tuple v ≤ p
  | .bound .gt v => tuple v < p
  | .bound .le v => p ≤ tuple v
  | .bound .lt v => p < tuple v
  | .bound .eq v => p = tuple v
  | .pair lowerInc lo hi upperInc => AtLeast lowerInc lo p ∧ AtMost upperInc hi p
  | .single v => p = tuple v

/-- The bounds of a window that are needed to tell whether a tuple is in it can be read. -/
def Window.Needed (p : Places) : Window → Prop
  | .bound _ v => Readable v
  | .pair lowerInc lo hi _ => (trim lo ≠ "" → Readable lo) ∧
      (AtLeast lowerInc lo p → trim hi ≠ "" → Readable hi)
  | .single v => Readable v

/-- A window that is open at both ends. -/
def OpenBoth (range : String) : Prop := ∃ lowerInc lo hi upperInc,
  Describes range (.pair lowerInc lo hi upperInc) ∧ trim lo = "" ∧ trim hi = ""

/-! ## The ends of a text -/

/-- A text that begins with a bracket. -/
def Bracketed (range : String) : Prop :=
  (trim range).toList.head? = some '[' ∨ (trim range).toList.head? = some '('

/-- What is read as the lower end of a range: what is before the first comma. -/
def lowerText (range : String) : String :=
  trim (String.ofList ((trim range).toList.tail.dropLast.takeWhile fun c => c ≠ ','))

/-- What is read as the upper end of a range, if there is a comma. -/
def upperText (range : String) : Option String :=
  match (trim range).toList.tail.dropLast.dropWhile fun c => c ≠ ',' with
  | [] => none
  | _ :: rest => some (trim (String.ofList rest))

/-- What both ends of a range say: the upper one is asked only of what the lower one lets in. -/
def bothEnds (low high : Option Bool) : Option Bool :=
  match low with
  | some true => high
  | answer => answer

@[simp] theorem bothEnds_true {high : Option Bool} : bothEnds (some true) high = high := rfl

@[simp] theorem bothEnds_false {high : Option Bool} : bothEnds (some false) high = some false := rfl

/-- A text that ends with a bracket that closes. -/
def ClosedText (range : String) : Prop :=
  (trim range).toList.getLast? = some ']' ∨ (trim range).toList.getLast? = some ')'

section Text

variable {s v w range version : String} {l : List Char} {c : Char}

/-- Of what is compared of a version that is dotted numbers, there are only digits, dots and a `v`.
    -/
theorem mem_of_dotted (h : Dotted s) {d : Char} (hd : d ∈ (upTo '+' (trim s)).toList) :
    d.isDigit = true ∨ d = '.' ∨ d = 'v' ∨ d = 'V' := by
  have hcore : d ∈ (core s).toList ∨ d = 'v' ∨ d = 'V' := by
    rw [core]
    rcases hv : (stripPrefix (upTo '+' (trim s)) "v").or (stripPrefix (upTo '+' (trim s)) "V")
      with _ | r
    · simp only [Option.getD_none]
      exact .inl hd
    · simp only [Option.getD_some]
      rcases Option.or_eq_some_iff.1 hv with hr | ⟨-, hr⟩
      · rw [stripPrefix_eq_some.1 hr, String.toList_append] at hd
        exact (List.mem_append.1 hd).symm.imp_right fun hd => .inl (List.mem_singleton.1 hd)
      · rw [stripPrefix_eq_some.1 hr, String.toList_append] at hd
        exact (List.mem_append.1 hd).symm.imp_right fun hd => .inr (List.mem_singleton.1 hd)
  rcases hcore with hmem | hletter
  · rcases mem_splitOnP (p := fun c => c = '.') hmem with hdot | ⟨seg, hs, hin⟩
    · exact .inr (.inl (of_decide_eq_true hdot))
    · have hdigits := h seg hs
      simp only [isDigits, decide_eq_true_eq, List.all_eq_true] at hdigits
      exact .inl (hdigits.2 d hin)
  · exact .inr (.inr hletter)

theorem core_trim : core (trim s) = core s := by
  rw [core, core, trim_trim]

theorem dotted_trim : Dotted (trim s) ↔ Dotted s := by
  rw [Dotted, Dotted, segmentsOf, segmentsOf, core_trim]

theorem readable_trim : Readable (trim s) ↔ Readable s := by
  rw [Readable, Readable, dotted_trim, Fits, Fits, numbers, numbers, segmentsOf, segmentsOf,
    core_trim]

theorem tuple_trim : tuple (trim s) = tuple s := by
  rw [tuple, tuple, numbers, numbers, segmentsOf, segmentsOf, core_trim]

/-- White space goes at the start and at the end of a text that has something else in it. -/
theorem toList_trim_append {r : List Char} (hc : isWhiteSpace c = false) :
    (trim (String.ofList (l ++ c :: r))).toList =
      l.dropWhile isWhiteSpace ++ c :: r.rdropWhile isWhiteSpace := by
  have hneg : ¬ isWhiteSpace c = true := Bool.eq_false_iff.1 hc
  have hright : ∀ u : List Char, (u ++ c :: r).rdropWhile isWhiteSpace =
      u ++ c :: r.rdropWhile isWhiteSpace := by
    intro u
    rw [List.rdropWhile, List.rdropWhile, List.reverse_append, List.reverse_cons, List.append_assoc,
      List.singleton_append, List.dropWhile_append]
    split_ifs with hall
    · rw [List.isEmpty_iff.1 hall, List.dropWhile_cons_of_neg hneg]
      simp
    · simp
  rw [toList_trim, String.toList_ofList, List.dropWhile_append]
  split_ifs with hall
  · rw [List.isEmpty_iff.1 hall, List.dropWhile_cons_of_neg hneg]
    exact hright []
  · exact hright _

/-- How a version that is dotted numbers begins. -/
theorem head_of_dotted (h : Dotted s) : ∃ d r, s.toList = d :: r ∧
    (isWhiteSpace d = true ∨ d.isDigit = true ∨ d = '.' ∨ d = 'v' ∨ d = 'V') := by
  have hne : (upTo '+' (trim s)).toList ≠ [] := by
    intro hnil
    have hcore : core s = "" := by
      rw [core, String.toList_eq_nil_iff.1 hnil]
      rfl
    have hsegments : segmentsOf s = [[]] := by
      rw [segmentsOf, hcore]
      rfl
    exact absurd (h [] (hsegments ▸ List.mem_singleton_self _)) (by decide)
  rcases hs : s.toList with _ | ⟨d, r⟩
  · refine absurd ?_ hne
    rw [upTo, toList_trim, hs]
    rfl
  · refine ⟨d, r, rfl, ?_⟩
    by_cases hd : isWhiteSpace d = true
    · exact .inl hd
    refine .inr (mem_of_dotted h ?_)
    -- What begins the text without white space before it is not cut off.
    have hhead : ∃ r', (trim s).toList = d :: r' := by
      have hp := List.rdropWhile_prefix isWhiteSpace (l := s.toList.dropWhile isWhiteSpace)
      rw [toList_trim, hs, List.dropWhile_cons_of_neg hd]
      rw [hs, List.dropWhile_cons_of_neg hd] at hp
      rcases hr : (d :: r).rdropWhile isWhiteSpace with _ | ⟨e, r'⟩
      · exact absurd (List.rdropWhile_eq_nil_iff.1 hr d List.mem_cons_self) hd
      · rw [hr] at hp
        exact ⟨r', by rw [(List.cons_prefix_cons.1 hp).1]⟩
    obtain ⟨r', hr'⟩ := hhead
    rw [upTo, hr', String.toList_ofList] at hne ⊢
    by_cases hplus : d = '+'
    · simp [hplus] at hne
    · simp [hplus]

/-! ## Operators -/

/-- What is split off is an operator, or nothing, and the bound is behind it. -/
theorem splitOp_spec (r : String) :
    ∃ p ∈ comparators, p.2 = (splitOp r).1 ∧ r = p.1 ++ (splitOp r).2 := by
  rcases hf : operators.findSome? fun p => (stripPrefix r p.1).map fun rest => (p.2, rest)
    with _ | ⟨op, bound⟩
  · rw [splitOp, hf]
    exact ⟨("", .ge), by decide, rfl, String.empty_append.symm⟩
  · obtain ⟨l₁, p, l₂, hl, hp, -⟩ := List.findSome?_eq_some_iff.1 hf
    obtain ⟨rest, hrest, he⟩ := Option.map_eq_some_iff.1 hp
    obtain ⟨rfl, rfl⟩ := Prod.mk.inj he
    have hmem : p ∈ operators := hl ▸ List.mem_append_right _ List.mem_cons_self
    rw [splitOp, hf]
    exact ⟨p, List.mem_append_left _ hmem, rfl, stripPrefix_eq_some.1 hrest⟩

/-- The letters of operators. -/
def isOperator (c : Char) : Bool := c ∈ ['>', '<', '=', '~', '^']

/-- A text is an operator and dotted numbers in one way. -/
theorem comparator_unique {p q : String × Op} (hp : p ∈ comparators) (hq : q ∈ comparators)
    (hv : Dotted v) (hw : Dotted w) (h : p.1 ++ v = q.1 ++ w) : p = q ∧ v = w := by
  have htable : ∀ p ∈ comparators, p.1.toList.all isOperator = true := by decide
  have hkeys : (comparators.map Prod.fst).Nodup := by decide
  have hcut : ∀ {p : String × Op} {v : String}, p ∈ comparators → Dotted v →
      (p.1 ++ v).toList.takeWhile isOperator = p.1.toList := by
    intro p v hp hv
    obtain ⟨d, r, hd, hkind⟩ := head_of_dotted hv
    have hno : isOperator d = false := by
      refine decide_eq_false fun hmem => ?_
      simp only [List.mem_cons, List.not_mem_nil, or_false] at hmem
      rcases hmem with rfl | rfl | rfl | rfl | rfl <;> exact absurd hkind (by decide)
    rw [String.toList_append, List.takeWhile_append_of_pos
      (fun c hc => List.all_eq_true.1 (htable p hp) c hc), hd,
      List.takeWhile_cons_of_neg (Bool.eq_false_iff.1 hno), List.append_nil]
  have hsame : p.1 = q.1 := by
    rw [← String.toList_inj, ← hcut hp hv, ← hcut hq hw, h]
  obtain rfl := List.inj_on_of_nodup_map hkeys hp hq hsame
  exact ⟨rfl, (String.append_right_inj _).1 h⟩

/-! ## What is answered -/

theorem inRange_of_bracketed (h : Bracketed range) :
    inRange version range = interval version (trim range) := by
  have hhead : ∀ {t : String}, t = "" ∨ t = "*" ∨ t.toList.map Char.toLower = "any".toList →
      t.toList.head? ≠ some '[' ∧ t.toList.head? ≠ some '(' := by
    rintro t (rfl | rfl | ht)
    · decide
    · decide
    · rcases hl : t.toList with _ | ⟨c, r⟩
      · rw [hl] at ht
        exact absurd ht (by decide)
      · rw [hl] at ht
        have hc : c.toLower = 'a' := (List.cons.inj ht).1
        constructor
        all_goals
          intro he
          rw [Option.some.inj he] at hc
          exact absurd hc (by decide)
  rw [inRange, if_neg fun ht => h.elim (hhead ht).1 (hhead ht).2]
  exact if_pos h

theorem answer_of_not_bracketed (h : ¬ Bracketed range) {b : Bool}
    (hb : inRange version range = some b) :
    (cmp version (trim (splitOp (trim range)).2)).map (splitOp (trim range)).1.admits = some b := by
  rw [inRange] at hb
  split_ifs at hb with hnone hopen
  · exact absurd hopen h
  · rcases hp : splitOp (trim range) with ⟨op, bound⟩
    rw [hp] at hb
    exact hb

theorem interval_of_not_closed (h : ¬ ClosedText range) : interval version (trim range) = none :=
  if_pos (not_or.1 h)

theorem interval_single (hclosed : ClosedText range) (h : upperText range = none) :
    interval version (trim range) =
      (cmp version (lowerText range)).map fun ord => decide (ord = .eq) := by
  rw [upperText] at h
  rcases hd : (trim range).toList.tail.dropLast.dropWhile fun c => c ≠ ',' with _ | ⟨d, rest⟩
  · rw [interval, if_neg fun hno => hclosed.elim hno.1 hno.2]
    simp only [hd]
    rw [lowerText]
  · rw [hd] at h
    exact absurd h (Option.some_ne_none _)

theorem interval_pair {hi : String} (hclosed : ClosedText range) (h : upperText range = some hi) :
    interval version (trim range) =
      bothEnds (withinEnd version (lowerText range) ((trim range).toList.head? = some '[') .gt)
        (withinEnd version hi ((trim range).toList.getLast? = some ']') .lt) := by
  rw [upperText] at h
  rcases hd : (trim range).toList.tail.dropLast.dropWhile fun c => c ≠ ',' with _ | ⟨d, rest⟩
  · rw [hd] at h
    exact absurd h.symm (Option.some_ne_none _)
  · rw [hd] at h
    rw [interval, if_neg fun hno => hclosed.elim hno.1 hno.2]
    simp only [hd]
    rw [← Option.some.inj h, lowerText]
    generalize withinEnd version _ _ Ordering.gt = low
    rcases low with _ | _ | _ <;> rfl

/-- Where one end of a range is read, it is open, or the version is compared with it. -/
theorem withinEnd_eq_some {bound : String} {inclusive b : Bool} {within : Ordering} :
    withinEnd version bound inclusive within = some b ↔ (bound = "" ∧ b = true) ∨
      bound ≠ "" ∧ ∃ o, cmp version bound = some o ∧
        b = decide (o = within ∨ (o = .eq ∧ inclusive = true)) := by
  rw [withinEnd]
  split_ifs with h
  · simp [h, eq_comm]
  · simp [h, eq_comm]

end Text

/-! ## Single windows -/

section Single

variable {range version lo hi : String} {inner l r : List Char} {o c : Char} {b inclusive : Bool}

/-- A version is compared with the lower end of a range. -/
theorem withinEnd_lower (h : withinEnd version (trim lo) inclusive .gt = some b) :
    (trim lo ≠ "" → Readable version ∧ Readable lo) ∧
      (b = true ↔ AtLeast inclusive lo (tuple version)) := by
  rcases withinEnd_eq_some.1 h with ⟨hlo, rfl⟩ | ⟨hlo, ord, hord, rfl⟩
  · exact ⟨fun hne => absurd hlo hne, iff_of_true rfl fun hne => absurd hlo hne⟩
  · obtain ⟨hv, hr, rfl⟩ := cmp_eq_some.1 hord
    refine ⟨fun _ => ⟨hv, readable_trim.1 hr⟩, ?_⟩
    rw [decide_eq_true_iff, compare_gt_iff_gt, compare_eq_iff_eq, tuple_trim, AtLeast]
    refine Iff.trans ?_ (forall_prop_of_true hlo).symm
    rcases inclusive with _ | _
    · simp
    · simp [le_iff_lt_or_eq, eq_comm]

theorem withinEnd_upper (h : withinEnd version (trim hi) inclusive .lt = some b) :
    (trim hi ≠ "" → Readable version ∧ Readable hi) ∧
      (b = true ↔ AtMost inclusive hi (tuple version)) := by
  rcases withinEnd_eq_some.1 h with ⟨hhi, rfl⟩ | ⟨hhi, ord, hord, rfl⟩
  · exact ⟨fun hne => absurd hhi hne, iff_of_true rfl fun hne => absurd hhi hne⟩
  · obtain ⟨hv, hr, rfl⟩ := cmp_eq_some.1 hord
    refine ⟨fun _ => ⟨hv, readable_trim.1 hr⟩, ?_⟩
    rw [decide_eq_true_iff, compare_lt_iff_lt, compare_eq_iff_eq, tuple_trim, AtMost]
    refine Iff.trans ?_ (forall_prop_of_true hhi).symm
    rcases inclusive with _ | _
    · simp
    · simp [le_iff_lt_or_eq]

/-- What is between the first letter of a text and the last. -/
theorem ends_of_toList (h : (trim range).toList = o :: (inner ++ [c])) :
    lowerText range = trim (String.ofList (inner.takeWhile fun d => d ≠ ',')) ∧
      (',' ∉ inner → upperText range = none) ∧
      (∀ l r, ',' ∉ l → inner = l ++ ',' :: r → (inner.takeWhile fun d => d ≠ ',') = l ∧
        upperText range = some (trim (String.ofList r))) := by
  have hinner : (trim range).toList.tail.dropLast = inner := by
    rw [h, List.tail_cons, List.dropLast_concat]
  refine ⟨by rw [lowerText, hinner], fun hno => ?_, fun l r hl hr => ?_⟩
  · have hnil : (inner.dropWhile fun d => d ≠ ',') = [] :=
      List.dropWhile_eq_nil_iff.2 fun d hd => decide_eq_true fun he => hno (he ▸ hd)
    rw [upperText, hinner, hnil]
  · have hall : ∀ d ∈ l, decide (d ≠ ',') = true := fun d hd =>
      decide_eq_true fun he => hl (he ▸ hd)
    constructor
    · rw [hr, List.takeWhile_append_of_pos hall]
      simp
    · rw [upperText, hinner, hr, List.dropWhile_append_of_pos hall]
      simp

/-- The letters of a pair. -/
theorem toList_pair {lowerInc upperInc : Bool}
    (h : Describes range (.pair lowerInc lo hi upperInc)) : ∃ o c,
      (trim range).toList = o :: ((lo.toList ++ ',' :: hi.toList) ++ [c]) ∧
        (o = '[' ∨ o = '(') ∧ (c = ']' ∨ c = ')') ∧ (lowerInc = true ↔ o = '[') ∧
        (upperInc = true ↔ c = ']') := by
  obtain ⟨-, -, -, h⟩ := h
  refine ⟨if lowerInc then '[' else '(', if upperInc then ']' else ')', ?_, ?_⟩
  · rw [h]
    rcases lowerInc with _ | _ <;> rcases upperInc with _ | _ <;> simp [opening, closing]
  · rcases lowerInc with _ | _ <;> rcases upperInc with _ | _ <;> decide

theorem toList_single (h : Describes range (.single version)) : ∃ o c,
    (trim range).toList = o :: (version.toList ++ [c]) ∧ (o = '[' ∨ o = '(') ∧
      (c = ']' ∨ c = ')') := by
  obtain ⟨-, -, lowerInc, upperInc, h⟩ := h
  refine ⟨if lowerInc then '[' else '(', if upperInc then ']' else ')', ?_, ?_⟩
  · rw [h]
    rcases lowerInc with _ | _ <;> rcases upperInc with _ | _ <;> simp [opening, closing]
  · rcases lowerInc with _ | _ <;> rcases upperInc with _ | _ <;> decide

/-- A text in brackets. -/
theorem bracketed_of_toList (h : (trim range).toList = o :: (inner ++ [c])) :
    (Bracketed range ↔ o = '[' ∨ o = '(') ∧ (ClosedText range ↔ c = ']' ∨ c = ')') := by
  have hlast : (trim range).toList.getLast? = some c := by
    rw [h, ← List.cons_append, List.getLast?_concat]
  constructor
  · rw [Bracketed, h, List.head?_cons, Option.some_inj, Option.some_inj]
  · rw [ClosedText, hlast, Option.some_inj, Option.some_inj]

/-- What is written as a bound does not begin with a bracket. -/
theorem not_bracketed_of_bound {op : Op} {v : String} (h : Describes range (.bound op v)) :
    ¬ Bracketed range := by
  obtain ⟨hv, p, hp, -, ht⟩ := h
  obtain ⟨d, r, hd, hkind⟩ := head_of_dotted hv
  have htable : ∀ p ∈ comparators, p.1.toList.head? ≠ some '[' ∧ p.1.toList.head? ≠ some '(' := by
    decide
  have hhead : d ≠ '[' ∧ d ≠ '(' := by
    constructor
    all_goals
      rintro rfl
      exact absurd hkind (by decide)
  rw [Bracketed, ht, String.toList_append, hd]
  rcases hl : p.1.toList with _ | ⟨e, l⟩
  · rw [List.nil_append, List.head?_cons, Option.some_inj, Option.some_inj]
    exact not_or.2 hhead
  · have hp := htable p hp
    rw [hl] at hp
    rw [List.cons_append]
    exact not_or.2 hp

theorem Op.admits_compare {op : Op} {p : Places} {v : String} :
    op.admits (compare p (tuple v)) = true ↔ (Window.bound op v).Contains p := by
  rcases op with _ | _ | _ | _ | _ | _
  all_goals simp [Op.admits, Window.Contains, compare_lt_iff_lt, compare_gt_iff_gt]

/-- A bound that is compared with. -/
theorem bound_exact {op : Op} {v : String} (h : Describes range (.bound op v))
    (hb : inRange version range = some b) : Readable version ∧
      (Window.bound op v).Needed (tuple version) ∧
        (b = true ↔ (Window.bound op v).Contains (tuple version)) := by
  have hanswer := answer_of_not_bracketed (not_bracketed_of_bound h) hb
  obtain ⟨hv, p, hp, rfl, ht⟩ := h
  obtain ⟨q, hq, hop, hsplit⟩ := splitOp_spec (trim range)
  obtain ⟨ord, hord, rfl⟩ := Option.map_eq_some_iff.1 hanswer
  obtain ⟨hversion, hbound, rfl⟩ := cmp_eq_some.1 hord
  obtain ⟨rfl, rfl⟩ := comparator_unique hp hq hv (readable_trim.1 hbound).1 (ht.symm.trans hsplit)
  refine ⟨hversion, readable_trim.1 hbound, ?_⟩
  rw [hop, tuple_trim]
  exact Op.admits_compare

/-- What is answered of a pair. -/
theorem inRange_pair {lowerInc upperInc : Bool}
    (h : Describes range (.pair lowerInc lo hi upperInc)) : inRange version range =
      bothEnds (withinEnd version (trim lo) lowerInc .gt)
        (withinEnd version (trim hi) upperInc .lt) := by
  obtain ⟨o, c, htext, ho, hc, hlower, hupper⟩ := toList_pair h
  obtain ⟨hbracketed, hclosed⟩ := bracketed_of_toList htext
  obtain ⟨hlo, -, hpair⟩ := ends_of_toList htext
  obtain ⟨htake, hhi⟩ := hpair _ _ h.1 rfl
  rw [htake, String.ofList_toList] at hlo
  rw [String.ofList_toList] at hhi
  have hfirst : decide ((trim range).toList.head? = some '[') = lowerInc := by
    rw [Bool.eq_iff_iff, decide_eq_true_iff, hlower, htext, List.head?_cons, Option.some_inj]
  have hlast : decide ((trim range).toList.getLast? = some ']') = upperInc := by
    rw [Bool.eq_iff_iff, decide_eq_true_iff, hupper, htext, ← List.cons_append,
      List.getLast?_concat, Option.some_inj]
  rw [inRange_of_bracketed (hbracketed.2 ho), interval_pair (hclosed.2 hc) hhi, hlo, hfirst, hlast]

theorem pair_exact {lowerInc upperInc : Bool}
    (h : Describes range (.pair lowerInc lo hi upperInc)) (hb : inRange version range = some b) :
    (trim lo ≠ "" ∨ trim hi ≠ "" → Readable version) ∧
      (Window.pair lowerInc lo hi upperInc).Needed (tuple version) ∧
        (b = true ↔ (Window.pair lowerInc lo hi upperInc).Contains (tuple version)) := by
  rw [inRange_pair h] at hb
  rcases hlo : withinEnd version (trim lo) lowerInc .gt with _ | _ | _
  · rw [hlo] at hb
    exact absurd hb.symm (Option.some_ne_none _)
  · -- The other end is not looked at.
    rw [hlo, bothEnds_false] at hb
    obtain ⟨hread, hat⟩ := withinEnd_lower hlo
    have hno : ¬ AtLeast lowerInc lo (tuple version) := fun hin => Bool.false_ne_true (hat.2 hin)
    have hne : trim lo ≠ "" := fun hempty => hno fun hne => absurd hempty hne
    refine ⟨fun _ => (hread hne).1, ⟨fun _ => (hread hne).2, fun hin => absurd hin hno⟩, ?_⟩
    exact iff_of_false (fun ht => Bool.false_ne_true ((Option.some.inj hb).trans ht))
      fun hin => hno hin.1
  · rw [hlo, bothEnds_true] at hb
    obtain ⟨hread, hat⟩ := withinEnd_lower hlo
    obtain ⟨hread', hat'⟩ := withinEnd_upper hb
    refine ⟨fun hne => hne.elim (fun h => (hread h).1) fun h => (hread' h).1,
      ⟨fun hne => (hread hne).2, fun _ hne => (hread' hne).2⟩, ?_⟩
    exact hat'.trans (and_iff_right (hat.1 rfl)).symm

theorem single_exact (h : Describes range (.single lo)) (hb : inRange version range = some b) :
    Readable version ∧ (Window.single lo).Needed (tuple version) ∧
      (b = true ↔ (Window.single lo).Contains (tuple version)) := by
  obtain ⟨o, c, htext, ho, hc⟩ := toList_single h
  obtain ⟨hbracketed, hclosed⟩ := bracketed_of_toList htext
  obtain ⟨hlo, hnone, -⟩ := ends_of_toList htext
  have htake : (lo.toList.takeWhile fun d => d ≠ ',') = lo.toList :=
    List.takeWhile_eq_self_iff.2 fun d hd => decide_eq_true fun he => h.1 (he ▸ hd)
  rw [htake, String.ofList_toList] at hlo
  rw [inRange_of_bracketed (hbracketed.2 ho), interval_single (hclosed.2 hc) (hnone h.1),
    hlo] at hb
  obtain ⟨ord, hord, rfl⟩ := Option.map_eq_some_iff.1 hb
  obtain ⟨hv, hr, rfl⟩ := cmp_eq_some.1 hord
  refine ⟨hv, readable_trim.1 hr, ?_⟩
  rw [decide_eq_true_iff, compare_eq_iff_eq, tuple_trim, Window.Contains]

/-- What is told of a window is so. -/
theorem window_exact {w : Window} (h : Describes range w) (hb : inRange version range = some b) :
    w.Needed (tuple version) ∧ (b = true ↔ w.Contains (tuple version)) := by
  rcases w with ⟨op, v⟩ | ⟨lowerInc, lo, hi, upperInc⟩ | ⟨v⟩
  · exact (bound_exact h hb).2
  · exact (pair_exact h hb).2
  · exact (single_exact h hb).2

/-- Without brackets, only a bound is answered. -/
theorem exists_bound (h : ¬ Bracketed range) (hb : inRange version range = some b) :
    Readable version ∧ ∃ op v, Describes range (.bound op v) := by
  have hanswer := answer_of_not_bracketed h hb
  obtain ⟨p, hp, hop, hsplit⟩ := splitOp_spec (trim range)
  obtain ⟨ord, hord, rfl⟩ := Option.map_eq_some_iff.1 hanswer
  obtain ⟨hversion, hbound, -⟩ := cmp_eq_some.1 hord
  exact ⟨hversion, _, _, (readable_trim.1 hbound).1, p, hp, hop, hsplit⟩

/-- A text in brackets has a first letter and a last one. -/
theorem exists_inner (hbracketed : Bracketed range) (hclosed : ClosedText range) :
    ∃ o inner c, (trim range).toList = o :: (inner ++ [c]) ∧ (o = '[' ∨ o = '(') ∧
      (c = ']' ∨ c = ')') := by
  rcases ht : (trim range).toList with _ | ⟨o, text⟩
  · rw [Bracketed, ht] at hbracketed
    simp at hbracketed
  rcases List.eq_nil_or_concat text with rfl | ⟨inner, c, rfl⟩
  · rw [Bracketed, ht, List.head?_cons, Option.some_inj, Option.some_inj] at hbracketed
    rw [ClosedText, ht, List.getLast?_singleton, Option.some_inj, Option.some_inj] at hclosed
    rcases hbracketed with rfl | rfl <;> exact absurd hclosed (by decide)
  · obtain ⟨hopen, hclose⟩ := bracketed_of_toList (ht.trans (by rw [List.concat_eq_append]))
    exact ⟨o, inner, c, by rw [List.concat_eq_append], hopen.1 hbracketed, hclose.1 hclosed⟩

theorem isWhiteSpace_of_trim_eq (h : trim version = "") :
    ∀ d ∈ version.toList, isWhiteSpace d = true := by
  rw [← String.toList_eq_nil_iff, toList_trim, List.rdropWhile_eq_nil_iff] at h
  intro d hd
  rw [← List.takeWhile_append_dropWhile (p := isWhiteSpace) (l := version.toList)] at hd
  rcases List.mem_append.1 hd with hd | hd
  · exact List.mem_takeWhile_imp hd
  · exact h d hd

/-- A text between the brackets, at its first comma. -/
theorem describes_pair (h : (trim range).toList = o :: (inner ++ [c])) (ho : o = '[' ∨ o = '(')
    (hc : c = ']' ∨ c = ')') (hinner : inner = l ++ ',' :: r) (hl : ',' ∉ l) (hlo : Unclosed l)
    (hhi : Unclosed r) :
    Describes range (.pair (o = '[') (String.ofList l) (String.ofList r) (c = ']')) := by
  rw [Describes, String.toList_ofList, String.toList_ofList]
  refine ⟨hl, hlo, hhi, ?_⟩
  rw [← String.toList_inj, h, hinner]
  rcases ho with rfl | rfl <;> rcases hc with rfl | rfl <;> simp [opening, closing]

theorem describes_single (h : (trim range).toList = o :: (inner ++ [c])) (ho : o = '[' ∨ o = '(')
    (hc : c = ']' ∨ c = ')') (hcomma : ',' ∉ inner) (hinner : Unclosed inner) :
    Describes range (.single (String.ofList inner)) := by
  rw [Describes, String.toList_ofList]
  refine ⟨hcomma, hinner, decide (o = '['), decide (c = ']'), ?_⟩
  rw [← String.toList_inj, h]
  rcases ho with rfl | rfl <;> rcases hc with rfl | rfl <;> simp [opening, closing]

/-- An answer is that of an end, of one version, or there is nothing to ask. -/
theorem readable_or_openBoth (hb : inRange version range = some b) :
    Readable version ∨ OpenBoth range := by
  by_cases hbracketed : Bracketed range
  swap
  · exact .inl (exists_bound hbracketed hb).1
  rw [inRange_of_bracketed hbracketed] at hb
  by_cases hclosed : ClosedText range
  swap
  · rw [interval_of_not_closed hclosed] at hb
    exact absurd hb.symm (Option.some_ne_none _)
  obtain ⟨o, inner, c, htext, ho, hc⟩ := exists_inner hbracketed hclosed
  obtain ⟨hlo, hnone, hpair⟩ := ends_of_toList htext
  by_cases hcomma : ',' ∈ inner
  · obtain ⟨l, r, hinner, hl⟩ := List.eq_append_cons_of_mem hcomma
    obtain ⟨htake, hup⟩ := hpair l r hl hinner
    rw [htake] at hlo
    rw [interval_pair hclosed hup, hlo] at hb
    have hends : trim (String.ofList l) = "" → trim (String.ofList r) = "" → OpenBoth range := by
      intro hl' hr'
      have hunclosed : ∀ {t : List Char}, trim (String.ofList t) = "" → Unclosed t := by
        intro t ht
        have hwhite := isWhiteSpace_of_trim_eq ht
        rw [String.toList_ofList] at hwhite
        exact ⟨fun hd => absurd (hwhite _ hd) (by decide), fun hd => absurd (hwhite _ hd) (by decide)⟩
      exact ⟨_, _, _, _, describes_pair htext ho hc hinner hl (hunclosed hl') (hunclosed hr'),
        hl', hr'⟩
    rcases hlow : withinEnd version (trim (String.ofList l)) ((trim range).toList.head? = some '[')
      .gt with _ | _ | _
    · rw [hlow] at hb
      exact absurd hb.symm (Option.some_ne_none _)
    · by_cases hne : trim (String.ofList l) = ""
      · exact absurd ((withinEnd_lower hlow).2.2 fun h => absurd hne h) Bool.false_ne_true
      · exact .inl ((withinEnd_lower hlow).1 hne).1
    · rw [hlow, bothEnds_true] at hb
      by_cases hne : trim (String.ofList l) = ""
      · by_cases hne' : trim (String.ofList r) = ""
        · exact .inr (hends hne hne')
        · exact .inl ((withinEnd_upper hb).1 hne').1
      · exact .inl ((withinEnd_lower hlow).1 hne).1
  · rw [interval_single hclosed (hnone hcomma)] at hb
    obtain ⟨ord, hord, -⟩ := Option.map_eq_some_iff.1 hb
    exact .inl (cmp_eq_some.1 hord).1

/-- A window that is open at both ends has every version in it. -/
theorem inRange_of_openBoth (h : OpenBoth range) : inRange version range = some true := by
  obtain ⟨lowerInc, lo, hi, upperInc, hpair, hlo, hhi⟩ := h
  rw [inRange_pair hpair, hlo, hhi]
  rfl

end Single

end Semver

end Smrt
