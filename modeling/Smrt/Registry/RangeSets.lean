import Smrt.Lib.Ranges
import Smrt.Registry.Windows

/-!
# Sets of ranges

A text may be a set of ranges, as Maven reads it (`setOf`), of which `Semver.inRange` looks at
nothing but what is before the first comma and behind it. A version is not told to be outside of a
set that admits it, unless it is misled (`Misled`):

* a range that is open above stands before another one, and the version is in one behind it;
* what is behind the comma, or all of a text without one, is several ranges, with a `+` before the
  bracket where the first of them ends.

`windows_exact_iff`: with these, numbers of more than 64 bits and what is asked of windows that are
open at both ends, versions and windows are decided exactly or not at all.
-/

namespace Smrt

namespace Semver

/-! ## What a set admits -/

/-- A range of a set, between its brackets. -/
def restriction (opening : Char) (body : List Char) (closing : Char) : Option (Range String) :=
  let lo := trim (String.ofList (body.takeWhile fun c => c ≠ ','))
  match body.dropWhile fun c => c ≠ ',' with
  | [] =>
    if opening = '[' ∧ closing = ']' then
      some { lower := some lo, lowerInc := true, upper := some lo, upperInc := true }
    else none
  | _ :: rest =>
    let hi := trim (String.ofList rest)
    some { lower := if lo = "" then none else some lo, lowerInc := opening = '[',
           upper := if hi = "" then none else some hi, upperInc := closing = ']' }

/-- What follows a range of a set: another one, perhaps behind a comma. -/
def behind (rest : List Char) : List Char :=
  match (trim (String.ofList rest)).toList with
  | ',' :: rest => (trim (String.ofList rest)).toList
  | rest => rest

/-- The ranges of a set: each ends at the first bracket that closes one. -/
def sets : ℕ → List Char → Option (List (Range String))
  | _, [] => some []
  | 0, _ => none
  | fuel + 1, opening :: text =>
    if opening = '[' ∨ opening = '(' then
      match text.dropWhile fun c => c ≠ ']' ∧ c ≠ ')' with
      | [] => none
      | closing :: rest => do
        let range ← restriction opening (text.takeWhile fun c => c ≠ ']' ∧ c ≠ ')') closing
        let ranges ← sets fuel (behind rest)
        pure (range :: ranges)
    else none

/-- The set that a text is. -/
def setOf (range : String) : Option (List (Range String)) :=
  sets (trim range).toList.length (trim range).toList

/-- What a range admits, as Maven reads it: what is in one of the ranges of a set, which stand in
    their order; and everything, if it is no set. -/
def Admits (le : String → String → Prop) (range version : String) : Prop :=
  Bracketed range → ∃ l, setOf range = some l ∧ Range.Ordered le l ∧ ∃ I ∈ l, I.Contains le version

/-- An order of all versions that is the order of those that can be read. -/
structure Reading (le : String → String → Prop) : Prop where
  total : ∀ a b, le a b ∨ le b a
  trans : ∀ a b c, le a b → le b c → le a c
  agrees : ∀ a b o, cmp a b = some o → (le a b ↔ o ≠ .gt)

/-- A version that is told to be outside of a set that admits it: by the lower end of the first
    range, though a range that is open above stands before another one; by an upper end, or by one
    version, whose text is that of several ranges. -/
structure Misled (le : String → String → Prop) (range version : String) : Prop where
  bracketed : Bracketed range
  closed : ClosedText range
  admits : Admits le range version
  told :
    ((∃ hi, upperText range = some hi) ∧ (∃ l, setOf range = some l ∧ ¬ Range.Closed l) ∧
      withinEnd version (lowerText range) ((trim range).toList.head? = some '[') .gt = some false) ∨
    (∃ hi, upperText range = some hi ∧ ¬ Unclosed hi.toList ∧
      withinEnd version (lowerText range) ((trim range).toList.head? = some '[') .gt = some true ∧
      withinEnd version hi ((trim range).toList.getLast? = some ']') .lt = some false) ∨
    (upperText range = none ∧ ¬ Unclosed (lowerText range).toList ∧
      ∃ o, cmp version (lowerText range) = some o ∧ o ≠ .eq)

section Parts

variable {range version : String} {inner l r : List Char} {o c : Char}

/-! ## What is behind a `+` -/

/-- What is behind a `+` does not count. -/
theorem upTo_trim {r : List Char} (hl : '+' ∉ l) :
    upTo '+' (trim (String.ofList (l ++ '+' :: r))) =
      String.ofList (l.dropWhile isWhiteSpace) := by
  have hall : ∀ d ∈ l.dropWhile isWhiteSpace, decide (d ≠ '+') = true := fun d hd =>
    decide_eq_true fun he => hl (he ▸ (List.dropWhile_suffix _).subset hd)
  rw [upTo, toList_trim_append (by decide), List.takeWhile_append_of_pos hall]
  simp

/-- A letter that is not of dotted numbers is behind a `+`. -/
theorem plus_of_dotted {r : List Char} (h : Dotted (String.ofList (l ++ c :: r)))
    (hc : c = ']' ∨ c = ')') : '+' ∈ l := by
  by_contra hplus
  have hwhite : isWhiteSpace c = false := by rcases hc with rfl | rfl <;> decide
  have hne : c ≠ '+' := by rcases hc with rfl | rfl <;> decide
  have hall : ∀ d ∈ l.dropWhile isWhiteSpace, decide (d ≠ '+') = true := fun d hd =>
    decide_eq_true fun he => hplus (he ▸ (List.dropWhile_suffix _).subset hd)
  have hmem : c ∈ (upTo '+' (trim (String.ofList (l ++ c :: r)))).toList := by
    rw [upTo, String.toList_ofList, toList_trim_append hwhite, List.takeWhile_append_of_pos hall]
    simp [hne]
  rcases hc with rfl | rfl <;> exact absurd (mem_of_dotted h hmem) (by decide)

/-- So the version is that of what is before. -/
theorem core_of_dotted {r : List Char} (h : Dotted (String.ofList (l ++ c :: r)))
    (hc : c = ']' ∨ c = ')') : core (String.ofList (l ++ c :: r)) = core (String.ofList l) := by
  obtain ⟨l₁, l₂, rfl, hl₁⟩ := List.eq_append_cons_of_mem (plus_of_dotted h hc)
  rw [core, core, List.append_assoc, List.cons_append, upTo_trim hl₁, upTo_trim hl₁]

/-! ## Reading a set -/

/-- The first range of a set. -/
theorem sets_eq_some {fuel : ℕ} {text : List Char} {L : List (Range String)}
    (h : sets (fuel + 1) (o :: text) = some L) : ∃ body c rest I L',
      text = body ++ c :: rest ∧ Unclosed body ∧ (c = ']' ∨ c = ')') ∧ (o = '[' ∨ o = '(') ∧
        restriction o body c = some I ∧ sets fuel (behind rest) = some L' ∧ L = I :: L' := by
  rw [sets] at h
  split_ifs at h with ho
  rcases hd : text.dropWhile fun c => c ≠ ']' ∧ c ≠ ')' with _ | ⟨c, rest⟩
  · rw [hd] at h
    exact absurd h.symm (Option.some_ne_none _)
  rw [hd] at h
  obtain ⟨I, hI, h⟩ := Option.bind_eq_some_iff.1 h
  obtain ⟨L', hL', h⟩ := Option.bind_eq_some_iff.1 h
  have hcut := @List.takeWhile_append_dropWhile _ (fun c => decide (c ≠ ']' ∧ c ≠ ')')) text
  have hne : (text.dropWhile fun c => c ≠ ']' ∧ c ≠ ')') ≠ [] := hd ▸ List.cons_ne_nil _ _
  have hc : ¬ (c ≠ ']' ∧ c ≠ ')') := by
    have hhead := List.head_dropWhile_not _ hne
    simp only [hd, List.head_cons, decide_eq_false_iff_not] at hhead
    exact hhead
  rw [hd] at hcut
  refine ⟨_, c, rest, I, L', hcut.symm, ⟨fun hm => ?_, fun hm => ?_⟩, ?_, ho, hI, hL',
    (Option.some.inj h).symm⟩
  · exact absurd (List.mem_takeWhile_imp hm) (by decide)
  · exact absurd (List.mem_takeWhile_imp hm) (by decide)
  · rw [not_and_or, not_not, not_not] at hc
    exact hc

/-- Where a range ends. -/
theorem append_closing_inj {body body' rest rest' : List Char} {c' : Char} (hb : Unclosed body)
    (hb' : Unclosed body') (hc : c = ']' ∨ c = ')') (hc' : c' = ']' ∨ c' = ')')
    (h : body ++ c :: rest = body' ++ c' :: rest') : body = body' ∧ c = c' ∧ rest = rest' := by
  have hcut : ∀ {u v : List Char} {d : Char}, Unclosed u → d = ']' ∨ d = ')' →
      (u ++ d :: v).takeWhile (fun c => c ≠ ']' ∧ c ≠ ')') = u := by
    intro u v d hu hd
    have hall : ∀ e ∈ u, decide (e ≠ ']' ∧ e ≠ ')') = true := fun e he =>
      decide_eq_true ⟨fun h => hu.1 (h ▸ he), fun h => hu.2 (h ▸ he)⟩
    rw [List.takeWhile_append_of_pos hall]
    rcases hd with rfl | rfl <;> simp
  have hbody : body = body' := by rw [← hcut hb hc, h, hcut hb' hc']
  rw [hbody, List.append_cancel_left_eq, List.cons.injEq] at h
  exact ⟨hbody, h⟩

/-- One range between brackets is a set of one range. -/
theorem setOf_of_unclosed {L : List (Range String)} (h : (trim range).toList = o :: (inner ++ [c]))
    (hc : c = ']' ∨ c = ')') (hinner : Unclosed inner) (hL : setOf range = some L) :
    ∃ I, restriction o inner c = some I ∧ L = [I] := by
  rw [setOf, h, List.length_cons] at hL
  obtain ⟨body, d, rest, I, L', htext, hbody, hd, -, hI, hL', rfl⟩ := sets_eq_some hL
  obtain ⟨rfl, rfl, rfl⟩ := append_closing_inj hinner hbody hc hd htext
  have hbehind : behind [] = [] := by decide
  rw [hbehind, sets] at hL'
  exact ⟨I, hI, by rw [Option.some.inj hL']⟩

/-- One version in brackets is a range of its own. -/
theorem restriction_of_not_mem {I : Range String} (hcomma : ',' ∉ inner)
    (h : restriction o inner c = some I) : o = '[' ∧ c = ']' ∧
      I = ⟨some (trim (String.ofList inner)), true, some (trim (String.ofList inner)), true⟩ := by
  have htake : (inner.takeWhile fun d => d ≠ ',') = inner :=
    List.takeWhile_eq_self_iff.2 fun d hd => decide_eq_true fun he => hcomma (he ▸ hd)
  have hdrop : (inner.dropWhile fun d => d ≠ ',') = [] :=
    List.dropWhile_eq_nil_iff.2 fun d hd => decide_eq_true fun he => hcomma (he ▸ hd)
  rw [restriction, htake, hdrop] at h
  simp only [Option.ite_none_right_eq_some, Option.some.injEq] at h
  exact ⟨h.1.1, h.1.2, h.2.symm⟩

/-- The ends of a range, at its first comma. -/
theorem restriction_of_comma {I : Range String} (hl : ',' ∉ l)
    (h : restriction o (l ++ ',' :: r) c = some I) :
    I.lower = (if trim (String.ofList l) = "" then none else some (trim (String.ofList l))) ∧
      I.lowerInc = decide (o = '[') ∧
      I.upper = (if trim (String.ofList r) = "" then none else some (trim (String.ofList r))) ∧
      I.upperInc = decide (c = ']') := by
  have hall : ∀ d ∈ l, decide (d ≠ ',') = true := fun d hd => decide_eq_true fun he => hl (he ▸ hd)
  have htake : (l ++ ',' :: r).takeWhile (fun d => d ≠ ',') = l := by
    rw [List.takeWhile_append_of_pos hall]
    simp
  have hdrop : (l ++ ',' :: r).dropWhile (fun d => d ≠ ',') = ',' :: r := by
    rw [List.dropWhile_append_of_pos hall]
    simp
  rw [restriction, htake, hdrop] at h
  simp only at h
  generalize trim (String.ofList l) = lo at h ⊢
  generalize trim (String.ofList r) = hi at h ⊢
  rw [← Option.some.inj h]
  exact ⟨rfl, rfl, rfl, rfl⟩

theorem opening_of_sets {fuel : ℕ} {text : List Char} {L : List (Range String)}
    (h : sets fuel (o :: text) = some L) : o = '[' ∨ o = '(' := by
  rcases fuel with _ | fuel
  · exact absurd h.symm (Option.some_ne_none _)
  · obtain ⟨-, -, -, -, -, -, -, -, ho, -⟩ := sets_eq_some h
    exact ho

/-- What follows a range, where there is still a comma before the last letter. -/
theorem behind_append (hc : isWhiteSpace c = false) :
    (l.dropWhile isWhiteSpace = [] →
        behind (l ++ ',' :: (r ++ [c])) = r.dropWhile isWhiteSpace ++ [c]) ∧
      ∀ d b, l.dropWhile isWhiteSpace = d :: b → d ≠ ',' →
        behind (l ++ ',' :: (r ++ [c])) = d :: b ++ ',' :: (r ++ [c]) := by
  have hneg : ¬ isWhiteSpace c = true := Bool.eq_false_iff.1 hc
  have htrim : (trim (String.ofList (l ++ ',' :: (r ++ [c])))).toList =
      l.dropWhile isWhiteSpace ++ ',' :: (r ++ [c]) := by
    rw [toList_trim_append (by decide), List.rdropWhile_concat_neg _ _ _ hneg]
  refine ⟨fun hl => ?_, fun d b hl hd => ?_⟩
  · rw [behind, htrim, hl]
    simp only [List.nil_append]
    rw [toList_trim_append hc, List.rdropWhile_nil]
  · rw [behind, htrim, hl]
    simp only [List.cons_append]
    split
    · rename_i hcons
      exact absurd (List.cons.inj hcons).1 hd
    · rfl

/-- The last range of a set, behind the first comma of which no range ends before the last letter.
    -/
theorem last_of_sets {fuel : ℕ} {L : List (Range String)} (hl : ',' ∉ l) (hr : Unclosed r)
    (hc : c = ']' ∨ c = ')')
    (hhead : ∀ d ∈ (r.dropWhile isWhiteSpace).head?, d ≠ '[' ∧ d ≠ '(')
    (h : sets fuel (l ++ ',' :: (r ++ [c])) = some L) :
    ∃ L' I, L = L' ++ [I] ∧ (∀ J ∈ L', J.upper ≠ none) ∧
      I.upper = (if trim (String.ofList r) = "" then none else some (trim (String.ofList r))) ∧
      I.upperInc = decide (c = ']') := by
  have hwhite : isWhiteSpace c = false := by rcases hc with rfl | rfl <;> decide
  have hopen : ¬ (c = '[' ∨ c = '(') := by rcases hc with rfl | rfl <;> decide
  induction fuel generalizing l L with
  | zero => rcases l with _ | ⟨o, l⟩ <;> exact absurd h.symm (Option.some_ne_none _)
  | succ fuel ih =>
    rcases l with _ | ⟨o, l⟩
    · -- No range begins with a comma.
      exact absurd (opening_of_sets h) (by decide)
    rw [List.mem_cons, not_or] at hl
    obtain ⟨body, d, rest, I, L', htext, hbody, hd, -, hI, hL', rfl⟩ := sets_eq_some h
    by_cases hin : Unclosed l
    · -- There is but one range.
      have hall : Unclosed (l ++ ',' :: r) := by
        constructor
        · simpa using ⟨hin.1, hr.1⟩
        · simpa using ⟨hin.2, hr.2⟩
      have hassoc : l ++ ',' :: (r ++ [c]) = (l ++ ',' :: r) ++ c :: [] := by simp
      obtain ⟨rfl, rfl, rfl⟩ := append_closing_inj hall hbody hc hd (hassoc.symm.trans htext)
      have hbehind : behind [] = [] := by decide
      rw [hbehind, sets] at hL'
      obtain ⟨-, -, hup, hinc⟩ := restriction_of_comma hl.2 hI
      exact ⟨[], I, by rw [← Option.some.inj hL', List.nil_append], List.forall_mem_nil _, hup, hinc⟩
    · -- The first range ends before the comma, and the others are read from there.
      obtain ⟨b, hb, rfl⟩ : ∃ b, l = body ++ d :: b ∧ rest = b ++ ',' :: (r ++ [c]) := by
        rcases List.append_eq_append_iff.1 htext with ⟨x, hx, -⟩ | ⟨y, hy, hrest⟩
        · exact absurd ⟨fun hm => hbody.1 (hx ▸ List.mem_append_left _ hm),
            fun hm => hbody.2 (hx ▸ List.mem_append_left _ hm)⟩ hin
        · rcases y with _ | ⟨e, b⟩
          · rw [List.append_nil] at hy
            exact absurd (hy ▸ hbody) hin
          · obtain ⟨rfl, htail⟩ := List.cons.inj hrest
            exact ⟨b, hy, htail⟩
      have hcomma : ',' ∉ body ∧ ',' ∉ b := by
        rw [hb, List.mem_append, List.mem_cons, not_or, not_or] at hl
        exact ⟨hl.2.1, hl.2.2.2⟩
      obtain ⟨hempty, hmore⟩ := behind_append (l := b) (r := r) hwhite
      rcases hdrop : b.dropWhile isWhiteSpace with _ | ⟨e, b'⟩
      · rw [hempty hdrop] at hL'
        rcases hhd : r.dropWhile isWhiteSpace with _ | ⟨e, r'⟩
        · rw [hhd] at hL'
          exact absurd (opening_of_sets hL') hopen
        · rw [hhd] at hL' hhead
          exact absurd (opening_of_sets hL') (not_or.2 (hhead e rfl))
      · have hsub : e :: b' ⊆ b := hdrop ▸ (List.dropWhile_suffix _).subset
        have hcomma' : ',' ∉ e :: b' := fun hm => hcomma.2 (hsub hm)
        rw [hmore e b' hdrop fun he => hcomma' (he ▸ List.mem_cons_self)] at hL'
        obtain ⟨M, J, rfl, hM, hup, hinc⟩ := ih hcomma' hL'
        refine ⟨I :: M, J, rfl, List.forall_mem_cons.2 ⟨?_, hM⟩, hup, hinc⟩
        rw [(restriction_of_not_mem hcomma.1 hI).2.2]
        exact Option.some_ne_none _

end Parts

/-! ## What is told of a set -/

section Sets

variable {le : String → String → Prop} {range version s t : String} {inner l r : List Char}
  {o c : Char} {b inclusive : Bool} {ord : Ordering} {I : Range String} {L : List (Range String)}

theorem cmp_of_core (h : core s = core t) : cmp version s = cmp version t := by
  have hread : ∀ s, parse s = if core s = "" then none
      else (segmentsOf s).mapM fun seg => parseU64 (String.ofList seg) := fun _ => rfl
  rw [cmp, cmp, hread s, hread t, segmentsOf, segmentsOf, h]

theorem withinEnd_eq_false {within : Ordering} {bound : String}
    (h : withinEnd version bound inclusive within = some false) : bound ≠ "" ∧
      ∃ o, cmp version bound = some o ∧ o ≠ within ∧ (o = .eq → inclusive = false) := by
  rcases withinEnd_eq_some.1 h with ⟨-, hno⟩ | ⟨hne, o, ho, hno⟩
  · exact absurd hno Bool.false_ne_true
  · rw [eq_comm, decide_eq_false_iff_not, not_or, not_and, Bool.not_eq_true] at hno
    exact ⟨hne, o, ho, hno⟩

/-- No bracket is white space, so none is taken away at the ends. -/
theorem unclosed_trim : Unclosed (trim s).toList ↔ Unclosed s.toList := by
  have hmem : ∀ {d : Char}, isWhiteSpace d = false → (d ∈ (trim s).toList ↔ d ∈ s.toList) := by
    intro d hd
    refine ⟨fun hm => ?_, fun hm => ?_⟩
    · rw [toList_trim] at hm
      exact (List.dropWhile_suffix _).subset ((List.rdropWhile_prefix _ _).subset hm)
    · obtain ⟨u, v, huv, -⟩ := List.eq_append_cons_of_mem hm
      rw [← @String.ofList_toList s, huv, toList_trim_append hd]
      exact List.mem_append_right _ List.mem_cons_self
  rw [Unclosed, Unclosed, hmem (by decide), hmem (by decide)]

namespace Reading

variable (R : Reading le)

include R

theorem le_iff (h : cmp s t = some ord) : (le s t ↔ ord ≠ .gt) ∧ (le t s ↔ ord ≠ .lt) := by
  obtain ⟨hs, ht, rfl⟩ := cmp_eq_some.1 h
  refine ⟨R.agrees _ _ _ h, ?_⟩
  rw [R.agrees _ _ _ (cmp_eq_some.2 ⟨ht, hs, rfl⟩), compare_swap]
  rcases compare (tuple s) (tuple t) with _ | _ | _ <;> decide

/-- A version that its lower end refutes is not in a range. -/
theorem not_above (hlow : I.lower = some s) (h : cmp version s = some ord) (hgt : ord ≠ .gt)
    (heq : ord = .eq → I.lowerInc = false) : ¬ I.Above le version := by
  intro habove
  obtain ⟨hle, hge⟩ := R.le_iff h
  obtain ⟨hs, hinc⟩ := habove s hlow
  have hne := hge.1 hs
  have hord : ord = .eq := by
    rcases ord with _ | _ | _
    · exact absurd rfl hne
    · rfl
    · exact absurd rfl hgt
  exact Bool.false_ne_true ((heq hord).symm.trans (hinc (hle.2 hgt)))

theorem not_below (hup : I.upper = some s) (h : cmp version s = some ord) (hlt : ord ≠ .lt)
    (heq : ord = .eq → I.upperInc = false) : ¬ I.Below le version := by
  intro hbelow
  obtain ⟨hle, hge⟩ := R.le_iff h
  obtain ⟨hs, hinc⟩ := hbelow s hup
  have hne := hle.1 hs
  have hord : ord = .eq := by
    rcases ord with _ | _ | _
    · exact absurd rfl hlt
    · rfl
    · exact absurd rfl hne
  exact Bool.false_ne_true ((heq hord).symm.trans (hinc (hge.2 hlt)))

/-- What is read as the lower end is that of the first range: the text before the comma, or before a
    bracket, and there is no more of it then than is behind a `+`. -/
theorem not_above_of_lower (h : (trim range).toList = o :: (inner ++ [c]))
    (hinner : inner = l ++ ',' :: r) (hl : ',' ∉ l) (hL : setOf range = some L)
    (hfalse : withinEnd version (trim (String.ofList l)) (o = '[') .gt = some false) :
    ∃ I L', L = I :: L' ∧ ¬ I.Above le version := by
  obtain ⟨hne, ord, hord, hgt, heq⟩ := withinEnd_eq_false hfalse
  rw [setOf, h, List.length_cons] at hL
  obtain ⟨body, d, rest, I, L', htext, -, hd, ho, hI, -, rfl⟩ := sets_eq_some hL
  refine ⟨I, L', rfl, ?_⟩
  have hcomma : d ≠ ',' := by rcases hd with rfl | rfl <;> decide
  rw [hinner, List.append_assoc, List.cons_append] at htext
  rcases List.append_eq_append_iff.1 htext with ⟨x, hx, hrest⟩ | ⟨y, hy, hrest⟩
  · rcases x with _ | ⟨e, x⟩
    · exact absurd (List.cons.inj hrest).1.symm hcomma
    · obtain ⟨rfl, -⟩ := List.cons.inj hrest
      rw [hx] at hI
      obtain ⟨hlow, hinc, -⟩ := restriction_of_comma hl hI
      exact R.not_above (hlow.trans (if_neg hne)) hord hgt fun he => hinc.trans (heq he)
  · rcases y with _ | ⟨e, y⟩
    · exact absurd (List.cons.inj hrest).1 hcomma
    · obtain ⟨rfl, -⟩ := List.cons.inj hrest
      have hbody : ',' ∉ body := fun hm => hl (hy ▸ List.mem_append_left _ hm)
      have hdotted : Dotted (String.ofList (body ++ d :: y)) := by
        rw [← hy, ← dotted_trim]
        exact (cmp_eq_some.1 hord).2.1.1
      obtain ⟨rfl, -, rfl⟩ := restriction_of_not_mem hbody hI
      have hsame : cmp version (trim (String.ofList body)) = some ord := by
        rw [← hord, hy]
        refine cmp_of_core ?_
        rw [core_trim, core_trim, core_of_dotted hdotted hd]
      refine R.not_above rfl hsame hgt fun he => ?_
      exact absurd (heq he) (by decide)

/-- If no range ends behind the comma, what is read as the upper end is that of the last range. -/
theorem not_contains_of_upper (h : (trim range).toList = o :: (inner ++ [c]))
    (ho : o = '[' ∨ o = '(') (hc : c = ']' ∨ c = ')') (hinner : inner = l ++ ',' :: r)
    (hl : ',' ∉ l) (hr : Unclosed r) (hL : setOf range = some L) (hordered : Range.Ordered le L)
    (hfalse : withinEnd version (trim (String.ofList r)) (c = ']') .lt = some false) :
    ∀ J ∈ L, ¬ J.Contains le version := by
  obtain ⟨hne, ord, hord, hlt, heq⟩ := withinEnd_eq_false hfalse
  have hdotted : Dotted (trim (String.ofList r)) := (cmp_eq_some.1 hord).2.1.1
  have hcomma : ',' ∉ o :: l := by
    rw [List.mem_cons, not_or]
    refine ⟨?_, hl⟩
    rcases ho with rfl | rfl <;> decide
  have hhead : ∀ d ∈ (r.dropWhile isWhiteSpace).head?, d ≠ '[' ∧ d ≠ '(' := by
    intro d hd
    obtain ⟨e, r', he, hkind⟩ := head_of_dotted hdotted
    obtain ⟨t, ht⟩ := List.rdropWhile_prefix isWhiteSpace (r.dropWhile isWhiteSpace)
    rw [toList_trim, String.toList_ofList] at he
    rw [← ht, he, List.cons_append, List.head?_cons, Option.mem_some] at hd
    rw [← hd]
    constructor
    all_goals
      rintro rfl
      exact absurd hkind (by decide)
  rw [setOf, h, hinner, List.append_assoc, List.cons_append, ← List.cons_append] at hL
  obtain ⟨L', I, rfl, hclosed, hup, hinc⟩ := last_of_sets hcomma hr hc hhead hL
  refine hordered.not_contains_of_not_below R.trans hclosed ?_
  exact R.not_below (hup.trans (if_neg hne)) hord hlt fun he => hinc.trans (heq he)

/-- Who is told to be outside of a set that admits it is misled. -/
theorem misled_of (hno : ¬ ∃ w, Describes range w) (hfalse : inRange version range = some false)
    (hadmits : Admits le range version) : Misled le range version := by
  have hbracketed : Bracketed range := by
    by_contra hb
    obtain ⟨-, op, v, h⟩ := exists_bound hb hfalse
    exact hno ⟨_, h⟩
  rw [inRange_of_bracketed hbracketed] at hfalse
  have hclosed : ClosedText range := by
    by_contra hc
    rw [interval_of_not_closed hc] at hfalse
    exact absurd hfalse.symm (Option.some_ne_none _)
  refine ⟨hbracketed, hclosed, hadmits, ?_⟩
  obtain ⟨L, hL, hordered, J, hJ, hcontains⟩ := hadmits hbracketed
  obtain ⟨o, inner, c, htext, ho, hc⟩ := exists_inner hbracketed hclosed
  obtain ⟨hlo, hnone, hpair⟩ := ends_of_toList htext
  by_cases hcomma : ',' ∈ inner
  · obtain ⟨l, r, hinner, hl⟩ := List.eq_append_cons_of_mem hcomma
    obtain ⟨htake, hup⟩ := hpair l r hl hinner
    rw [htake] at hlo
    have hhead : decide ((trim range).toList.head? = some '[') = decide (o = '[') := by
      rw [decide_eq_decide, htext, List.head?_cons, Option.some_inj]
    have hlast : decide ((trim range).toList.getLast? = some ']') = decide (c = ']') := by
      rw [decide_eq_decide, htext, ← List.cons_append, List.getLast?_concat, Option.some_inj]
    rw [interval_pair hclosed hup] at hfalse
    rcases hlow : withinEnd version (lowerText range) ((trim range).toList.head? = some '[') .gt
      with _ | _ | _
    · rw [hlow] at hfalse
      exact absurd hfalse.symm (Option.some_ne_none _)
    · -- The lower end refutes the version, and with it all ranges, if they follow each other.
      refine .inl ⟨⟨_, hup⟩, ⟨L, hL, fun hall => ?_⟩, rfl⟩
      rw [hlo, hhead] at hlow
      obtain ⟨I, L', rfl, hnot⟩ := R.not_above_of_lower htext hinner hl hL hlow
      exact hordered.not_contains_of_not_above R.trans hall hnot J hJ hcontains
    · rw [hlow, bothEnds_true] at hfalse
      refine .inr (.inl ⟨_, hup, fun hunclosed => ?_, rfl, hfalse⟩)
      rw [unclosed_trim, String.toList_ofList] at hunclosed
      refine R.not_contains_of_upper htext ho hc hinner hl hunclosed hL hordered ?_ J hJ hcontains
      rw [← hlast]
      exact hfalse
  · rw [interval_single hclosed (hnone hcomma)] at hfalse
    obtain ⟨ord, hord, hne⟩ := Option.map_eq_some_iff.1 hfalse
    refine .inr (.inr ⟨hnone hcomma, fun hunclosed => ?_, ord, hord, of_decide_eq_false hne⟩)
    have htake : (inner.takeWhile fun d => d ≠ ',') = inner :=
      List.takeWhile_eq_self_iff.2 fun d hd => decide_eq_true fun he => hcomma (he ▸ hd)
    rw [hlo, htake, unclosed_trim, String.toList_ofList] at hunclosed
    exact hno ⟨_, describes_single htext ho hc hcomma hunclosed⟩

end Reading

/-- Who is misled is told to be outside, of what is no window. -/
theorem Misled.inRange_eq (h : Misled le range version) : inRange version range = some false := by
  rw [inRange_of_bracketed h.bracketed]
  obtain ⟨⟨hi, hup⟩, -, hlow⟩ | ⟨hi, hup, -, hlow, hhigh⟩ | ⟨hnone, -, ord, hord, hne⟩ := h.told
  · rw [interval_pair h.closed hup, hlow, bothEnds_false]
  · rw [interval_pair h.closed hup, hlow, bothEnds_true, hhigh]
  · rw [interval_single h.closed hnone, hord, Option.map_some, decide_eq_false hne]

theorem Misled.not_describes (h : Misled le range version) : ¬ ∃ w, Describes range w := by
  rintro ⟨⟨op, v⟩ | ⟨lowerInc, lo, hi, upperInc⟩ | ⟨v⟩, hw⟩
  · exact not_bracketed_of_bound hw h.bracketed
  · obtain ⟨o, c, htext, -, hc, -, -⟩ := toList_pair hw
    obtain ⟨-, -, hpair⟩ := ends_of_toList htext
    obtain ⟨-, hup⟩ := hpair _ _ hw.1 rfl
    rw [String.ofList_toList] at hup
    have hinner : Unclosed (lo.toList ++ ',' :: hi.toList) := by
      constructor
      · simpa using ⟨hw.2.1.1, hw.2.2.1.1⟩
      · simpa using ⟨hw.2.1.2, hw.2.2.1.2⟩
    obtain ⟨-, ⟨L, hL, hclosed⟩, -⟩ | ⟨hi', hup', hunclosed, -⟩ | ⟨hnone, -⟩ := h.told
    · -- There is one range, so none stands behind another.
      obtain ⟨I, -, rfl⟩ := setOf_of_unclosed htext hc hinner hL
      exact hclosed (List.forall_mem_nil _)
    · obtain rfl := Option.some.inj (hup.symm.trans hup')
      exact hunclosed (unclosed_trim.2 hw.2.2.1)
    · exact absurd (hup.symm.trans hnone) (Option.some_ne_none _)
  · obtain ⟨o, c, htext, -, -⟩ := toList_single hw
    obtain ⟨hlo, hnone, -⟩ := ends_of_toList htext
    have hnone := hnone hw.1
    obtain ⟨⟨hi, hup⟩, -⟩ | ⟨hi, hup, -⟩ | ⟨-, hunclosed, -⟩ := h.told
    · exact absurd (hup.symm.trans hnone) (Option.some_ne_none _)
    · exact absurd (hup.symm.trans hnone) (Option.some_ne_none _)
    · have htake : (v.toList.takeWhile fun d => d ≠ ',') = v.toList :=
        List.takeWhile_eq_self_iff.2 fun d hd => decide_eq_true fun he => hw.1 (he ▸ hd)
      rw [hlo, htake, String.ofList_toList] at hunclosed
      exact hunclosed (unclosed_trim.2 hw.2.1)

end Sets

/-! ## Exactness -/

/-- Versions and windows are decided exactly, or not at all. -/
structure Exact (le : String → String → Prop) (a b c version range : String) : Prop where
  laws : Laws a b c
  unread : cmp a b = none ↔ ¬ Dotted a ∨ ¬ Dotted b
  told : ∀ answer, inRange version range = some answer → Readable version ∧
    ∀ w, Describes range w →
      w.Needed (tuple version) ∧ (answer = true ↔ w.Contains (tuple version))
  admitted : (¬ ∃ w, Describes range w) → inRange version range = some false →
    ¬ Admits le range version

/-- All is exact, but for numbers of more than 64 bits, windows that are open at both ends and
    versions that are misled. -/
theorem windows_exact_iff {le : String → String → Prop} (R : Reading le)
    (a b c version range : String) : Exact le a b c version range ↔
      (Dotted a → Dotted b → Fits a ∧ Fits b) ∧ (OpenBoth range → Readable version) ∧
        ¬ Misled le range version := by
  constructor
  · intro h
    refine ⟨fun ha hb => ?_, fun hopen => (h.told _ (inRange_of_openBoth hopen)).1, fun hm =>
      h.admitted hm.not_describes hm.inRange_eq hm.admits⟩
    by_contra hno
    refine absurd (h.unread.1 (cmp_eq_none.2 ?_)) (not_or.2 ⟨not_not.2 ha, not_not.2 hb⟩)
    exact (not_and_or.1 hno).imp (fun h hr => h hr.2) fun h hr => h hr.2
  · rintro ⟨hfits, hopen, hmisled⟩
    refine ⟨laws a b c, ?_, fun answer hanswer => ⟨?_, fun w hw => window_exact hw hanswer⟩,
      fun hno hfalse hadmits => hmisled (R.misled_of hno hfalse hadmits)⟩
    · rw [cmp_eq_none, ← not_and_or, ← not_and_or, not_iff_not]
      refine ⟨fun h => ⟨h.1.1, h.2.1⟩, fun h => ?_⟩
      obtain ⟨ha, hb⟩ := hfits h.1 h.2
      exact ⟨⟨h.1, ha⟩, ⟨h.2, hb⟩⟩
    · exact (readable_or_openBoth hanswer).elim id hopen

/-- What a version counts as: what cannot be read is below everything else. -/
noncomputable def rank (s : String) : WithBot Places := if Readable s then (tuple s : Places) else ⊥

/-- An order of all versions. -/
def ByNumbers (s t : String) : Prop := rank s ≤ rank t

theorem reading_byNumbers : Reading ByNumbers where
  total _ _ := le_total _ _
  trans _ _ _ := le_trans
  agrees s t o h := by
    obtain ⟨hs, ht, rfl⟩ := cmp_eq_some.1 h
    rw [ByNumbers, rank, rank, if_pos hs, if_pos ht, WithBot.coe_le_coe, ne_eq, compare_gt_iff_gt,
      not_lt]

/-- An end that does not count is not in the window. -/
theorem windows_exact_upper : Exact ByNumbers "1" "1.2" "v1.2.0" "2.0" " [1.0,2.0)" := by
  refine (windows_exact_iff reading_byNumbers _ _ _ _ _).2 ⟨by decide +kernel,
    fun _ => by decide +kernel, fun hm => hm.not_describes ⟨.pair true "1.0" "2.0" false, ?_⟩⟩
  refine ⟨?_, ?_, ?_, ?_⟩
  all_goals decide +kernel

/-- A version of the second range, where the first range ends at a version with a `+`. -/
theorem misled_behind_plus : Misled ByNumbers "[1,2+mc],[3,4]" "3.5" := by
  have hlt : ∀ {s t : String}, cmp s t = some .lt → ByNumbers s t ∧ ¬ ByNumbers t s := by
    intro s t h
    obtain ⟨hle, hge⟩ := reading_byNumbers.le_iff h
    exact ⟨hle.2 (by decide), fun hts => hge.1 hts rfl⟩
  refine ⟨.inl (by decide +kernel), .inl (by decide +kernel), fun _ => ?_, .inr (.inl ?_)⟩
  · refine ⟨[⟨some "1", true, some "2+mc", true⟩, ⟨some "3", true, some "4", true⟩],
      by decide +kernel, ⟨?_, ?_⟩, _, List.mem_cons_of_mem _ List.mem_cons_self, ?_, ?_⟩
    · refine List.forall_mem_cons.2 ⟨?_, List.forall_mem_singleton.2 ?_⟩
      all_goals
        rintro l u ⟨⟩ ⟨⟩
        exact ⟨(hlt (by decide +kernel)).1, fun _ => ⟨rfl, rfl⟩⟩
    · refine List.isChain_pair.2 ?_
      rintro u ⟨⟩
      exact ⟨"3", rfl, (hlt (by decide +kernel)).1⟩
    · rintro l ⟨⟩
      exact ⟨(hlt (by decide +kernel)).1, fun _ => rfl⟩
    · rintro u ⟨⟩
      exact ⟨(hlt (by decide +kernel)).1, fun _ => rfl⟩
  · exact ⟨"2+mc],[3,4", by decide +kernel, by decide +kernel, by decide +kernel, by decide +kernel⟩

theorem not_windows_exact : ¬ ∀ le : String → String → Prop, Reading le →
    ∀ a b c version range : String, Exact le a b c version range := by
  intro h
  have hm := misled_behind_plus
  have hexact := h ByNumbers reading_byNumbers "1" "1" "1" "3.5" "[1,2+mc],[3,4]"
  exact hexact.admitted hm.not_describes hm.inRange_eq hm.admits

end Semver

end Smrt
