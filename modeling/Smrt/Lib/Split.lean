import Mathlib.Data.String.Basic
import Mathlib.Data.List.Infix
import Mathlib.Tactic.SplitIfs

/-!
# Splitting

A text is split at a separator, which is searched for from the left (`pieces`); that is what
`String.splitOn` computes (`splitOn_eq`).

* `pieces_append`: what is before the first separator is one piece;
* `intercalate_pieces`, `pieces_intercalate`: splitting, and joining with the separator.
-/

namespace Smrt

/-- What follows a beginning. -/
def stripPrefix (s start : String) : Option String :=
  (s.toList.dropPrefix? start.toList).map String.ofList

theorem stripPrefix_eq_some {s start rest : String} :
    stripPrefix s start = some rest ↔ s = start ++ rest := by
  rw [stripPrefix, Option.map_eq_some_iff]
  constructor
  · rintro ⟨l, hl, rfl⟩
    obtain ⟨l', he, hbeq⟩ := List.dropPrefix?_eq_some_iff.1 hl
    rw [← String.toList_inj, String.toList_append, String.toList_ofList, he, eq_of_beq hbeq]
  · rintro rfl
    refine ⟨rest.toList, List.dropPrefix?_eq_some_iff.2 ⟨_, ?_, beq_self_eq_true _⟩, ?_⟩
    · exact String.toList_append
    · exact String.ofList_toList

/-- White space, as a string is trimmed of it and split at it. -/
def isWhiteSpace (c : Char) : Bool :=
  (9 ≤ c.val ∧ c.val ≤ 13) ∨ c.val = 32 ∨ c.val = 0x85 ∨ c.val = 0xA0 ∨ c.val = 0x1680 ∨
    (0x2000 ≤ c.val ∧ c.val ≤ 0x200A) ∨ c.val = 0x2028 ∨ c.val = 0x2029 ∨ c.val = 0x202F ∨
    c.val = 0x205F ∨ c.val = 0x3000

/-- A string without the white space at its ends. -/
def trim (s : String) : String :=
  String.ofList (((s.toList.dropWhile isWhiteSpace).reverse.dropWhile isWhiteSpace).reverse)

/-- A string without white space stays as it is. -/
theorem trim_eq_self {s : String} (h : ∀ c ∈ s.toList, isWhiteSpace c = false) : trim s = s := by
  have hdrop {l : List Char} (hl : ∀ c ∈ l, isWhiteSpace c = false) :
      l.dropWhile isWhiteSpace = l := by
    rcases l with _ | ⟨c, l⟩
    · rfl
    · rw [List.dropWhile_cons_of_neg]
      rw [hl c List.mem_cons_self]
      exact Bool.false_ne_true
  rw [trim, hdrop h, hdrop fun c hc => h c (List.mem_reverse.1 hc), List.reverse_reverse,
    String.ofList_toList]

/-- The pieces of a text between the separators, after a piece that was begun; `skip` letters of
    a separator are still to be passed over. -/
def pieces (sep : List Char) : ℕ → List Char → List Char → List (List Char)
  | _, m, [] => [m]
  | skip + 1, m, _ :: r => pieces sep skip m r
  | 0, m, c :: r =>
    if sep <+: c :: r then m :: pieces sep (sep.length - 1) [] r else pieces sep 0 (m ++ [c]) r

section Joined

variable {α : Type*}

/-- What is in a joined text is in one of the lines, if it is not what they are joined with. -/
theorem mem_intercalate {c d : α} {lines : List (List α)} (h : c ∈ [d].intercalate lines) :
    c = d ∨ ∃ l ∈ lines, c ∈ l := by
  induction lines with
  | nil => exact absurd h List.not_mem_nil
  | cons k lines ih =>
    rcases lines with _ | ⟨l, lines⟩
    · rw [List.intercalate_singleton] at h
      exact .inr ⟨k, List.mem_cons_self, h⟩
    · rw [List.intercalate_cons_cons, List.mem_append, List.mem_append, List.mem_singleton] at h
      rcases h with (hk | hd) | h
      · exact .inr ⟨k, List.mem_cons_self, hk⟩
      · exact .inl hd
      · rcases ih h with hd | ⟨l', hl', hc⟩
        · exact .inl hd
        · exact .inr ⟨l', List.mem_cons_of_mem _ hl', hc⟩

theorem mem_intercalate_of_mem {c : α} (d : α) {lines : List (List α)} {l : List α}
    (hl : l ∈ lines) (hc : c ∈ l) : c ∈ [d].intercalate lines := by
  induction lines with
  | nil => exact absurd hl List.not_mem_nil
  | cons k lines ih =>
    rcases lines with _ | ⟨l', lines⟩
    · rw [List.intercalate_singleton, ← List.mem_singleton.1 hl]
      exact hc
    · rw [List.intercalate_cons_cons, List.mem_append, List.mem_append]
      obtain rfl | hl := List.mem_cons.1 hl
      · exact .inl (.inl hc)
      · exact .inr (ih hl)

end Joined

section Pieces

variable {sep m a b r : List Char} {skip : ℕ}

@[simp] theorem pieces_nil : pieces sep skip m [] = [m] := by
  cases skip <;> rfl

/-- The letters that are passed over. -/
theorem pieces_drop : pieces sep skip m r = pieces sep 0 m (r.drop skip) := by
  induction r generalizing skip with
  | nil => rw [List.drop_nil, pieces_nil, pieces_nil]
  | cons c r ih =>
    cases skip with
    | zero => rfl
    | succ skip => exact ih

/-- A separator ends a piece. -/
theorem pieces_sep (h : sep ≠ []) : pieces sep 0 m (sep ++ b) = m :: pieces sep 0 [] b := by
  obtain ⟨c, s, rfl⟩ := List.exists_cons_of_ne_nil h
  have hp : c :: s <+: c :: (s ++ b) := List.prefix_append (c :: s) b
  rw [List.cons_append, pieces, if_pos hp, pieces_drop, List.length_cons, Nat.add_sub_cancel,
    List.drop_left]

/-- No separator begins in `a`, where `b` follows. -/
def Clear (sep a b : List Char) : Prop := ∀ u v, u ++ v = a → v ≠ [] → ¬ sep <+: v ++ b

theorem Clear.of_not_infix (h : ¬ sep <:+: a) : Clear sep a [] := by
  rintro u v rfl - hp
  rw [List.append_nil] at hp
  exact h (hp.isInfix.trans (List.suffix_append u v).isInfix)

theorem clear_nil : Clear sep [] b := fun _ _ h hv => absurd (List.append_eq_nil_iff.1 h).2 hv

theorem clear_cons {c : Char} (h : ¬ sep <+: c :: a ++ b) (ha : Clear sep a b) :
    Clear sep (c :: a) b := by
  rintro (_ | ⟨d, u⟩) v he hv
  · obtain rfl : v = c :: a := he
    exact h
  · exact ha u v (List.cons.inj he).2 hv

theorem Clear.tail {c : Char} (h : Clear sep (c :: a) b) : Clear sep a b := fun u v he hv =>
  h (c :: u) v (congrArg (c :: ·) he) hv

theorem clear_append {a' : List Char} (h : Clear sep a (a' ++ b)) (h' : Clear sep a' b) :
    Clear sep (a ++ a') b := by
  induction a with
  | nil => exact h'
  | cons c a ih =>
    refine clear_cons ?_ (ih h.tail)
    have hp := h [] (c :: a) rfl (List.cons_ne_nil _ _)
    rwa [← List.append_assoc] at hp

/-- A separator that begins with a letter begins nowhere in a text without that letter. -/
theorem clear_of_not_mem {c : Char} {s : List Char} (h : c ∉ a) : Clear (c :: s) a b := by
  rintro u v rfl hv hp
  obtain ⟨d, v, rfl⟩ := List.exists_cons_of_ne_nil hv
  obtain rfl : c = d := (List.cons_prefix_cons.1 hp).1
  exact h (List.mem_append_right _ List.mem_cons_self)

/-- What no separator begins in is in one piece. -/
theorem pieces_append (h : Clear sep a b) :
    pieces sep 0 m (a ++ b) = pieces sep 0 (m ++ a) b := by
  induction a generalizing m with
  | nil => rw [List.nil_append, List.append_nil]
  | cons c a ih =>
    have hp : ¬ sep <+: c :: (a ++ b) := h [] (c :: a) rfl (List.cons_ne_nil _ _)
    rw [List.cons_append, pieces, if_neg hp, ih h.tail, List.append_assoc, List.singleton_append]

theorem pieces_eq_singleton (h : Clear sep a []) : pieces sep 0 m a = [m ++ a] := by
  have hp := pieces_append (m := m) h
  rwa [List.append_nil, pieces_nil] at hp

theorem pieces_ne_nil : pieces sep skip m r ≠ [] := by
  induction r generalizing skip m with
  | nil => rw [pieces_nil]; exact List.cons_ne_nil _ _
  | cons c r ih =>
    rcases skip with _ | skip
    · rw [pieces]
      split_ifs
      · exact List.cons_ne_nil _ _
      · exact ih
    · exact ih

/-- The pieces joined are the text. -/
theorem intercalate_pieces (h : sep ≠ []) (m r : List Char) :
    sep.intercalate (pieces sep 0 m r) = m ++ r := by
  obtain ⟨n, hn⟩ : ∃ n, r.length ≤ n := ⟨_, Nat.le_refl _⟩
  induction n generalizing m r with
  | zero =>
    obtain rfl := List.length_eq_zero_iff.1 (Nat.le_zero.1 hn)
    rw [pieces_nil, List.intercalate_singleton, List.append_nil]
  | succ n ih =>
    rcases r with _ | ⟨c, r⟩
    · rw [pieces_nil, List.intercalate_singleton, List.append_nil]
    by_cases hp : sep <+: c :: r
    · obtain ⟨b, hb⟩ := hp
      have hlen : b.length ≤ n := by
        have hl := congrArg List.length hb
        have hs := List.length_pos_iff.2 h
        rw [List.length_append] at hl
        omega
      rw [← hb, pieces_sep h, List.intercalate_cons_of_ne_nil pieces_ne_nil, ih [] b hlen,
        List.nil_append, List.append_assoc]
    · rw [pieces, if_neg hp, ih _ _ (Nat.le_of_succ_le_succ hn), List.append_assoc,
        List.singleton_append]

/-- No piece has the letter at which the text is split. -/
theorem not_mem_of_mem_pieces {c : Char} (hm : c ∉ m) {p : List Char}
    (hp : p ∈ pieces [c] 0 m r) : c ∉ p := by
  induction r generalizing m with
  | nil =>
    rw [pieces_nil, List.mem_singleton] at hp
    exact hp ▸ hm
  | cons d r ih =>
    rw [pieces] at hp
    split_ifs at hp with hd
    · rcases List.mem_cons.1 hp with rfl | hp
      · exact hm
      · exact ih (List.not_mem_nil) hp
    · refine ih (fun hc => ?_) hp
      rcases List.mem_append.1 hc with hc | hc
      · exact hm hc
      · rw [List.mem_singleton.1 hc] at hd
        exact hd (List.cons_prefix_cons.2 ⟨rfl, List.nil_prefix⟩)

/-- A text that is split at a letter, where it has one. -/
theorem pieces_letter {c : Char} (m a b : List Char) :
    pieces [c] 0 m (a ++ c :: b) = pieces [c] 0 m a ++ pieces [c] 0 [] b := by
  induction a generalizing m with
  | nil => exact pieces_sep (m := m) (b := b) (List.cons_ne_nil c [])
  | cons d a ih =>
    have hstart : ∀ l : List Char, [c] <+: d :: l ↔ c = d := fun l =>
      ⟨fun h => (List.cons_prefix_cons.1 h).1,
        fun h => List.cons_prefix_cons.2 ⟨h, List.nil_prefix⟩⟩
    rw [List.cons_append, pieces, pieces]
    simp only [hstart]
    split_ifs
    · exact congrArg _ (ih [])
    · exact ih (m ++ [d])

/-- Texts without a letter, joined with it, are the pieces. -/
theorem pieces_intercalate {c : Char} {l : List (List Char)} (hne : l ≠ [])
    (hl : ∀ p ∈ l, c ∉ p) : pieces [c] 0 [] ([c].intercalate l) = l := by
  induction l with
  | nil => exact absurd rfl hne
  | cons p l ih =>
    obtain ⟨hp, hl⟩ := List.forall_mem_cons.1 hl
    rcases l with _ | ⟨q, l⟩
    · rw [List.intercalate_singleton, pieces_eq_singleton (clear_of_not_mem hp), List.nil_append]
    · rw [List.intercalate_cons_of_ne_nil (List.cons_ne_nil _ _), List.append_assoc,
        pieces_append (clear_of_not_mem hp), List.nil_append, pieces_sep (List.cons_ne_nil _ _),
        ih (List.cons_ne_nil _ _) hl]

/-- A piece has nothing in it that was not there. -/
theorem mem_of_mem_pieces {c d : Char} {p r : List Char} (hp : p ∈ pieces [c] 0 [] r)
    (hd : d ∈ p) : d ∈ r := by
  have hmem := mem_intercalate_of_mem c hp hd
  rwa [intercalate_pieces (List.cons_ne_nil c []), List.nil_append] at hmem

end Pieces

/-! ## Strings -/

section SplitOn

open String

/-- The position after some letters. -/
theorem unoffsetBy_utf8Len (a k : List Char) :
    (⟨utf8Len (a ++ k)⟩ : Pos.Raw).unoffsetBy ⟨utf8Len k⟩ = ⟨utf8Len a⟩ := by
  rw [Pos.Raw.unoffsetBy, utf8Len_append, Nat.add_sub_cancel]

/-- The search has passed over `l`, the piece `m` is begun, and the letters `k` of the separator
    `k ++ d :: t` are found after it. -/
theorem splitOnAux_eq (l m k r : List Char) (d : Char) (t : List Char) (acc : List String) :
    splitOnAux (ofList (l ++ m ++ k ++ r)) (ofList (k ++ d :: t)) ⟨utf8Len l⟩
        ⟨utf8Len (l ++ m ++ k)⟩ ⟨utf8Len k⟩ acc =
      acc.reverse ++ (pieces (k ++ d :: t) 0 m (k ++ r)).map ofList := by
  rw [splitOnAux]
  rcases r with _ | ⟨c, r⟩
  · -- The text ends, and the separator does not fit into `k`.
    have hclear : Clear (k ++ d :: t) k [] := by
      rintro u v rfl - hp
      have hlen := hp.length_le
      simp only [List.length_append, List.length_cons, List.length_nil] at hlen
      omega
    have hlast : Pos.Raw.extract (ofList (l ++ m ++ k ++ [])) ⟨utf8Len l⟩
        ⟨utf8Len (l ++ m ++ k)⟩ = ofList (m ++ k) := by
      have h := extract_of_valid l (m ++ k) []
      rwa [← utf8Len_append, ← List.append_assoc] at h
    rw [if_pos ((atEnd_of_valid (l ++ m ++ k) []).2 rfl), hlast, List.append_nil,
      pieces_eq_singleton hclear, List.map_singleton, List.reverse_cons]
  rw [if_neg (mt (atEnd_of_valid (l ++ m ++ k) (c :: r)).1 (List.cons_ne_nil _ _)),
    get_of_valid (l ++ m ++ k) (c :: r), get_of_valid k (d :: t),
    next_of_valid (l ++ m ++ k) c r, next_of_valid k d t]
  by_cases hcd : c = d
  · subst hcd
    rw [if_pos (by simp)]
    have hi : utf8Len (l ++ m ++ k) + c.utf8Size = utf8Len (l ++ m ++ (k ++ [c])) := by
      simp [Nat.add_assoc]
    have hj : utf8Len k + c.utf8Size = utf8Len (k ++ [c]) := by simp
    have htext : l ++ m ++ k ++ c :: r = l ++ m ++ (k ++ [c]) ++ r := by simp
    have hrest : k ++ c :: r = k ++ [c] ++ r := List.append_cons ..
    have hsep : k ++ c :: t = k ++ [c] ++ t := List.append_cons ..
    simp only [hi, hj, htext, hrest, hsep]
    rcases t with _ | ⟨e, t⟩
    · -- The separator is found, and ends the piece.
      have hpiece : Pos.Raw.extract (ofList (l ++ m ++ (k ++ [c]) ++ r)) ⟨utf8Len l⟩
          ⟨utf8Len (l ++ m)⟩ = ofList m := by
        have h := extract_of_valid l m (k ++ [c] ++ r)
        rwa [← utf8Len_append, ← List.append_assoc] at h
      obtain ⟨f, q, hq⟩ := List.exists_cons_of_ne_nil (show k ++ [c] ≠ [] by simp)
      have hne : k ++ [c] ≠ [] := hq ▸ List.cons_ne_nil _ _
      have ih := splitOnAux_eq (l ++ m ++ (k ++ [c])) [] [] r f q (ofList m :: acc)
      simp only [List.append_nil, List.nil_append, ← hq] at ih
      rw [if_pos ((atEnd_of_valid (k ++ [c]) []).2 rfl), unoffsetBy_utf8Len, hpiece,
        List.append_nil, pieces_sep hne, List.map_cons]
      exact ih.trans (by rw [List.reverse_cons, List.append_assoc, List.singleton_append])
    · rw [if_neg (mt (atEnd_of_valid (k ++ [c]) (e :: t)).1 (List.cons_ne_nil _ _))]
      exact splitOnAux_eq l m (k ++ [c]) r e t acc
  · -- The search begins anew a letter further.
    obtain ⟨e, w, hw⟩ := List.exists_cons_of_ne_nil (show k ++ c :: r ≠ [] by simp)
    have hp : ¬ k ++ d :: t <+: e :: w := by
      rw [← hw, List.prefix_append_right_inj, List.cons_prefix_cons]
      exact fun h => hcd h.1.symm
    have htext : l ++ m ++ k ++ c :: r = l ++ m ++ e :: w := by
      rw [List.append_assoc (l ++ m), hw]
    have hlen : utf8Len (l ++ m) + e.utf8Size = utf8Len (l ++ (m ++ [e])) := by
      simp [Nat.add_assoc]
    have hnew : l ++ m ++ e :: w = l ++ (m ++ [e]) ++ w := by simp
    obtain ⟨f, q, hq⟩ := List.exists_cons_of_ne_nil (show k ++ d :: t ≠ [] by simp)
    have ih := splitOnAux_eq l (m ++ [e]) [] w f q acc
    simp only [List.append_nil, List.nil_append, ← hq] at ih
    rw [if_neg (by simpa using hcd), unoffsetBy_utf8Len, htext, next_of_valid (l ++ m) e w, hlen,
      hnew, hw, pieces, if_neg hp]
    exact ih
termination_by ((k ++ r).length, t.length)
decreasing_by
  · refine Prod.Lex.left _ _ ?_
    simp only [List.length_append, List.length_cons, List.length_nil]
    omega
  · have hlen : (k ++ [c] ++ r).length = (k ++ c :: r).length := by simp
    rw [hlen]
    exact Prod.Lex.right _ (Nat.lt_succ_self _)
  · refine Prod.Lex.left _ _ ?_
    rw [hw]
    exact Nat.lt_succ_self _

/-- A text is split into its pieces. -/
theorem splitOn_eq {s sep : String} (h : sep ≠ "") :
    s.splitOn sep = (pieces sep.toList 0 [] s.toList).map ofList := by
  obtain ⟨d, t, hsep⟩ := List.exists_cons_of_ne_nil (mt String.toList_eq_nil_iff.1 h)
  have haux := splitOnAux_eq [] [] [] s.toList d t []
  simp only [List.nil_append, ← hsep, ofList_toList] at haux
  rw [splitOn, if_neg (by simpa using h)]
  exact haux

end SplitOn

/-- A piece of a text has no separator in it, and nothing that is not in the text. -/
theorem mem_splitOn {c d : Char} {s : List Char} : ∀ l ∈ s.splitOn c, c ∉ l ∧ (d ∈ l → d ∈ s) := by
  induction s with
  | nil =>
    intro l hl
    obtain rfl := List.mem_singleton.1 hl
    exact ⟨List.not_mem_nil, id⟩
  | cons e s ih =>
    rw [List.splitOn_cons_eq_if_modifyHead]
    split_ifs with he
    · intro l hl
      rcases List.mem_cons.1 hl with rfl | hl
      · exact ⟨List.not_mem_nil, fun h => absurd h List.not_mem_nil⟩
      · exact ⟨(ih l hl).1, fun h => List.mem_cons_of_mem _ ((ih l hl).2 h)⟩
    · obtain ⟨p, ps, hp⟩ := List.exists_cons_of_ne_nil (List.splitOn_ne_nil c s)
      rw [hp] at ih ⊢
      intro l hl
      rcases List.mem_cons.1 hl with rfl | hl
      · have hfirst := ih p List.mem_cons_self
        have hne : c ≠ e := fun hce => he (beq_iff_eq.2 hce.symm)
        exact ⟨List.not_mem_cons_of_ne_of_not_mem hne hfirst.1, fun h =>
          (List.mem_cons.1 h).elim (fun hd => hd ▸ List.mem_cons_self) fun h =>
            List.mem_cons_of_mem _ (hfirst.2 h)⟩
      · have hlater := ih l (List.mem_cons_of_mem _ hl)
        exact ⟨hlater.1, fun h => List.mem_cons_of_mem _ (hlater.2 h)⟩

end Smrt
