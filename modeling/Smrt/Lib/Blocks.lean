import Smrt.Lib.Split

/-!
# Texts of blocks

A text that is made of blocks is cut into them again where the ends of the blocks can be told: at
the first or at the last of a letter (`append_cons_inj`, `append_cons_inj_right`), or where a
separator begins each block and begins nowhere in one (`blockText`).

* `blockText_inj`: the blocks are told by the text;
* `exists_of_blockText_eq`: a text of blocks that is cut where a block begins, or at its end, is cut
  into two texts of blocks.
-/

namespace Smrt

section Cut

variable {α : Type*} {c : α} {u v x y : List α}

/-- A list is cut at the first of a letter in one way. -/
theorem append_cons_inj (hu : c ∉ u) (hv : c ∉ v) :
    u ++ c :: x = v ++ c :: y ↔ u = v ∧ x = y := by
  refine ⟨fun h => ?_, fun h => by rw [h.1, h.2]⟩
  induction u generalizing v with
  | nil =>
    rcases v with _ | ⟨d, v⟩
    · exact ⟨rfl, (List.cons.inj h).2⟩
    · exact absurd ((List.cons.inj h).1 ▸ List.mem_cons_self) hv
  | cons d u ih =>
    rcases v with _ | ⟨e, v⟩
    · exact absurd ((List.cons.inj h).1 ▸ List.mem_cons_self) hu
    · obtain rfl := (List.cons.inj h).1
      obtain ⟨rfl, hxy⟩ := ih (fun hc => hu (List.mem_cons_of_mem _ hc))
        (fun hc => hv (List.mem_cons_of_mem _ hc)) (List.cons.inj h).2
      exact ⟨rfl, hxy⟩

/-- A list is cut at the last of a letter in one way. -/
theorem append_cons_inj_right (hx : c ∉ x) (hy : c ∉ y) :
    u ++ c :: x = v ++ c :: y ↔ u = v ∧ x = y := by
  have hflip : ∀ u x : List α, (u ++ c :: x).reverse = x.reverse ++ c :: u.reverse := by
    intro u x
    rw [List.reverse_append, List.reverse_cons, List.append_assoc, List.singleton_append]
  rw [← List.reverse_inj, hflip, hflip, append_cons_inj (by rwa [List.mem_reverse])
    (by rwa [List.mem_reverse]), List.reverse_inj, List.reverse_inj, and_comm]

/-- Lines joined: each ends with the letter but the last. -/
theorem intercalate_append_cons (c : α) (l : List (List α)) (k : List α)
    (r : List (List α)) : [c].intercalate (l ++ k :: r) =
      (l.flatMap fun x => x ++ [c]) ++ (k ++ r.flatMap fun x => c :: x) := by
  have hrest : ∀ (k : List α) (r : List (List α)),
      [c].intercalate (k :: r) = k ++ r.flatMap fun x => c :: x := by
    intro k r
    induction r generalizing k with
    | nil => rw [List.intercalate_singleton, List.flatMap_nil, List.append_nil]
    | cons x r ih =>
      rw [List.intercalate_cons_cons, ih, List.flatMap_cons, List.append_assoc,
        List.singleton_append, List.cons_append]
  induction l with
  | nil => exact hrest k r
  | cons x l ih =>
    rw [List.cons_append, List.intercalate_cons_of_ne_nil (by simp), ih, List.flatMap_cons]
    simp only [List.append_assoc]

/-- Lines that are told from the line after them, and all that follows. -/
theorem lines_inj {l l' : List (List α)} {k k' r r' : List α} (hl : ∀ a ∈ l, c ∉ a)
    (hl' : ∀ a ∈ l', c ∉ a) (hk : c ∉ k) (hk' : c ∉ k') (hkl : k ∉ l') (hkl' : k' ∉ l)
    (h : (l.flatMap fun a => a ++ [c]) ++ (k ++ c :: r) =
      (l'.flatMap fun a => a ++ [c]) ++ (k' ++ c :: r')) : l = l' ∧ k = k' ∧ r = r' := by
  have hcons : ∀ (a : List α) (l : List (List α)) (x : List α),
      ((a :: l).flatMap fun a => a ++ [c]) ++ x =
        a ++ c :: ((l.flatMap fun a => a ++ [c]) ++ x) := by
    intro a l x
    rw [List.flatMap_cons, List.append_assoc, List.append_assoc, List.singleton_append]
  induction l generalizing l' with
  | nil =>
    rcases l' with _ | ⟨b, l'⟩
    · exact ⟨rfl, (append_cons_inj hk hk').1 h⟩
    · rw [hcons, List.flatMap_nil, List.nil_append,
        append_cons_inj hk (hl' b List.mem_cons_self)] at h
      exact absurd (h.1 ▸ List.mem_cons_self) hkl
  | cons a l ih =>
    obtain ⟨ha, hl⟩ := List.forall_mem_cons.1 hl
    rcases l' with _ | ⟨b, l'⟩
    · rw [hcons, List.flatMap_nil, List.nil_append, append_cons_inj ha hk'] at h
      exact absurd (h.1 ▸ List.mem_cons_self) hkl'
    · obtain ⟨hb, hlast⟩ := List.forall_mem_cons.1 hl'
      rw [hcons, hcons, append_cons_inj ha hb] at h
      obtain ⟨hll, hrest⟩ := ih hl hlast (fun hm => hkl (List.mem_cons_of_mem _ hm))
        (fun hm => hkl' (List.mem_cons_of_mem _ hm)) h.2
      exact ⟨by rw [h.1, hll], hrest⟩

end Cut

/-! ## Blocks -/

/-- A text of blocks, each begun by a separator. -/
def blockText (sep : List Char) (blocks : List (List Char)) : List Char :=
  blocks.flatMap fun b => sep ++ b

section Joined

variable {sep s b r N : List Char} {c : Char} {blocks blocks' : List (List Char)}

@[simp] theorem blockText_nil : blockText sep [] = [] := rfl

@[simp] theorem blockText_cons :
    blockText sep (b :: blocks) = sep ++ (b ++ blockText sep blocks) := by
  rw [blockText, List.flatMap_cons, List.append_assoc, ← blockText]

theorem blockText_append :
    blockText sep (blocks ++ blocks') = blockText sep blocks ++ blockText sep blocks' :=
  List.flatMap_append

/-- A text of blocks is nothing, or begins with the separator. -/
theorem blockText_eq_nil_or (sep : List Char) (blocks : List (List Char)) :
    blockText sep blocks = [] ∨ sep <+: blockText sep blocks := by
  rcases blocks with _ | ⟨b, blocks⟩
  · exact .inl rfl
  · exact .inr (blockText_cons ▸ List.prefix_append _ _)

/-- The separator begins nowhere in a text, whatever follows, if it begins nowhere in it with a
    letter after it with which the separator ends, and which it has nowhere else. -/
theorem clear_snoc (hc : c ∉ s) (h : ¬ s ++ [c] <:+: b ++ [c]) : Clear (s ++ [c]) b (c :: r) := by
  rintro u v rfl hv hp
  rw [List.append_assoc] at h
  have hv' : s ++ [c] <+: (v ++ [c]) ++ r := by
    rwa [List.append_assoc, List.singleton_append]
  rcases List.prefix_or_prefix_of_prefix hv' (List.prefix_append (v ++ [c]) r) with hle | hle
  · exact h (hle.isInfix.trans (List.suffix_append u (v ++ [c])).isInfix)
  · -- The separator is longer: the letter comes before its end, or it is the text.
    obtain ⟨w, hw⟩ := hle
    rcases List.eq_nil_or_concat w with rfl | ⟨w, d, rfl⟩
    · rw [List.append_nil] at hw
      exact h (hw ▸ (List.suffix_append u (v ++ [c])).isInfix)
    · rw [List.concat_eq_append, ← List.append_assoc] at hw
      obtain ⟨hs, -⟩ := List.append_inj' hw rfl
      exact hc (hs ▸ List.mem_append_left _ (List.mem_append_right _ List.mem_cons_self))

/-- Nowhere in a block does a separator begin, whatever follows. -/
def Block (sep b : List Char) : Prop := ∀ blocks, Clear sep b (blockText sep blocks)

theorem pieces_blockText (hsep : sep ≠ []) (h : ∀ b ∈ blocks, Block sep b) (m : List Char) :
    pieces sep 0 m (blockText sep blocks) = m :: blocks := by
  induction blocks generalizing m with
  | nil => rw [blockText_nil, pieces_nil]
  | cons b blocks ih =>
    obtain ⟨hb, hblocks⟩ := List.forall_mem_cons.1 h
    rw [blockText_cons, pieces_sep hsep, pieces_append (hb blocks), List.nil_append, ih hblocks]

/-- The blocks are told by the text. -/
theorem blockText_inj (hsep : sep ≠ []) (h : ∀ b ∈ blocks, Block sep b)
    (h' : ∀ b ∈ blocks', Block sep b) (he : blockText sep blocks = blockText sep blocks') :
    blocks = blocks' := by
  have hp := pieces_blockText hsep h []
  rw [he, pieces_blockText hsep h'] at hp
  exact (List.cons.inj hp).2.symm

/-- A text of blocks that is cut at its end, or where a block begins. -/
theorem exists_of_blockText_eq (hc : c ∉ s) (h : ∀ b ∈ blocks, Block (c :: s) b)
    (he : blockText (c :: s) blocks = N ++ r) (hr : r = [] ∨ c :: s <+: r) :
    ∃ l l', blocks = l ++ l' ∧ N = blockText (c :: s) l ∧ r = blockText (c :: s) l' := by
  induction blocks generalizing N with
  | nil =>
    obtain ⟨rfl, rfl⟩ := List.append_eq_nil_iff.1 he.symm
    exact ⟨[], [], rfl, rfl, rfl⟩
  | cons b blocks ih =>
    obtain ⟨hb, hblocks⟩ := List.forall_mem_cons.1 h
    rcases N with _ | ⟨d, N⟩
    · exact ⟨[], b :: blocks, rfl, rfl, he.symm⟩
    rw [blockText_cons, ← List.append_assoc] at he
    -- What is cut off is at least the first block: no separator begins in the rest of it.
    obtain ⟨N', hN, hrest⟩ : ∃ N', d :: N = (c :: s ++ b) ++ N' ∧
        blockText (c :: s) blocks = N' ++ r := by
      rcases List.append_eq_append_iff.1 he with ⟨N', hN, hrest⟩ | ⟨v, hv, hrest⟩
      · exact ⟨N', hN, hrest⟩
      · rcases eq_or_ne v [] with rfl | hne
        · rw [List.append_nil] at hv
          exact ⟨[], by rw [List.append_nil, hv], by rw [List.nil_append]; exact hrest.symm⟩
        · have hclear : Clear (c :: s) (s ++ b) (blockText (c :: s) blocks) :=
            clear_append (clear_of_not_mem hc) (hb blocks)
          have hsep : c :: s <+: r :=
            hr.resolve_left fun hnil => hne (List.append_eq_nil_iff.1 (hrest.symm.trans hnil)).1
          exact absurd (hrest ▸ hsep) (hclear N v (List.cons.inj hv).2.symm hne)
    obtain ⟨l, l', hl, rfl, hr'⟩ := ih hblocks hrest
    exact ⟨b :: l, l', congrArg (b :: ·) hl, by rw [hN, blockText_cons, List.append_assoc], hr'⟩

end Joined

end Smrt
