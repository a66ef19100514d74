import Smrt.Storage.History

/-!
# The names of commits

A commit is named by the digest of a text: of its parent, its author, its time, its message and its
config, each on lines of its own. The message alone may have several lines, with the config on the
last one, so the text says what each of them is (`commitText_inj`).

Those who contributed to a commit are not in the text. Calls that differ in nothing else make two
commits of one name (`makeCommit_id_iff`).
-/

namespace Smrt

/-! ## Lines of a text -/

section Lines

variable {a a' b b' : List Char}

/-- A text says what its first line is, and what follows it. -/
theorem eq_of_first_line (h : '\n' ∉ a) (h' : '\n' ∉ a') (he : a ++ '\n' :: b = a' ++ '\n' :: b') :
    a = a' ∧ b = b' := by
  have ha : a = a' := by
    rw [← History.takeWhile_line (r := b) h, he, History.takeWhile_line h']
  rw [ha] at he
  exact ⟨ha, (List.cons.inj (List.append_cancel_left he)).2⟩

/-- And what its last line is, and what comes before it. -/
theorem eq_of_last_line (h : '\n' ∉ b) (h' : '\n' ∉ b') (he : a ++ '\n' :: b = a' ++ '\n' :: b') :
    a = a' ∧ b = b' := by
  -- read backwards, the last line is the first one
  have hback : b.reverse ++ '\n' :: a.reverse = b'.reverse ++ '\n' :: a'.reverse := by
    have hrev := congrArg List.reverse he
    simpa only [List.reverse_append, List.reverse_cons, List.append_assoc, List.singleton_append,
      List.nil_append] using hrev
  obtain ⟨hb, ha⟩ := eq_of_first_line (List.mem_reverse.not.2 h) (List.mem_reverse.not.2 h') hback
  exact ⟨List.reverse_injective ha, List.reverse_injective hb⟩

end Lines

/-! ## The text of a commit -/

namespace CommitIds

open History

section Text

variable {N : Naming} {c c' : Commit}

/-- What a commit is of, as the callers supply it: what it follows is a commit, and neither its
    author nor its time has several lines. The config is written on one line. -/
structure Supplied (N : Naming) (c : Commit) : Prop where
  parent : ∀ id ∈ c.parent, isCommitId id = true
  author : '\n' ∉ c.author.toList
  at' : '\n' ∉ c.at'.toList
  text : '\n' ∉ (N.text c.snapshot).toList

/-- The text of a commit, line by line. -/
theorem toList_commitText (c : Commit) : (commitText N c).toList =
    (c.parent.getD "").toList ++ '\n' :: (c.author.toList ++ '\n' :: (c.at'.toList ++ '\n' ::
      (c.message.toList ++ '\n' :: (N.text c.snapshot).toList))) := by
  have hline : "\n".toList = ['\n'] := rfl
  rw [commitText]
  simp only [String.toList_append, hline, List.append_assoc, List.cons_append,
    List.nil_append]

/-- The text of a commit says what it is of. -/
theorem commitText_inj (h : Supplied N c) (h' : Supplied N c')
    (hcfg : N.text c.snapshot = N.text c'.snapshot → c.snapshot = c'.snapshot)
    (ht : commitText N c = commitText N c') :
    c.snapshot = c'.snapshot ∧ c.parent = c'.parent ∧ c.author = c'.author ∧ c.at' = c'.at' ∧
      c.message = c'.message := by
  have hparent := parent_eq_of_commitText h.parent h'.parent ht
  have hlist := congrArg String.toList ht
  rw [toList_commitText, toList_commitText, hparent] at hlist
  have hrest := (List.cons.inj (List.append_cancel_left hlist)).2
  obtain ⟨hauthor, hrest⟩ := eq_of_first_line h.author h'.author hrest
  obtain ⟨hat, hrest⟩ := eq_of_first_line h.at' h'.at' hrest
  obtain ⟨hmessage, htext⟩ := eq_of_last_line h.text h'.text hrest
  exact ⟨hcfg (String.toList_inj.1 htext), hparent, String.toList_inj.1 hauthor,
    String.toList_inj.1 hat, String.toList_inj.1 hmessage⟩

end Text

/-! ## Calls -/

/-- What a commit is made of. -/
structure Call where
  cfg : PackConfig
  parent : Option String
  author : String
  message : String
  contributors : List String
  at' : String

/-- The commit that a call makes. -/
def Call.commit (X : Outside) (N : Naming) (k : Call) : Commit :=
  makeCommit X N k.cfg k.parent k.author k.message k.contributors k.at'

/-- The calls are for the same commit, up to those who contributed to it. -/
def Call.Alike (k k' : Call) : Prop :=
  k.cfg = k'.cfg ∧ k.parent = k'.parent ∧ k.author = k'.author ∧ k.at' = k'.at' ∧
    k.message = k'.message

section Calls

variable {X : Outside} {N : Naming} {k k' : Call}

theorem id_commit (k : Call) : (k.commit X N).id = N.sha1 (commitText N (k.commit X N)) := rfl

/-- Calls that are alike make commits of one name. -/
theorem Call.Alike.id_eq (h : k.Alike k') : (k.commit X N).id = (k'.commit X N).id := by
  obtain ⟨hcfg, hparent, hauthor, hat, hmessage⟩ := h
  rw [Call.commit, Call.commit, makeCommit, makeCommit, hcfg, hparent, hauthor, hat, hmessage]

/-- They make one commit if the same people contributed to it. -/
theorem Call.Alike.commit_eq_iff (h : k.Alike k') :
    k.commit X N = k'.commit X N ↔ k.contributors = k'.contributors := by
  obtain ⟨hcfg, hparent, hauthor, hat, hmessage⟩ := h
  constructor
  · exact fun he => congrArg Commit.contributors he
  · intro hc
    rw [Call.commit, Call.commit, hcfg, hparent, hauthor, hat, hmessage, hc]

/-- Two calls make one commit, if they make commits of one name, if and only if they do not differ in
    those who contributed alone. -/
theorem makeCommit_id_iff (h : Supplied N (k.commit X N)) (h' : Supplied N (k'.commit X N))
    (hsha1 : N.sha1 (commitText N (k.commit X N)) = N.sha1 (commitText N (k'.commit X N)) →
      commitText N (k.commit X N) = commitText N (k'.commit X N))
    (hcfg : N.text k.cfg = N.text k'.cfg → k.cfg = k'.cfg) :
    ((k.commit X N).id = (k'.commit X N).id → k.commit X N = k'.commit X N) ↔
      (k.Alike k' → k.contributors = k'.contributors) := by
  constructor
  · intro hname halike
    exact halike.commit_eq_iff.1 (hname halike.id_eq)
  · intro hcontributors hid
    have halike : k.Alike k' := commitText_inj h h' hcfg (hsha1 hid)
    exact halike.commit_eq_iff.2 (hcontributors halike)

/-- A first commit, by some contributors. -/
def first (contributors : List String) : Call where
  cfg := .empty "Anvil"
  parent := none
  author := "ada"
  message := "first"
  contributors
  at' := "2026-01-01T00:00:00Z"

/-- The commit after it. -/
def second : Call where
  cfg := .empty "Anvil"
  parent := some "5afb5b59a5633cae487d434d2fb18e970232c78c"
  author := "ada"
  message := "second"
  contributors := ["ada", "ben"]
  at' := "2026-01-02T00:00:00Z"

theorem notMem_anvilText : '\n' ∉ anvilText.toList := by decide +kernel

theorem supplied_first : Supplied naming ((first ["ada"]).commit .none naming) where
  parent _ h := absurd h (Option.not_mem_none _)
  author := by decide
  at' := by decide
  text := notMem_anvilText

theorem supplied_second : Supplied naming (second.commit .none naming) where
  parent := by
    intro id h
    obtain rfl := Option.mem_some_iff.1 h
    decide
  author := by decide
  at' := by decide
  text := notMem_anvilText

/-- The two have names of their own. -/
theorem sha1_first_ne : naming.sha1 (commitText naming ((first ["ada"]).commit .none naming)) ≠
    naming.sha1 (commitText naming (second.commit .none naming)) := by
  decide +kernel

theorem makeCommit_id_iff_second :
    (((first ["ada"]).commit .none naming).id = (second.commit .none naming).id →
      (first ["ada"]).commit .none naming = second.commit .none naming) ↔
      ((first ["ada"]).Alike second → (first ["ada"]).contributors = second.contributors) :=
  makeCommit_id_iff supplied_first supplied_second (fun h => absurd h sha1_first_ne) fun _ => rfl

/-- One name for two commits. -/
theorem makeCommit_first_ben :
    ((first ["ada"]).commit .none naming).id = ((first ["ada", "ben"]).commit .none naming).id ∧
      (first ["ada"]).commit .none naming ≠ (first ["ada", "ben"]).commit .none naming :=
  ⟨rfl, fun h => absurd (congrArg Commit.contributors h) (by decide)⟩

end Calls

end CommitIds

end Smrt
