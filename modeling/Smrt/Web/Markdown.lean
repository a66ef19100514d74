import Mathlib.Data.List.Basic
import Mathlib.Data.List.TakeWhile
import Mathlib.Data.Nat.Notation
import Mathlib.Tactic.SplitIfs
import Smrt.Lib.Blocks

/-!
# The preview of a description

A description is rendered block by block. A turn takes the lines of one block off the text (`turn`):
a code block up to its closing fence, a heading, a rule, a quotation, the items of a list, an empty
line, or else a paragraph, which ends before an empty line and before a line that opens a block
(`isBlockStart`). A quotation is rendered as a text of its own. The text of a block is rendered by
replacing what stands between marks, one kind of mark after the other (`renderInline`).

The renderer has no bound on its turns, so it may not end. It is run with fuel here, and ends
(`Ends`) if there is enough of it. A turn takes a line, unless that line opens a heading by
`isBlockStart` but not by the expression that reads headings, in which the text of a heading ends
with the line, and a line or paragraph separator ends a line there (`Gap`). Such a line is a block of
no line over and over again. The renderer ends if and only if it comes to none
(`renderMarkdown_ends_iff`).
-/

namespace Smrt

namespace Markdown

abbrev Text := List Char

/-! ## Letters -/

/-- The class `\s`. -/
def isSpace (c : Char) : Bool :=
  (9 ≤ c.val ∧ c.val ≤ 13) ∨ c.val = 32 ∨ c.val = 0xA0 ∨ c.val = 0x1680 ∨
    (0x2000 ≤ c.val ∧ c.val ≤ 0x200A) ∨ c.val = 0x2028 ∨ c.val = 0x2029 ∨ c.val = 0x202F ∨
    c.val = 0x205F ∨ c.val = 0x3000 ∨ c.val = 0xFEFF

/-- What the dot does not match. -/
def isLineEnd (c : Char) : Bool := c = '\n' ∨ c = '\r' ∨ c.val = 0x2028 ∨ c.val = 0x2029

/-- The class `\w`. -/
def isWord (c : Char) : Bool := c.isAlphanum ∨ c = '_'

def trimText (s : Text) : Text := ((s.dropWhile isSpace).reverse.dropWhile isSpace).reverse

/-! ## Text of a block -/

def escapeHtml (s : Text) : Text :=
  s.flatMap fun c => match c with
    | '&' => "&amp;".toList
    | '<' => "&lt;".toList
    | '>' => "&gt;".toList
    | '"' => "&quot;".toList
    | '\'' => "&#39;".toList
    | c => [c]

/-- `/^(https?:\/\/|mailto:|#|\/|\.{1,2}\/)/i`. -/
def hasScheme (u : Text) : Bool :=
  ["https://", "http://", "mailto:", "#", "/", "./", "../"].any fun p =>
    p.toList.isPrefixOf (u.map Char.toLower)

/-- `/^[\w.-]+(\/|$)/`. -/
def isBarePath (u : Text) : Bool :=
  let name (c : Char) : Bool := isWord c ∨ c = '.' ∨ c = '-'
  u.takeWhile name ≠ [] ∧ (u.dropWhile name = [] ∨ (u.dropWhile name).head? = some '/')

def safeUrl (url : Text) : Text :=
  let u := trimText url
  if hasScheme u then u else if isBarePath u then u else ['#']

/-- What an expression finds in a text, from left to right: the letters it passes over, and its
    matches. An expression says what it matches at a place, and how many letters of it, and whether
    the place is the first one may matter; `skip` letters of a match are still to be passed over. -/
def scan {α : Type} (find : Bool → Text → Option (α × ℕ)) : Bool → ℕ → Text → List (Char ⊕ α)
  | _, _, [] => []
  | _, skip + 1, _ :: s => scan find false skip s
  | first, 0, c :: s => match find first (c :: s) with
    | some (a, n) => .inr a :: scan find false (n - 1) s
    | none => .inl c :: scan find false 0 s

/-- A text in which the matches are replaced. -/
def replaceAll {α : Type} (find : Bool → Text → Option (α × ℕ)) (put : α → Text) (s : Text) :
    Text :=
  (scan find true 0 s).flatMap (Sum.elim (fun c => [c]) put)

/-- A mark, some letters other than `stop`, and the mark again. -/
def enclosed (mark : Text) (stop : Char) (s : Text) : Option (Text × ℕ) :=
  let inner := (s.drop mark.length).takeWhile (· ≠ stop)
  if mark <+: s ∧ inner ≠ [] ∧ mark <+: (s.drop mark.length).dropWhile (· ≠ stop) then
    some (inner, mark.length + inner.length + mark.length)
  else none

/-- A label in brackets after `lead`, and an address in parentheses. -/
def linked (lead : Text) (unlabelled : Bool) (s : Text) : Option ((Text × Text) × ℕ) :=
  let label := (s.drop lead.length).takeWhile (· ≠ ']')
  let after := (s.drop lead.length).dropWhile (· ≠ ']')
  let url := (after.drop 2).takeWhile fun c => c ≠ ')' ∧ !isSpace c
  if lead <+: s ∧ (unlabelled ∨ label ≠ []) ∧ "](".toList <+: after ∧ url ≠ [] ∧
      ((after.drop 2).drop url.length).head? = some ')' then
    some ((label, url), lead.length + label.length + 2 + url.length + 1)
  else none

def backtick : Char := Char.ofNat 96

/-- ``/`([^`]+)`/``. -/
def codeSpan (_ : Bool) (s : Text) : Option (Text × ℕ) := enclosed [backtick] backtick s

/-- `/!\[([^\]]*)\]\(([^)\s]+)\)/`. -/
def imageSpan (_ : Bool) (s : Text) : Option ((Text × Text) × ℕ) := linked ['!', '['] true s

/-- `/\[([^\]]+)\]\(([^)\s]+)\)/`. -/
def linkSpan (_ : Bool) (s : Text) : Option ((Text × Text) × ℕ) := linked ['['] false s

/-- `/\*\*([^*]+)\*\*/`. -/
def strongStars (_ : Bool) (s : Text) : Option (Text × ℕ) := enclosed ['*', '*'] '*' s

/-- `/__([^_]+)__/`. -/
def strongScores (_ : Bool) (s : Text) : Option (Text × ℕ) := enclosed ['_', '_'] '_' s

/-- `/\*([^*]+)\*/`. -/
def emStar (_ : Bool) (s : Text) : Option (Text × ℕ) := enclosed ['*'] '*' s

/-- `/_([^_]+)_(?=[^\w]|$)/`. -/
def emScoreHere (s : Text) : Option (Text × ℕ) :=
  (enclosed ['_'] '_' s).filter fun m => !(s.drop m.2).head?.any isWord

/-- `/(^|[^\w])_([^_]+)_(?=[^\w]|$)/`: what stands before, and what is enclosed. -/
def emScore (first : Bool) (s : Text) : Option ((Text × Text) × ℕ) :=
  ((if first then emScoreHere s else none).map fun m => (([], m.1), m.2)).or <|
    match s with
    | c :: s => if isWord c then none else (emScoreHere s).map fun m => (([c], m.1), m.2 + 1)
    | [] => none

/-- `/@@MD(\d+)@@/`: the number. -/
def tokenSpan (_ : Bool) (s : Text) : Option (ℕ × ℕ) :=
  let digits := (s.drop 4).takeWhile Char.isDigit
  if "@@MD".toList <+: s ∧ digits ≠ [] ∧ "@@".toList <+: (s.drop 4).drop digits.length then
    some (digits.foldl (fun n d => 10 * n + (d.toNat - '0'.toNat)) 0, 4 + digits.length + 2)
  else none

/-- The token that stands for what is kept at a place. -/
def token (n : ℕ) : Text := "@@MD".toList ++ (toString n).toList ++ "@@".toList

/-- The matches are kept, in turn, and a token stands for each of them. -/
def keepAll {α : Type} (html : α → Text) : List (Char ⊕ α) → List Text → Text × List Text
  | [], stash => ([], stash)
  | .inl c :: found, stash => ((keepAll html found stash).1.cons c, (keepAll html found stash).2)
  | .inr a :: found, stash =>
    (token stash.length ++ (keepAll html found (stash ++ [html a])).1,
      (keepAll html found (stash ++ [html a])).2)

def codeHtml (code : Text) : Text := "<code>".toList ++ escapeHtml code ++ "</code>".toList

def imageHtml (m : Text × Text) : Text :=
  "<img alt=\"".toList ++ escapeHtml m.1 ++ "\" src=\"".toList ++ escapeHtml (safeUrl m.2) ++
    "\" />".toList

def linkHtml (m : Text × Text) : Text :=
  "<a href=\"".toList ++ escapeHtml (safeUrl m.2) ++
    "\" target=\"_blank\" rel=\"noopener noreferrer\">".toList ++ escapeHtml m.1 ++ "</a>".toList

def strongHtml (inner : Text) : Text := "<strong>".toList ++ inner ++ "</strong>".toList

def emHtml (inner : Text) : Text := "<em>".toList ++ inner ++ "</em>".toList

/-- A text with tokens for its code spans, images and links, and what these are. -/
def protect (text : Text) : Text × List Text :=
  let code := keepAll codeHtml (scan codeSpan true 0 text) []
  let images := keepAll imageHtml (scan imageSpan true 0 code.1) code.2
  keepAll linkHtml (scan linkSpan true 0 images.1) images.2

/-- A text with tags for what is emphasised. -/
def emphasise (s : Text) : Text :=
  let strong := replaceAll strongScores strongHtml (replaceAll strongStars strongHtml s)
  replaceAll emScore (fun m => m.1 ++ emHtml m.2) (replaceAll emStar emHtml strong)

/-- A text with what is kept in the places of the tokens. -/
def restore (stash : List Text) (s : Text) : Text :=
  replaceAll tokenSpan (fun n => stash.getD n []) s

def renderInline (text : Text) : Text :=
  restore (protect text).2 (emphasise (escapeHtml (protect text).1))

/-! ## Lines -/

/-- `/^```/`. -/
def isFence (line : Text) : Bool := [backtick, backtick, backtick] <+: line

/-- ``/^```\s*$/``. -/
def closesFence (line : Text) : Bool := isFence line ∧ (line.drop 3).all isSpace

/-- `/^(#{1,6})\s+(.*)$/`: the level and the text. -/
def heading (line : Text) : Option (ℕ × Text) :=
  let level := (line.takeWhile (· = '#')).length
  let text := (line.drop level).dropWhile isSpace
  if 1 ≤ level ∧ level ≤ 6 ∧ (line.drop level).head?.any isSpace ∧ !text.any isLineEnd then
    some (level, text)
  else none

/-- `/^#{1,6}\s/`. -/
def opensHeading (line : Text) : Bool :=
  let level := (line.takeWhile (· = '#')).length
  1 ≤ level ∧ level ≤ 6 ∧ (line.drop level).head?.any isSpace

/-- `/^\s*([-*_])(\s*\1){2,}\s*$/`: all letters that are no spaces are one of the marks, three of
    them at least. -/
def isRule (line : Text) : Bool :=
  let marks := line.filter fun c => !isSpace c
  ['-', '*', '_'].any fun mark => 3 ≤ marks.length ∧ marks.all (· = mark)

/-- `/^\s*>/`. -/
def isQuote (line : Text) : Bool := (line.dropWhile isSpace).head? = some '>'

/-- A quoted line without its mark, and without a space after that. -/
def unquote (line : Text) : Text :=
  let quoted := (line.dropWhile isSpace).drop 1
  if quoted.head?.any isSpace then quoted.drop 1 else quoted

/-- `/^\s*[-*+]\s/`. -/
def opensBullet (line : Text) : Bool :=
  let marked := line.dropWhile isSpace
  marked.head?.any (fun c => c = '-' ∨ c = '*' ∨ c = '+') ∧ (marked.drop 1).head?.any isSpace

/-- `/^\s*[-*+]\s+/`: what follows. -/
def bullet (line : Text) : Option Text :=
  let marked := line.dropWhile isSpace
  if marked.head?.any (fun c => c = '-' ∨ c = '*' ∨ c = '+') ∧ (marked.drop 1).head?.any isSpace
  then some ((marked.drop 1).dropWhile isSpace) else none

/-- `/^\s*\d+[.)]\s/`. -/
def opensNumber (line : Text) : Bool :=
  let digits := line.dropWhile isSpace
  let marked := digits.dropWhile Char.isDigit
  digits.head?.any Char.isDigit ∧ marked.head?.any (fun c => c = '.' ∨ c = ')') ∧
    (marked.drop 1).head?.any isSpace

/-- `/^\s*\d+[.)]\s+/`: what follows. -/
def numbered (line : Text) : Option Text :=
  let digits := line.dropWhile isSpace
  let marked := digits.dropWhile Char.isDigit
  if digits.head?.any Char.isDigit ∧ marked.head?.any (fun c => c = '.' ∨ c = ')') ∧
      (marked.drop 1).head?.any isSpace then some ((marked.drop 1).dropWhile isSpace) else none

/-- `/^\s*$/`. -/
def isBlank (line : Text) : Bool := line.all isSpace

def isBlockStart (line : Text) : Bool :=
  (opensHeading line || isFence line || isQuote line || opensBullet line || opensNumber line) ||
    isRule line

/-! ## Blocks -/

inductive Block
  | code (body : List Text)
  | heading (level : ℕ) (text : Text)
  | rule
  | quote (body : List Text)
  | bullets (items : List Text)
  | numbers (items : List Text)
  | blank
  | paragraph (lines : List Text)

/-- Whether a paragraph goes on with a line. -/
def goesOn (line : Text) : Bool := !isBlank line && !isBlockStart line

/-- The lines of a quotation, without their marks. -/
def quotation (line : Text) (lines : List Text) : List Text :=
  ((line :: lines).takeWhile isQuote).map unquote

/-- A turn: the next block, and the lines after it. -/
def turn (line : Text) (lines : List Text) : Block × List Text :=
  if isFence line then
    (.code (lines.takeWhile (!closesFence ·)), (lines.dropWhile (!closesFence ·)).drop 1)
  else match heading line with
    | some (level, text) => (.heading level text, lines)
    | none =>
      if isRule line then (.rule, lines)
      else if isQuote line then
        (.quote (quotation line lines), (line :: lines).dropWhile isQuote)
      else if (bullet line).isSome then
        (.bullets (((line :: lines).takeWhile fun l => (bullet l).isSome).filterMap bullet),
          (line :: lines).dropWhile fun l => (bullet l).isSome)
      else if (numbered line).isSome then
        (.numbers (((line :: lines).takeWhile fun l => (numbered l).isSome).filterMap numbered),
          (line :: lines).dropWhile fun l => (numbered l).isSome)
      else if isBlank line then (.blank, lines)
      else (.paragraph ((line :: lines).takeWhile goesOn), (line :: lines).dropWhile goesOn)

/-- The items of a list. -/
def listHtml (items : List Text) : Text :=
  items.flatMap fun it => "<li>".toList ++ renderInline it ++ "</li>".toList

/-- What a block is rendered to, given what the text of a quotation is: nothing, if it is an empty
    line. -/
def Block.html (quoted : Text) : Block → List Text
  | code body =>
    ["<pre><code>".toList ++ escapeHtml (['\n'].intercalate body) ++ "</code></pre>".toList]
  | heading level text =>
    ["<h".toList ++ (toString level).toList ++ ">".toList ++ renderInline (trimText text) ++
      "</h".toList ++ (toString level).toList ++ ">".toList]
  | rule => ["<hr />".toList]
  | quote _ => ["<blockquote>".toList ++ quoted ++ "</blockquote>".toList]
  | bullets items => ["<ul>".toList ++ listHtml items ++ "</ul>".toList]
  | numbers items => ["<ol>".toList ++ listHtml items ++ "</ol>".toList]
  | blank => []
  | paragraph lines => ["<p>".toList ++ renderInline ([' '].intercalate lines) ++ "</p>".toList]

/-- `md.replace(/\r\n?/g, '\n')`. -/
def newlines : Text → Text
  | '\r' :: '\n' :: s => '\n' :: newlines s
  | '\r' :: s => '\n' :: newlines s
  | c :: s => c :: newlines s
  | [] => []

def linesOf (md : Text) : List Text := (newlines md).splitOn '\n'

/-- The turns of a text, as many as there is fuel for. -/
def renderLines : ℕ → List Text → Option (List Text)
  | 0, _ => none
  | _ + 1, [] => some []
  | fuel + 1, line :: lines => do
    let quoted ← match (turn line lines).1 with
      | .quote body =>
        (renderLines fuel (linesOf (['\n'].intercalate body))).map (['\n'].intercalate ·)
      | _ => some []
    let after ← renderLines fuel (turn line lines).2
    some ((turn line lines).1.html quoted ++ after)

def renderMarkdown (fuel : ℕ) (md : Text) : Option Text :=
  (renderLines fuel (linesOf md)).map (['\n'].intercalate ·)

/-- The renderer ends. -/
def Ends (md : Text) : Prop := ∃ fuel, (renderMarkdown fuel md).isSome

/-! ## Where the renderer does not end -/

/-- A line that opens a heading with a separator in its text. -/
def Gap (line : Text) : Prop :=
  opensHeading line = true ∧
    ∃ c ∈ (line.dropWhile (· = '#')).dropWhile isSpace, isLineEnd c = true

/-- A line stands outside of code blocks: of the lines, or of those of a quotation. -/
inductive Outside (line : Text) : List Text → Prop
  | head {lines : List Text} : Outside line (line :: lines)
  | code {k : Text} {lines : List Text} : isFence k = true →
      Outside line ((lines.dropWhile (!closesFence ·)).drop 1) → Outside line (k :: lines)
  | quoted {k : Text} {lines : List Text} : isQuote k = true →
      Outside line (quotation k lines) → Outside line (k :: lines)
  | past {k : Text} {lines : List Text} : isQuote k = true →
      Outside line ((k :: lines).dropWhile isQuote) → Outside line (k :: lines)
  | next {k : Text} {lines : List Text} : isFence k = false → isQuote k = false →
      Outside line lines → Outside line (k :: lines)

/-- No heading outside of code blocks has a separator in its text. -/
def NoGap (lines : List Text) : Prop := ∀ line, Outside line lines → ¬ Gap line

section Lines

variable {line k : Text} {lines : List Text}

theorem drop_takeWhile_length (p : Char → Bool) (s : Text) :
    s.drop (s.takeWhile p).length = s.dropWhile p := by
  have h : (s.takeWhile p ++ s.dropWhile p).drop (s.takeWhile p).length = s.dropWhile p :=
    List.drop_left
  rwa [List.takeWhile_append_dropWhile] at h

theorem opensHeading_iff : opensHeading line = true ↔
    (1 ≤ (line.takeWhile (· = '#')).length ∧ (line.takeWhile (· = '#')).length ≤ 6) ∧
      (line.dropWhile (· = '#')).head?.any isSpace = true := by
  rw [opensHeading]
  rw [drop_takeWhile_length, decide_eq_true_iff, and_assoc]

/-- A line opens a heading and is none, if there is a separator in its text. -/
theorem gap_iff : Gap line ↔ opensHeading line = true ∧ heading line = none := by
  refine and_congr_right fun h => ?_
  obtain ⟨⟨h₁, h₆⟩, hs⟩ := opensHeading_iff.1 h
  rw [heading, drop_takeWhile_length]
  constructor
  · rintro ⟨c, hc, he⟩
    rw [if_neg]
    rintro ⟨_, _, _, hall⟩
    rw [Bool.not_eq_true', List.any_eq_false] at hall
    exact hall c hc he
  · intro hnone
    by_contra! hall
    have hclear : (!((line.dropWhile (· = '#')).dropWhile isSpace).any isLineEnd) = true := by
      rw [Bool.not_eq_true', List.any_eq_false]
      exact hall
    rw [if_pos ⟨h₁, h₆, hs, hclear⟩] at hnone
    exact absurd hnone nofun

/-- A line that opens a heading begins with its mark. -/
theorem head_of_opensHeading (h : opensHeading line = true) : ∃ s, line = '#' :: s := by
  obtain ⟨⟨h₁, _⟩, _⟩ := opensHeading_iff.1 h
  rcases line with _ | ⟨c, s⟩
  · exact absurd h₁ (by decide)
  · rw [List.takeWhile_cons] at h₁
    split_ifs at h₁ with hc
    · exact ⟨s, by rw [of_decide_eq_true hc]⟩
    · exact absurd h₁ (by decide)

/-- The first letter of a line that is no space. -/
def lead (line : Text) : Option Char := (line.dropWhile isSpace).head?

theorem lead_eq_find? (line : Text) : lead line = line.find? fun c => !isSpace c := by
  induction line with
  | nil => rfl
  | cons c line ih =>
    rw [lead, List.dropWhile_cons, List.find?_cons]
    by_cases hc : isSpace c = true
    · rw [if_pos hc, hc]
      exact ih
    · rw [if_neg hc, eq_false_of_ne_true hc]
      rfl

theorem lead_of_isFence (h : isFence line = true) : lead line = some backtick := by
  obtain ⟨s, rfl⟩ := of_decide_eq_true h
  rfl

theorem isQuote_iff : isQuote line = true ↔ lead line = some '>' := decide_eq_true_iff

theorem lead_of_opensHeading (h : opensHeading line = true) : lead line = some '#' := by
  obtain ⟨s, rfl⟩ := head_of_opensHeading h
  rfl

/-- The first letter of a rule is its mark. -/
theorem lead_of_isRule (h : isRule line = true) :
    ∃ mark ∈ ['-', '*', '_'], lead line = some mark := by
  obtain ⟨mark, hmark, h⟩ := List.any_eq_true.1 h
  obtain ⟨hlength, hall⟩ := of_decide_eq_true h
  have hne : line.filter (fun c => !isSpace c) ≠ [] := fun hnil => by
    rw [hnil] at hlength
    exact absurd hlength (by decide)
  obtain ⟨c, marks, hc⟩ := List.exists_cons_of_ne_nil hne
  rw [hc, List.all_cons, Bool.and_eq_true] at hall
  refine ⟨mark, hmark, ?_⟩
  rw [lead_eq_find?, ← List.head?_filter, hc, List.head?_cons, of_decide_eq_true hall.1]

theorem lead_of_opensBullet (h : opensBullet line = true) :
    ∃ mark ∈ ['-', '*', '+'], lead line = some mark := by
  obtain ⟨mark, hmark, hc⟩ := (Option.any_eq_true _ _).1 (of_decide_eq_true h).1
  refine ⟨mark, ?_, hmark⟩
  rcases of_decide_eq_true hc with rfl | rfl | rfl
  all_goals decide

theorem lead_of_opensNumber (h : opensNumber line = true) :
    ∃ digit, digit.isDigit = true ∧ lead line = some digit := by
  obtain ⟨digit, hlead, hdigit⟩ := (Option.any_eq_true _ _).1 (of_decide_eq_true h).1
  exact ⟨digit, hdigit, hlead⟩

theorem lead_of_isBlank (h : isBlank line = true) : lead line = none := by
  rw [lead_eq_find?, List.find?_eq_none]
  intro c hc
  rw [List.all_eq_true.1 h c hc]
  exact Bool.false_ne_true

/-- What a turn may take besides quotations and code blocks. -/
def Plain (line : Text) : Prop := isFence line = false ∧ isQuote line = false ∧ ¬ Gap line

theorem plain_of_lead (h : ∀ c ∈ lead line, c ≠ backtick ∧ c ≠ '>' ∧ c ≠ '#') : Plain line := by
  refine ⟨eq_false_of_ne_true fun hf => ?_, eq_false_of_ne_true fun hq => ?_,
    fun hg => ?_⟩
  · exact (h _ (lead_of_isFence hf)).1 rfl
  · exact (h _ (isQuote_iff.1 hq)).2.1 rfl
  · exact (h _ (lead_of_opensHeading hg.1)).2.2 rfl

theorem plain_of_mark {marks : List Char} {mark : Char}
    (hmarks : (marks.all fun c => c ≠ backtick ∧ c ≠ '>' ∧ c ≠ '#') = true)
    (hmark : mark ∈ marks) (hlead : lead line = some mark) : Plain line :=
  plain_of_lead fun _ hc => Option.some.inj (hlead.symm.trans hc) ▸
    of_decide_eq_true (List.all_eq_true.1 hmarks mark hmark)

theorem plain_of_isRule (h : isRule line = true) : Plain line := by
  obtain ⟨mark, hmark, hlead⟩ := lead_of_isRule h
  exact plain_of_mark (by decide) hmark hlead

theorem plain_of_opensBullet (h : opensBullet line = true) : Plain line := by
  obtain ⟨mark, hmark, hlead⟩ := lead_of_opensBullet h
  exact plain_of_mark (by decide) hmark hlead

theorem plain_of_opensNumber (h : opensNumber line = true) : Plain line := by
  obtain ⟨digit, hdigit, hlead⟩ := lead_of_opensNumber h
  refine plain_of_lead fun c hc => ?_
  obtain rfl := Option.some.inj (hlead.symm.trans hc)
  refine ⟨?_, ?_, ?_⟩
  · rintro rfl; exact absurd hdigit (by decide)
  · rintro rfl; exact absurd hdigit (by decide)
  · rintro rfl; exact absurd hdigit (by decide)

theorem plain_of_isBlank (h : isBlank line = true) : Plain line :=
  plain_of_lead fun _ hc => absurd ((lead_of_isBlank h).symm.trans hc) nofun

theorem opensHeading_of_heading {level : ℕ} {text : Text}
    (h : heading line = some (level, text)) : opensHeading line = true := by
  rw [heading] at h
  split_ifs at h with hh
  exact decide_eq_true ⟨hh.1, hh.2.1, hh.2.2.1⟩

theorem plain_of_heading {level : ℕ} {text : Text} (h : heading line = some (level, text)) :
    Plain line := by
  obtain ⟨s, rfl⟩ := head_of_opensHeading (opensHeading_of_heading h)
  refine ⟨eq_false_of_ne_true fun hf => ?_, rfl, fun hg => ?_⟩
  · exact absurd (Option.some.inj (lead_of_isFence hf)) (by decide)
  · exact absurd (h.symm.trans (gap_iff.1 hg).2) nofun

/-- A paragraph ends before a line that opens a block. -/
theorem goesOn_iff : goesOn line = true ↔ isBlank line = false ∧ opensHeading line = false ∧
    isFence line = false ∧ isQuote line = false ∧ opensBullet line = false ∧
    opensNumber line = false ∧ isRule line = false := by
  simp only [goesOn, isBlockStart, Bool.and_eq_true, Bool.not_eq_true', Bool.or_eq_false_iff,
    and_assoc]

theorem plain_of_goesOn (h : goesOn line = true) : Plain line := by
  obtain ⟨_, hheading, hfence, hquote, _⟩ := goesOn_iff.1 h
  exact ⟨hfence, hquote, fun hg => absurd (hg.1.symm.trans hheading) nofun⟩

theorem isSome_bullet : (bullet line).isSome = opensBullet line := by
  rw [bullet, opensBullet]
  split_ifs with h
  · rw [decide_eq_true h]; rfl
  · rw [decide_eq_false h]; rfl

theorem isSome_numbered : (numbered line).isSome = opensNumber line := by
  rw [numbered, opensNumber]
  split_ifs with h
  · rw [decide_eq_true h]; rfl
  · rw [decide_eq_false h]; rfl

end Lines

/-! ## A turn -/

section Turn

variable {line k : Text} {lines taken rest : List Text}

/-- The lines that a turn takes at once, one of them at least. -/
theorem taken_of_takeWhile {p : Text → Bool} (hp : ∀ l, p l = true → Plain l)
    (hline : p line = true) : ∃ taken, line :: lines = taken ++ (line :: lines).dropWhile p ∧
      (∀ l ∈ taken, Plain l) ∧ (taken = [] ↔ Gap line) := by
  refine ⟨(line :: lines).takeWhile p, List.takeWhile_append_dropWhile.symm,
    fun l hl => hp l (List.mem_takeWhile_imp hl), ?_⟩
  rw [List.takeWhile_cons_of_pos hline]
  exact ⟨nofun, fun hg => absurd hg (hp line hline).2.2⟩

theorem taken_of_plain (h : Plain line) : ∃ taken, line :: lines = taken ++ lines ∧
    (∀ l ∈ taken, Plain l) ∧ (taken = [] ↔ Gap line) :=
  ⟨[line], rfl, fun _ hl => List.mem_singleton.1 hl ▸ h, nofun, fun hg => absurd hg h.2.2⟩

theorem isQuote_not_fence (h : isQuote k = true) : isFence k = false :=
  eq_false_of_ne_true fun hf => absurd
    (Option.some.inj ((lead_of_isFence hf).symm.trans (isQuote_iff.1 h))) (by decide)

theorem Gap.not_fence (h : Gap line) : isFence line = false := by
  obtain ⟨s, rfl⟩ := head_of_opensHeading h.1
  exact eq_false_of_ne_true fun hf => absurd (Option.some.inj (lead_of_isFence hf)) (by decide)

theorem Gap.not_quote (h : Gap line) : isQuote line = false := by
  obtain ⟨s, rfl⟩ := head_of_opensHeading h.1
  rfl

/-- A turn takes a code block, or the lines of a quotation, or else some lines that are neither and
    in no gap; it takes none only if it comes to one. -/
theorem turn_cases (line : Text) (lines : List Text) :
    (isFence line = true ∧ (∀ body, (turn line lines).1 ≠ .quote body) ∧
      (turn line lines).2 = (lines.dropWhile (!closesFence ·)).drop 1) ∨
    (isQuote line = true ∧
      (turn line lines).1 = .quote (quotation line lines) ∧
      (turn line lines).2 = (line :: lines).dropWhile isQuote) ∨
    isFence line = false ∧ isQuote line = false ∧ (∀ body, (turn line lines).1 ≠ .quote body) ∧
      ∃ taken, line :: lines = taken ++ (turn line lines).2 ∧ (∀ l ∈ taken, Plain l) ∧
        (taken = [] ↔ Gap line) := by
  rw [turn]
  by_cases hfence : isFence line = true
  · rw [if_pos hfence]
    exact .inl ⟨hfence, nofun, rfl⟩
  rw [if_neg hfence]
  have hfence := eq_false_of_ne_true hfence
  rcases hheading : heading line with _ | ⟨level, text⟩
  · dsimp only
    by_cases hrule : isRule line = true
    · rw [if_pos hrule]
      have hplain := plain_of_isRule hrule
      exact .inr (.inr ⟨hfence, hplain.2.1, nofun, taken_of_plain hplain⟩)
    rw [if_neg hrule]
    by_cases hquote : isQuote line = true
    · rw [if_pos hquote]
      exact .inr (.inl ⟨hquote, rfl, rfl⟩)
    rw [if_neg hquote]
    have hquote := eq_false_of_ne_true hquote
    by_cases hbullet : (bullet line).isSome = true
    · rw [if_pos hbullet]
      refine .inr (.inr ⟨hfence, hquote, nofun, ?_⟩)
      exact taken_of_takeWhile (p := fun l => (bullet l).isSome)
        (fun l hl => plain_of_opensBullet (isSome_bullet.symm.trans hl)) hbullet
    rw [if_neg hbullet]
    by_cases hnumber : (numbered line).isSome = true
    · rw [if_pos hnumber]
      refine .inr (.inr ⟨hfence, hquote, nofun, ?_⟩)
      exact taken_of_takeWhile (p := fun l => (numbered l).isSome)
        (fun l hl => plain_of_opensNumber (isSome_numbered.symm.trans hl)) hnumber
    rw [if_neg hnumber]
    by_cases hblank : isBlank line = true
    · rw [if_pos hblank]
      exact .inr (.inr ⟨hfence, hquote, nofun, taken_of_plain (plain_of_isBlank hblank)⟩)
    rw [if_neg hblank]
    refine .inr (.inr ⟨hfence, hquote, nofun, ?_⟩)
    by_cases hgoesOn : goesOn line = true
    · exact taken_of_takeWhile (fun _ => plain_of_goesOn) hgoesOn
    · -- It opens a block that no branch before took: a heading that is none.
      refine ⟨[], by rw [List.nil_append, List.dropWhile_cons_of_neg hgoesOn], nofun, ?_⟩
      refine ⟨fun _ => gap_iff.2 ⟨?_, hheading⟩, fun _ => rfl⟩
      by_contra hopens
      refine hgoesOn (goesOn_iff.2 ⟨eq_false_of_ne_true hblank, eq_false_of_ne_true hopens, hfence,
        hquote, ?_, ?_, eq_false_of_ne_true hrule⟩)
      · exact isSome_bullet.symm.trans (eq_false_of_ne_true hbullet)
      · exact isSome_numbered.symm.trans (eq_false_of_ne_true hnumber)
  · have hplain := plain_of_heading hheading
    exact .inr (.inr ⟨hfence, hplain.2.1, nofun, taken_of_plain hplain⟩)

/-- What stands outside of code blocks after some plain lines. -/
theorem outside_append (h : ∀ l ∈ taken, Plain l) :
    Outside line (taken ++ rest) ↔ line ∈ taken ∨ Outside line rest := by
  induction taken with
  | nil => rw [List.nil_append, List.mem_nil_iff, false_or]
  | cons k taken ih =>
    have hk := h k List.mem_cons_self
    rw [List.cons_append, List.mem_cons, or_assoc,
      ← ih fun l hl => h l (List.mem_cons_of_mem _ hl)]
    constructor
    · rintro (_ | ⟨hf, _⟩ | ⟨hq, _⟩ | ⟨hq, _⟩ | ⟨_, _, h⟩)
      · exact .inl rfl
      · exact absurd (hf.symm.trans hk.1) nofun
      · exact absurd (hq.symm.trans hk.2.1) nofun
      · exact absurd (hq.symm.trans hk.2.1) nofun
      · exact .inr h
    · rintro (rfl | h)
      · exact .head
      · exact .next hk.1 hk.2.1 h

end Turn

/-! ## Text that is quoted -/

/-- A text of one line. -/
def OneLine (line : Text) : Prop := '\n' ∉ line ∧ '\r' ∉ line

theorem OneLine.sublist {k line : Text} (h : OneLine line) (hk : k.Sublist line) : OneLine k :=
  ⟨fun hn => h.1 (hk.subset hn), fun hr => h.2 (hk.subset hr)⟩

theorem newlines_of_not_mem {s : Text} (h : '\r' ∉ s) : newlines s = s := by
  induction s using newlines.induct with
  | case1 s _ => exact absurd List.mem_cons_self h
  | case2 s _ _ => exact absurd List.mem_cons_self h
  | case3 c s hcr hc ih =>
    rw [newlines, ih fun hs => h (List.mem_cons_of_mem _ hs)]
    · exact hcr
    · exact hc
  | case4 => rfl

theorem not_mem_newlines (s : Text) : '\r' ∉ newlines s := by
  induction s using newlines.induct with
  | case1 s ih => exact List.not_mem_cons_of_ne_of_not_mem (by decide) ih
  | case2 s hs ih =>
    rw [newlines]
    · exact List.not_mem_cons_of_ne_of_not_mem (by decide) ih
    · exact hs
  | case3 c s hcr hc ih =>
    rw [newlines]
    · exact List.not_mem_cons_of_ne_of_not_mem (fun h => hc h.symm) ih
    · exact hcr
    · exact hc
  | case4 => exact List.not_mem_nil

theorem oneLine_of_mem_linesOf {md line : Text} (h : line ∈ linesOf md) : OneLine line :=
  have hline := mem_splitOn (d := '\r') line h
  ⟨hline.1, fun hr => not_mem_newlines md (hline.2 hr)⟩

/-- How many letters some lines have, with one for the end of each. -/
def size : List Text → ℕ
  | [] => 0
  | line :: lines => line.length + 1 + size lines

theorem length_intercalate (line : Text) (lines : List Text) :
    (['\n'].intercalate (line :: lines)).length + 1 = size (line :: lines) := by
  induction lines generalizing line with
  | nil => rw [List.intercalate_singleton, size, size, Nat.add_zero]
  | cons k lines ih =>
    rw [List.intercalate_cons_cons, List.length_append, List.length_append, size, ← ih]
    simp only [List.length_singleton]
    omega

theorem size_append (lines rest : List Text) : size (lines ++ rest) = size lines + size rest := by
  induction lines with
  | nil => rw [List.nil_append, size, Nat.zero_add]
  | cons k lines ih =>
    rw [List.cons_append, size, size, ih]
    omega

theorem size_le_of_sublist {lines rest : List Text} (h : rest.Sublist lines) :
    size rest ≤ size lines := by
  induction h with
  | slnil => exact Nat.le_refl _
  | cons k _ ih => exact Nat.le_trans ih (Nat.le_add_left _ _)
  | cons_cons k _ ih => exact Nat.add_le_add_left ih _

theorem linesOf_intercalate {lines : List Text} (hne : lines ≠ []) (h : ∀ l ∈ lines, OneLine l) :
    linesOf (['\n'].intercalate lines) = lines := by
  have hr : '\r' ∉ ['\n'].intercalate lines := by
    intro hmem
    rcases mem_intercalate hmem with hrn | ⟨l, hl, hr⟩
    · exact absurd hrn (by decide)
    · exact (h l hl).2 hr
  rw [linesOf, newlines_of_not_mem hr]
  exact List.splitOn_intercalate '\n' (fun l hl => (h l hl).1) hne

theorem unquote_sublist (line : Text) : (unquote line).Sublist line := by
  have hquoted : ((line.dropWhile isSpace).drop 1).Sublist line :=
    (List.drop_sublist _ _).trans (List.dropWhile_sublist _)
  rw [unquote]
  split_ifs
  · exact (List.drop_sublist _ _).trans hquoted
  · exact hquoted

/-- A quoted line is shorter without its mark. -/
theorem length_unquote {line : Text} (h : isQuote line = true) :
    (unquote line).length < line.length := by
  have hdrop : ((line.dropWhile isSpace).drop 1).length < line.length := by
    obtain ⟨s, hs⟩ := List.head?_eq_some_iff.1 (isQuote_iff.1 h)
    have hle := (List.dropWhile_sublist isSpace (l := line)).length_le
    rw [hs] at hle ⊢
    exact hle
  rw [unquote]
  split_ifs
  · exact Nat.lt_of_le_of_lt (List.drop_sublist _ _).length_le hdrop
  · exact hdrop

theorem size_map_unquote {lines : List Text} (h : ∀ l ∈ lines, isQuote l = true) :
    size (lines.map unquote) + lines.length ≤ size lines := by
  induction lines with
  | nil => exact Nat.le_refl _
  | cons k lines ih =>
    have hk := length_unquote (h k List.mem_cons_self)
    have hlines := ih fun l hl => h l (List.mem_cons_of_mem _ hl)
    rw [List.map_cons, size, size, List.length_cons]
    omega

section Quotation

variable {line : Text} {lines : List Text}

theorem quotation_eq_cons (h : isQuote line = true) :
    quotation line lines = unquote line :: (lines.takeWhile isQuote).map unquote := by
  rw [quotation, List.takeWhile_cons_of_pos h, List.map_cons]

theorem size_quotation (h : isQuote line = true) :
    size (quotation line lines) < size (line :: lines) := by
  have hmap := size_map_unquote fun l => List.mem_takeWhile_imp (p := isQuote) (l := line :: lines)
  have hle := size_le_of_sublist (List.takeWhile_sublist isQuote (l := line :: lines))
  rw [List.takeWhile_cons_of_pos h, List.length_cons, ← List.takeWhile_cons_of_pos h] at hmap
  rw [quotation]
  omega

theorem oneLine_quotation (h : ∀ l ∈ line :: lines, OneLine l) :
    ∀ l ∈ quotation line lines, OneLine l := fun l hl => by
  obtain ⟨k, hk, rfl⟩ := List.mem_map.1 hl
  exact (h k ((List.takeWhile_sublist _).subset hk)).sublist (unquote_sublist k)

theorem linesOf_quotation (hq : isQuote line = true) (h : ∀ l ∈ line :: lines, OneLine l) :
    linesOf (['\n'].intercalate (quotation line lines)) = quotation line lines := by
  refine linesOf_intercalate ?_ (oneLine_quotation h)
  rw [quotation_eq_cons hq]
  exact List.cons_ne_nil _ _

end Quotation

/-! ## The end -/

section Ends

variable {line : Text} {lines : List Text} {fuel : ℕ}

/-- A turn ends if what is quoted in its block does, and what comes after it. -/
theorem isSome_renderLines_succ : (renderLines (fuel + 1) (line :: lines)).isSome = true ↔
    (∀ body, (turn line lines).1 = .quote body →
      (renderLines fuel (linesOf (['\n'].intercalate body))).isSome = true) ∧
    (renderLines fuel (turn line lines).2).isSome = true := by
  rw [renderLines]
  split
  · rename_i body hbody
    have hsame (P : List Text → Prop) : (∀ body', Block.quote body = .quote body' → P body') ↔
        P body := ⟨fun h => h body rfl, fun h _ he => Block.quote.inj he ▸ h⟩
    rw [hbody, hsame fun body =>
      (renderLines fuel (linesOf (['\n'].intercalate body))).isSome = true]
    rcases renderLines fuel (linesOf (['\n'].intercalate body)) with _ | quoted
    · simp
    · rcases renderLines fuel (turn line lines).2 with _ | after <;> simp
  · rename_i hbody
    have hnone : ∀ body, (turn line lines).1 = .quote body →
        (renderLines fuel (linesOf (['\n'].intercalate body))).isSome = true :=
      fun body hb => absurd hb (hbody body)
    rw [and_iff_right hnone]
    rcases renderLines fuel (turn line lines).2 with _ | after <;> simp

theorem isSome_renderLines_mono {fuel' : ℕ} (h : (renderLines fuel lines).isSome = true)
    (hle : fuel ≤ fuel') : (renderLines fuel' lines).isSome = true := by
  induction fuel generalizing fuel' lines with
  | zero => exact absurd h Bool.false_ne_true
  | succ fuel ih =>
    obtain ⟨fuel', rfl⟩ := Nat.exists_eq_succ_of_ne_zero (Nat.ne_zero_of_lt hle)
    have hle := Nat.le_of_succ_le_succ hle
    rcases lines with _ | ⟨k, lines⟩
    · rfl
    · obtain ⟨hquoted, hafter⟩ := isSome_renderLines_succ.1 h
      exact isSome_renderLines_succ.2
        ⟨fun body hbody => ih (hquoted body hbody) hle, ih hafter hle⟩

theorem after_sublist (line : Text) (lines : List Text) :
    (turn line lines).2.Sublist (line :: lines) := by
  rcases turn_cases line lines with ⟨_, _, hr⟩ | ⟨_, _, hr⟩ | ⟨_, _, _, taken, ht, _, _⟩
  · rw [hr]
    exact ((List.drop_sublist _ _).trans (List.dropWhile_sublist _)).cons line
  · rw [hr]
    exact List.dropWhile_sublist _
  · rw [ht]
    exact List.sublist_append_right _ _

theorem oneLine_after (h : ∀ l ∈ line :: lines, OneLine l) :
    ∀ l ∈ (turn line lines).2, OneLine l := fun l hl => h l ((after_sublist line lines).subset hl)

/-- The renderer does not come past a gap. -/
theorem not_isSome_of_gap (hg : Gap line) (h : ∀ l ∈ lines, OneLine l) (hl : Outside line lines) :
    ¬ (renderLines fuel lines).isSome = true := by
  induction fuel generalizing lines with
  | zero => exact Bool.false_ne_true
  | succ fuel ih =>
    rcases lines with _ | ⟨k, lines⟩
    · exact absurd hl nofun
    rw [isSome_renderLines_succ]
    rintro ⟨hquoted, hafter⟩
    have hone := oneLine_after h
    rcases turn_cases k lines with ⟨hf, _, hr⟩ | ⟨hq, hb, hr⟩ | ⟨hf, hq, _, taken, ht, hplain, hgap⟩
    · refine ih hone ?_ hafter
      rw [hr]
      rcases hl with _ | ⟨_, hl⟩ | ⟨hq, _⟩ | ⟨hq, _⟩ | ⟨hf', _, _⟩
      · exact absurd (hf.symm.trans hg.not_fence) nofun
      · exact hl
      · exact absurd (hf.symm.trans (isQuote_not_fence hq)) nofun
      · exact absurd (hf.symm.trans (isQuote_not_fence hq)) nofun
      · exact absurd (hf.symm.trans hf') nofun
    · rcases hl with _ | ⟨hf, _⟩ | ⟨_, hl⟩ | ⟨_, hl⟩ | ⟨_, hq', _⟩
      · exact absurd (hq.symm.trans hg.not_quote) nofun
      · exact absurd (hf.symm.trans (isQuote_not_fence hq)) nofun
      · have hin := hquoted _ hb
        rw [linesOf_quotation hq h] at hin
        exact ih (oneLine_quotation h) hl hin
      · exact ih hone (hr ▸ hl) hafter
      · exact absurd (hq.symm.trans hq') nofun
    · refine ih hone ?_ hafter
      rw [ht, outside_append hplain] at hl
      exact hl.resolve_left fun hmem => (hplain line hmem).2.2 hg

/-- A turn that comes to no gap takes a line. -/
theorem size_after (h : ¬ Gap line) : size (turn line lines).2 < size (line :: lines) := by
  rcases turn_cases line lines with ⟨_, _, hr⟩ | ⟨hq, _, hr⟩ | ⟨_, _, _, taken, ht, _, hgap⟩
  · have hle := size_le_of_sublist
      ((List.drop_sublist 1 _).trans (List.dropWhile_sublist (!closesFence ·) (l := lines)))
    rw [hr, size]
    omega
  · have hle := size_le_of_sublist (List.dropWhile_sublist isQuote (l := lines))
    rw [hr, List.dropWhile_cons_of_pos hq, size]
    omega
  · obtain ⟨k, taken, rfl⟩ := List.exists_cons_of_ne_nil fun hnil => h (hgap.1 hnil)
    rw [ht, size_append, size]
    omega

/-- A turn takes a line if and only if it comes to no gap. -/
theorem length_after_lt_iff (line : Text) (lines : List Text) :
    (turn line lines).2.length < (line :: lines).length ↔ ¬ Gap line := by
  constructor
  · intro h hg
    rcases turn_cases line lines with ⟨hf, _⟩ | ⟨hq, _⟩ | ⟨_, _, _, taken, ht, _, hgap⟩
    · exact absurd (hf.symm.trans hg.not_fence) nofun
    · exact absurd (hq.symm.trans hg.not_quote) nofun
    · rw [hgap.2 hg, List.nil_append] at ht
      exact absurd h (ht ▸ Nat.lt_irrefl _)
  · intro h
    by_contra hle
    have heq := (after_sublist line lines).eq_of_length_le (Nat.not_lt.1 hle)
    have hsize : size (turn line lines).2 < size (line :: lines) := size_after h
    exact absurd hsize (heq ▸ Nat.lt_irrefl _)

/-- What stands outside of code blocks after a turn does so before it. -/
theorem outside_of_after (h : Outside line (turn k lines).2) : Outside line (k :: lines) := by
  rcases turn_cases k lines with ⟨hf, _, hr⟩ | ⟨hq, _, hr⟩ | ⟨_, _, _, taken, ht, hplain, _⟩
  · exact .code hf (hr ▸ h)
  · exact .past hq (hr ▸ h)
  · rw [ht]
    exact (outside_append hplain).2 (.inr h)

/-- The block of a turn is a quotation only if the line is quoted. -/
theorem eq_quotation {body : List Text} (h : (turn line lines).1 = .quote body) :
    isQuote line = true ∧ body = quotation line lines := by
  rcases turn_cases line lines with ⟨_, hb, _⟩ | ⟨hq, hb, _⟩ | ⟨_, _, hb, _⟩
  · exact absurd h (hb body)
  · exact ⟨hq, Block.quote.inj (h.symm.trans hb)⟩
  · exact absurd h (hb body)

theorem renderLines_ends (h : ∀ l ∈ lines, OneLine l) (hno : NoGap lines) :
    ∃ fuel, (renderLines fuel lines).isSome = true := by
  obtain ⟨n, hn⟩ : ∃ n, size lines ≤ n := ⟨_, Nat.le_refl _⟩
  induction n generalizing lines with
  | zero =>
    rcases lines with _ | ⟨k, lines⟩
    · exact ⟨1, rfl⟩
    · rw [size] at hn
      omega
  | succ n ih =>
    rcases lines with _ | ⟨k, lines⟩
    · exact ⟨1, rfl⟩
    have hk := hno k .head
    have hsize : size (turn k lines).2 < size (k :: lines) := size_after hk
    obtain ⟨fuel₁, h₁⟩ := ih (oneLine_after h) (fun l hl => hno l (outside_of_after hl)) (by omega)
    by_cases hq : isQuote k = true
    · have hquoted : size (quotation k lines) < size (k :: lines) := size_quotation hq
      obtain ⟨fuel₂, h₂⟩ := ih (oneLine_quotation h) (fun l hl => hno l (.quoted hq hl)) (by omega)
      refine ⟨max fuel₁ fuel₂ + 1, isSome_renderLines_succ.2 ⟨fun body hb => ?_, ?_⟩⟩
      · obtain ⟨_, rfl⟩ := eq_quotation hb
        rw [linesOf_quotation hq h]
        exact isSome_renderLines_mono h₂ (Nat.le_max_right _ _)
      · exact isSome_renderLines_mono h₁ (Nat.le_max_left _ _)
    · refine ⟨fuel₁ + 1, isSome_renderLines_succ.2 ⟨fun body hb => ?_, h₁⟩⟩
      exact absurd (eq_quotation hb).1 hq

/-- The renderer ends on a text if and only if no heading outside of code blocks has a separator in
    its text. A turn takes a line off a text if and only if the line is no such heading, and what it
    takes for a quotation is shorter than the text. -/
theorem renderMarkdown_ends_iff (md : Text) :
    (Ends md ↔ NoGap (linesOf md)) ∧
    (∀ line lines, (turn line lines).2.length < (line :: lines).length ↔ ¬ Gap line) ∧
    ∀ line lines body, (turn line lines).1 = .quote body →
      (['\n'].intercalate body).length < (['\n'].intercalate (line :: lines)).length := by
  refine ⟨⟨fun ⟨fuel, h⟩ line hl hg => ?_, fun hno => ?_⟩, length_after_lt_iff, ?_⟩
  · rw [renderMarkdown, Option.isSome_map] at h
    exact not_isSome_of_gap hg (fun l => oneLine_of_mem_linesOf) hl h
  · obtain ⟨fuel, h⟩ := renderLines_ends (fun l => oneLine_of_mem_linesOf) hno
    exact ⟨fuel, by rw [renderMarkdown, Option.isSome_map, h]⟩
  · intro line lines body hb
    obtain ⟨hq, rfl⟩ := eq_quotation hb
    have hsize : size (quotation line lines) < size (line :: lines) := size_quotation hq
    rw [quotation_eq_cons hq] at hsize ⊢
    rw [← length_intercalate, ← length_intercalate] at hsize
    exact Nat.lt_of_succ_lt_succ hsize

/-- A separator in the text of a heading keeps the renderer going. -/
theorem separator_hangs : ¬ Ends ['#', ' ', 'a', '\u2028', 'b'] := by
  rintro ⟨fuel, h⟩
  have hlines : linesOf ['#', ' ', 'a', '\u2028', 'b'] = [['#', ' ', 'a', '\u2028', 'b']] := by
    decide
  have hgap : Gap ['#', ' ', 'a', '\u2028', 'b'] :=
    ⟨by decide, '\u2028', by decide, by decide⟩
  rw [renderMarkdown, Option.isSome_map] at h
  refine not_isSome_of_gap hgap (fun l => oneLine_of_mem_linesOf) ?_ h
  rw [hlines]
  exact .head

end Ends

end Markdown

end Smrt
