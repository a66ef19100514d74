import Mathlib.Data.List.Infix
import Mathlib.Data.List.Nodup
import Mathlib.Data.String.Basic
import Smrt.Lib.Decimal

/-!
# XML

A reader of XML 1.0 documents that have no comments, no instructions and no declarations of their
own. What it reads is a list of events: elements that open and close, and the text between them
(`read`). A document that is not well formed has none: every element is closed in its turn, the
names are names, a `&` begins a reference to a character, and all characters are ones that XML has.

Events are written as well (`render`), with the characters of texts that mean something escaped
(`escape`).

* `unescape_escape`: what is escaped is read as it was;
* `lineEnds_escape`: but for the ends of lines, which are all alike to a reader;
* `read_render`: a document that is written of elements in order is read as what was written.
-/

namespace Smrt

namespace Xml

/-! ## Characters -/

/-- The characters that a document may have. -/
def isXmlChar (c : Char) : Bool :=
  c = '\t' || c = '\n' || c = '\r' || (0x20 ≤ c.toNat && c.toNat ≤ 0xd7ff) ||
    (0xe000 ≤ c.toNat && c.toNat ≤ 0xfffd) || 0x10000 ≤ c.toNat

def isSpace (c : Char) : Bool := c = ' ' || c = '\t' || c = '\n' || c = '\r'

/-- The characters that a name may begin with, from one to another. -/
def nameStarts : List (ℕ × ℕ) :=
  [(0x3a, 0x3a), (0x41, 0x5a), (0x5f, 0x5f), (0x61, 0x7a), (0xc0, 0xd6), (0xd8, 0xf6),
    (0xf8, 0x2ff), (0x370, 0x37d), (0x37f, 0x1fff), (0x200c, 0x200d), (0x2070, 0x218f),
    (0x2c00, 0x2fef), (0x3001, 0xd7ff), (0xf900, 0xfdcf), (0xfdf0, 0xfffd), (0x10000, 0xeffff)]

/-- The other characters of a name: `-`, `.`, digits, and signs that go with letters. -/
def nameRest : List (ℕ × ℕ) :=
  [(0x2d, 0x2e), (0x30, 0x39), (0xb7, 0xb7), (0x300, 0x36f), (0x203f, 0x2040)]

def isNameStart (c : Char) : Bool := nameStarts.any fun r => r.1 ≤ c.toNat && c.toNat ≤ r.2

def isNameChar (c : Char) : Bool :=
  isNameStart c || nameRest.any fun r => r.1 ≤ c.toNat && c.toNat ≤ r.2

/-- The ends of lines are all alike: a carriage return is one, with the line feed after it. -/
def lineEndsFrom : Bool → List Char → List Char
  | _, [] => []
  | returned, c :: l =>
    if c = '\r' then '\n' :: lineEndsFrom true l
    else if c = '\n' ∧ returned then lineEndsFrom false l
    else c :: lineEndsFrom false l

def lineEnds (l : List Char) : List Char := lineEndsFrom false l

/-- White space in a value is a blank. -/
def blank (c : Char) : Char := if isSpace c then ' ' else c

/-! ## References -/

/-- The value of digits. -/
def number (base : ℕ) (digits : List Char) : Option ℕ :=
  if digits ≠ [] ∧ digits.all (fun c => (Nat.digitChar <$> List.range base).elem c.toLower)
  then some (digits.foldl (fun n c => n * base +
    (Nat.digitChar <$> List.range base).idxOf c.toLower) 0)
  else none

/-- The character that a reference is to. -/
def referred (ref : List Char) : Option Char :=
  if ref = "amp".toList then some '&'
  else if ref = "lt".toList then some '<'
  else if ref = "gt".toList then some '>'
  else if ref = "quot".toList then some '"'
  else if ref = "apos".toList then some '\''
  else
    let code := match ref with
      | '#' :: 'x' :: digits => number 16 digits
      | '#' :: digits => number 10 digits
      | _ => none
    (code.filter fun n => n.isValidChar ∧ isXmlChar (Char.ofNat n)).map Char.ofNat

/-- A text with the characters that are referred to, where a reference may have begun. -/
def unescapeFrom : Option (List Char) → List Char → Option (List Char)
  | none, [] => some []
  | some _, [] => none
  | none, c :: l => if c = '&' then unescapeFrom (some []) l else (unescapeFrom none l).map (c :: ·)
  | some ref, c :: l =>
    if c = ';' then (referred ref).bind fun d => (unescapeFrom none l).map (d :: ·)
    else unescapeFrom (some (ref ++ [c])) l

def unescape (l : List Char) : Option (List Char) := unescapeFrom none l

/-- The characters that mean something in a text. -/
def markup : List Char := ['&', '<', '>', '"', '\'']

/-- What stands for a character in a text. -/
def escapeChar (c : Char) : List Char :=
  if c = '&' then "&amp;".toList
  else if c = '<' then "&lt;".toList
  else if c = '>' then "&gt;".toList
  else if c = '"' then "&quot;".toList
  else if c = '\'' then "&apos;".toList
  else [c]

def escape (l : List Char) : List Char := l.flatMap escapeChar

/-! ## Reading -/

abbrev Name := List Char

abbrev Attributes := List (Name × List Char)

inductive Event
  | start (name : Name) (attributes : Attributes)
  | close (name : Name)
  | text (s : List Char)
  deriving DecidableEq

/-- A character that has to come first. -/
def eat (c : Char) : List Char → Option (List Char)
  | [] => none
  | d :: l => if d = c then some l else none

def skipSpace (l : List Char) : List Char := l.dropWhile isSpace

/-- A name, and what follows it. -/
def readName : List Char → Option (Name × List Char)
  | [] => none
  | c :: l =>
    if isNameStart c then some (c :: l.takeWhile isNameChar, l.dropWhile isNameChar) else none

/-- A value in quotes, and what follows it. -/
def readValue : List Char → Option (List Char × List Char)
  | [] => none
  | q :: l =>
    if q = '"' ∨ q = '\'' then
      let raw := l.takeWhile fun c => c ≠ q
      if '<' ∈ raw then none
      else (eat q (l.dropWhile fun c => c ≠ q)).bind fun rest =>
        (unescape (raw.map blank)).map fun value => (value, rest)
    else none

/-- Attributes, each of them after white space, and what follows them. -/
def readAttributes : ℕ → List Char → Option (Attributes × List Char)
  | 0, _ => none
  | _ + 1, [] => some ([], [])
  | fuel + 1, c :: l =>
    if isSpace c then
      match readName (skipSpace l) with
      | none => some ([], skipSpace l)
      | some (name, l) => do
        let l ← eat '=' (skipSpace l)
        let (value, l) ← readValue (skipSpace l)
        let (attributes, l) ← readAttributes fuel l
        some ((name, value) :: attributes, l)
    else some ([], c :: l)

/-- How a tag ends: with its element, if there is nothing in it. -/
def endTag (name : Name) (attributes : Attributes) :
    List Char → Option (Name × Attributes × Bool × List Char)
  | '>' :: l => some (name, attributes, false, l)
  | '/' :: '>' :: l => some (name, attributes, true, l)
  | _ => none

/-- What a tag says after its `<`: its name and its attributes, of which none is there twice, and
    whether it closes its element too. -/
def readTag (l : List Char) : Option (Name × Attributes × Bool × List Char) := do
  let (name, l) ← readName l
  let (attributes, l) ← readAttributes (l.length + 1) l
  if (attributes.map Prod.fst).Nodup then endTag name attributes l else none

/-- The end of an element, and what follows it. -/
def readClose (name : Name) (l : List Char) : Option (List Char) := do
  let (closed, l) ← readName l
  if closed = name then eat '>' (skipSpace l) else none

/-- What the elements have that are open, to the end of the document. -/
def readContent : ℕ → List Name → List Char → Option (List Event)
  | _, [], l => if l.all isSpace then some [] else none
  | 0, _ :: _, _ => none
  | _ + 1, _ :: _, [] => none
  | fuel + 1, name :: names, c :: l =>
    if c = '<' then
      if l.head? = some '/' then
        (readClose name l.tail).bind fun l => (readContent fuel names l).map (.close name :: ·)
      else
        (readTag l).bind fun (inner, attributes, closed, l) =>
          if closed then
            (readContent fuel (name :: names) l).map (.start inner attributes :: .close inner :: ·)
          else (readContent fuel (inner :: name :: names) l).map (.start inner attributes :: ·)
    else
      let raw := c :: l.takeWhile fun d => d ≠ '<'
      if "]]>".toList <:+: raw then none
      else (unescape raw).bind fun s =>
        (readContent fuel (name :: names) (l.dropWhile fun d => d ≠ '<')).map (.text s :: ·)

/-- What a document declares of itself, if anything: that it is XML 1.0, in UTF-8. -/
def readProlog : List Char → Option (List Char)
  | '<' :: '?' :: 'x' :: 'm' :: 'l' :: l => do
    let (attributes, l) ← readAttributes (l.length + 1) l
    if attributes = [("version".toList, "1.0".toList)] ∨
        attributes = [("version".toList, "1.0".toList), ("encoding".toList, "utf-8".toList)] then
      let l ← eat '?' l
      let l ← eat '>' l
      some (skipSpace l)
    else none
  | l => some (skipSpace l)

/-- What a document says, if it is well formed. -/
def read (doc : List Char) : Option (List Event) :=
  if doc.all isXmlChar then do
    let l ← readProlog (lineEnds doc)
    let l ← eat '<' l
    let (name, attributes, closed, l) ← readTag l
    if closed then
      (readContent 0 [] l).map (.start name attributes :: .close name :: ·)
    else (readContent (l.length + 1) [name] l).map (.start name attributes :: ·)
  else none

/-! ## Writing -/

/-- A part of a document: text, or a tag; that of an element with nothing in it closes it too. -/
inductive Part
  | text (s : List Char)
  | start (name : Name) (attributes : Attributes)
  | empty (name : Name) (attributes : Attributes)
  | close (name : Name)

def renderAttribute (a : Name × List Char) : List Char :=
  ' ' :: (a.1 ++ '=' :: '"' :: (escape a.2 ++ ['"']))

namespace Part

def render : Part → List Char
  | text s => escape s
  | start name attributes => '<' :: (name ++ (attributes.flatMap renderAttribute ++ ['>']))
  | empty name attributes => '<' :: (name ++ (attributes.flatMap renderAttribute ++ ['/', '>']))
  | close name => '<' :: '/' :: (name ++ ['>'])

/-- The events that a reader makes of a part. White space in values is blank, and an empty text is
    none. -/
def events : Part → List Event
  | text [] => []
  | text s => [.text s]
  | start name attributes => [.start name (attributes.map fun a => (a.1, a.2.map blank))]
  | empty name attributes =>
    [.start name (attributes.map fun a => (a.1, a.2.map blank)), .close name]
  | close name => [.close name]

/-- All characters are ones that XML has. -/
def legal : Part → Bool
  | text s => s.all isXmlChar
  | start name attributes | empty name attributes =>
    name.all isXmlChar && attributes.all fun a => a.1.all isXmlChar && a.2.all isXmlChar
  | close name => name.all isXmlChar

/-- The part with its ends of lines as a reader has them. -/
def ended : Part → Part
  | text s => text (lineEnds s)
  | start name attributes => start name (attributes.map fun a => (a.1, lineEnds a.2))
  | empty name attributes => empty name (attributes.map fun a => (a.1, lineEnds a.2))
  | close name => close name

end Part

def render (parts : List Part) : List Char := parts.flatMap Part.render

/-- A name is one that a reader takes for a name. -/
def IsName (name : Name) : Prop :=
  ∃ c l, name = c :: l ∧ isNameStart c = true ∧ ∀ d ∈ l, isNameChar d = true

/-- A tag has names, no two of its attributes the same one. -/
def IsTag (name : Name) (attributes : Attributes) : Prop :=
  IsName name ∧ (∀ a ∈ attributes, IsName a.1) ∧ (attributes.map Prod.fst).Nodup

/-- The parts close the elements that are open, in turn, and those they open; no text follows a
    text. -/
def Balanced : List Name → List Part → Prop
  | [], parts => parts = []
  | _ :: _, [] => False
  | name :: names, .text _ :: parts =>
    (∀ s, parts.head? ≠ some (.text s)) ∧ Balanced (name :: names) parts
  | name :: names, .start inner attributes :: parts =>
    IsTag inner attributes ∧ Balanced (inner :: name :: names) parts
  | name :: names, .empty inner attributes :: parts =>
    IsTag inner attributes ∧ Balanced (name :: names) parts
  | name :: names, .close closed :: parts => IsName name ∧ closed = name ∧ Balanced names parts

theorem render_cons {part : Part} {parts : List Part} :
    render (part :: parts) = part.render ++ render parts := List.flatMap_cons

theorem render_append {parts parts' : List Part} :
    render (parts ++ parts') = render parts ++ render parts' := List.flatMap_append

/-- What a document declares of itself. -/
def declaration : List Char := "<?xml version=\"1.0\" encoding=\"utf-8\"?>\n".toList

/-- A document of an element that these parts go on with. -/
def document (root : Name) (attributes : Attributes) (parts : List Part) : List Char :=
  declaration ++ (render (.start root attributes :: parts) ++ ['\n'])

/-! ## What is escaped -/

section Escape

variable {s l : List Char} {c : Char} {b : Bool}

/-- A character that means nothing stands for itself. -/
theorem escapeChar_of_not_mem (h : c ∉ markup) : escapeChar c = [c] := by
  simp only [markup, List.mem_cons, List.not_mem_nil, or_false, not_or] at h
  obtain ⟨h1, h2, h3, h4, h5⟩ := h
  rw [escapeChar, if_neg h1, if_neg h2, if_neg h3, if_neg h4, if_neg h5]

/-- What is so of the characters that mean something is seen at each of them. -/
theorem of_mem_markup {P : Char → Prop} (h : c ∈ markup) (hand : P '&') (hlt : P '<')
    (hgt : P '>') (hquot : P '"') (hapos : P '\'') : P c := by
  simp only [markup, List.mem_cons, List.not_mem_nil, or_false] at h
  rcases h with rfl | rfl | rfl | rfl | rfl
  · exact hand
  · exact hlt
  · exact hgt
  · exact hquot
  · exact hapos

/-- A reference that is read to its end. -/
theorem unescapeFrom_ref {w : List Char} (hw : ';' ∉ w) (ref : List Char) :
    unescapeFrom (some ref) (w ++ ';' :: l) =
      (referred (ref ++ w)).bind fun d => (unescapeFrom none l).map (d :: ·) := by
  induction w generalizing ref with
  | nil => rw [List.nil_append, unescapeFrom, if_pos rfl, List.append_nil]
  | cons d w ih =>
    obtain ⟨hd, hw⟩ := not_or.1 (mt List.mem_cons.2 hw)
    rw [List.cons_append, unescapeFrom, if_neg (Ne.symm hd), ih hw, List.append_assoc]
    rfl

/-- A character that is escaped is read. -/
theorem unescapeFrom_escapeChar (c : Char) (l : List Char) :
    unescapeFrom none (escapeChar c ++ l) = (unescapeFrom none l).map (c :: ·) := by
  have href (w : List Char) (hw : ';' ∉ w) :
      unescapeFrom none ('&' :: (w ++ ';' :: l)) =
        (referred w).bind fun d => (unescapeFrom none l).map (d :: ·) := by
    rw [unescapeFrom, if_pos rfl, unescapeFrom_ref hw]
    rfl
  by_cases h : c ∈ markup
  · refine of_mem_markup (P := fun c => unescapeFrom none (escapeChar c ++ l) =
      (unescapeFrom none l).map (c :: ·)) h ?_ ?_ ?_ ?_ ?_
    · exact href "amp".toList (by decide)
    · exact href "lt".toList (by decide)
    · exact href "gt".toList (by decide)
    · exact href "quot".toList (by decide)
    · exact href "apos".toList (by decide)
  · have hne : c ≠ '&' := fun he => h (he ▸ List.mem_cons_self)
    rw [escapeChar_of_not_mem h, List.singleton_append, unescapeFrom, if_neg hne]

theorem escape_cons : escape (c :: s) = escapeChar c ++ escape s := List.flatMap_cons

theorem escape_append : escape (s ++ l) = escape s ++ escape l := List.flatMap_append

/-- What is escaped is read as it was. -/
theorem unescape_escape (s : List Char) : unescape (escape s) = some s := by
  rw [unescape]
  induction s with
  | nil => rfl
  | cons c s ih => rw [escape_cons, unescapeFrom_escapeChar, ih, Option.map_some]

/-- In what is escaped, nothing that means something is left but the references. -/
theorem not_mem_escape {d : Char} (hd : d ∈ markup) (hne : d ≠ '&') : d ∉ escape s := by
  intro h
  obtain ⟨c, -, hc⟩ := List.mem_flatMap.1 h
  by_cases hm : c ∈ markup
  · have hall : (markup.all fun c => d ∉ escapeChar c) = true := by
      refine of_mem_markup
        (P := fun d => d ≠ '&' → (markup.all fun c => d ∉ escapeChar c) = true) hd ?_ ?_ ?_ ?_ ?_
        hne <;> decide
    exact of_decide_eq_true (List.all_eq_true.1 hall c hm) hc
  · rw [escapeChar_of_not_mem hm, List.mem_singleton] at hc
    exact hm (hc ▸ hd)

/-- What is escaped has the characters that XML has if the text does. -/
theorem all_isXmlChar_escape : (escape s).all isXmlChar = s.all isXmlChar := by
  induction s with
  | nil => rfl
  | cons c s ih =>
    have hc : (escapeChar c).all isXmlChar = isXmlChar c := by
      by_cases h : c ∈ markup
      · exact of_mem_markup (P := fun c => (escapeChar c).all isXmlChar = isXmlChar c) h
          (by decide) (by decide) (by decide) (by decide) (by decide)
      · rw [escapeChar_of_not_mem h, List.all_cons, List.all_nil, Bool.and_true]
    rw [escape_cons, List.all_append, hc, ih, List.all_cons]

/-- What means nothing stays as it is. -/
theorem escape_eq_self (h : ∀ c ∈ s, c ∉ markup) : escape s = s := by
  induction s with
  | nil => rfl
  | cons c s ih =>
    obtain ⟨hc, hs⟩ := List.forall_mem_cons.1 h
    rw [escape_cons, escapeChar_of_not_mem hc, ih hs, List.singleton_append]

/-- White space may be made blank before a text is escaped, or after. -/
theorem map_blank_escape : (escape s).map blank = escape (s.map blank) := by
  induction s with
  | nil => rfl
  | cons c s ih =>
    have hc : (escapeChar c).map blank = escapeChar (blank c) := by
      by_cases h : c ∈ markup
      · exact of_mem_markup (P := fun c => (escapeChar c).map blank = escapeChar (blank c)) h
          (by decide) (by decide) (by decide) (by decide) (by decide)
      · rw [escapeChar_of_not_mem h, List.map_singleton, escapeChar_of_not_mem]
        rw [blank]
        by_cases hs : isSpace c = true
        · rw [if_pos hs]
          decide
        · rwa [if_neg hs]
    rw [escape_cons, List.map_append, hc, ih, List.map_cons, escape_cons]

end Escape

/-! ## Ends of lines -/

section LineEnds

variable {s l : List Char} {b : Bool}

/-- A text that does not begin with a line feed is not changed by what stands before it. -/
theorem lineEndsFrom_append (h : l.head? ≠ some '\n') :
    lineEndsFrom b (s ++ l) = lineEndsFrom b s ++ lineEnds l := by
  induction s generalizing b with
  | nil =>
    rcases l with _ | ⟨c, l⟩
    · rfl
    · have hc : c ≠ '\n' := fun he => h (congrArg some he)
      rw [List.nil_append, lineEndsFrom, lineEnds, lineEndsFrom, lineEndsFrom,
        if_neg fun hb : c = '\n' ∧ _ => hc hb.1, if_neg fun hb : c = '\n' ∧ _ => hc hb.1]
      rfl
  | cons c s ih =>
    rw [List.cons_append, lineEndsFrom, lineEndsFrom]
    by_cases hr : c = '\r'
    · rw [if_pos hr, if_pos hr, ih, List.cons_append]
    rw [if_neg hr, if_neg hr]
    by_cases hn : c = '\n' ∧ b = true
    · rw [if_pos hn, if_pos hn, ih]
    · rw [if_neg hn, if_neg hn, ih, List.cons_append]

theorem lineEnds_append_cons {c : Char} (hc : c ≠ '\n') :
    lineEnds (s ++ c :: l) = lineEnds s ++ lineEnds (c :: l) :=
  lineEndsFrom_append fun he => hc (Option.some.inj he)

theorem lineEndsFrom_cons {c : Char} (hr : c ≠ '\r') (hn : c ≠ '\n') :
    lineEndsFrom b (c :: s) = c :: lineEnds s := by
  rw [lineEndsFrom, if_neg hr, if_neg fun h => hn h.1]
  rfl

theorem not_mem_lineEndsFrom (s : List Char) (b : Bool) : '\r' ∉ lineEndsFrom b s := by
  intro h
  induction s generalizing b with
  | nil => exact List.not_mem_nil h
  | cons c s ih =>
    rw [lineEndsFrom] at h
    by_cases hr : c = '\r'
    · rw [if_pos hr] at h
      exact (List.mem_cons.1 h).elim (by decide) (ih _)
    rw [if_neg hr] at h
    by_cases hn : c = '\n' ∧ b = true
    · rw [if_pos hn] at h
      exact ih _ h
    · rw [if_neg hn] at h
      exact (List.mem_cons.1 h).elim (fun he => hr he.symm) (ih _)

/-- Without a carriage return, lines end as they are to. -/
theorem lineEnds_eq_self_iff : lineEnds s = s ↔ '\r' ∉ s := by
  refine ⟨fun h => h ▸ not_mem_lineEndsFrom s false, fun h => ?_⟩
  rw [lineEnds]
  induction s with
  | nil => rfl
  | cons c s ih =>
    obtain ⟨hc, hs⟩ := not_or.1 (mt List.mem_cons.2 h)
    rw [lineEndsFrom, if_neg (Ne.symm hc), if_neg fun h => Bool.false_ne_true h.2, ih hs]

/-- A word that is not the end of a line. -/
theorem lineEndsFrom_word {w : List Char} (hne : w ≠ []) (hw : ∀ c ∈ w, c ≠ '\r' ∧ c ≠ '\n') :
    lineEndsFrom b (w ++ l) = w ++ lineEnds l := by
  induction w generalizing b with
  | nil => exact absurd rfl hne
  | cons c w ih =>
    obtain ⟨hc, hw⟩ := List.forall_mem_cons.1 hw
    rw [List.cons_append, lineEndsFrom_cons hc.1 hc.2]
    rcases w with _ | ⟨d, w⟩
    · rfl
    · exact congrArg (c :: ·) (ih (List.cons_ne_nil d w) hw)

/-- Ends of lines may be made alike before a text is escaped, or after. -/
theorem lineEndsFrom_escape : lineEndsFrom b (escape s) = escape (lineEndsFrom b s) := by
  induction s generalizing b with
  | nil => rfl
  | cons c s ih =>
    by_cases h : c ∈ markup
    · have hword : escapeChar c ≠ [] ∧ ((escapeChar c).all fun d => d ≠ '\r' ∧ d ≠ '\n') = true ∧
          c ≠ '\r' ∧ c ≠ '\n' :=
        of_mem_markup (P := fun c => escapeChar c ≠ [] ∧
          ((escapeChar c).all fun d => d ≠ '\r' ∧ d ≠ '\n') = true ∧ c ≠ '\r' ∧ c ≠ '\n') h
          (by decide) (by decide) (by decide) (by decide) (by decide)
      obtain ⟨hne, hall, hr, hn⟩ := hword
      have hw : ∀ d ∈ escapeChar c, d ≠ '\r' ∧ d ≠ '\n' := fun d hd =>
        of_decide_eq_true (List.all_eq_true.1 hall d hd)
      rw [escape_cons, lineEndsFrom_word hne hw, lineEnds, ih, lineEndsFrom_cons hr hn, escape_cons]
      rfl
    · rw [escape_cons, escapeChar_of_not_mem h, List.singleton_append, lineEndsFrom, lineEndsFrom]
      by_cases hr : c = '\r'
      · rw [if_pos hr, if_pos hr, ih]
        rfl
      rw [if_neg hr, if_neg hr]
      by_cases hn : c = '\n' ∧ b = true
      · rw [if_pos hn, if_pos hn, ih]
      · rw [if_neg hn, if_neg hn, ih, escape_cons, escapeChar_of_not_mem h, List.singleton_append]

end LineEnds

/-! ## What is written is read -/

section Reading

variable {name : Name} {attributes : Attributes} {l : List Char} {c : Char}

theorem isSpace_of_isNameStart (h : isNameStart c = true) : isSpace c = false := by
  refine eq_false_of_ne_true fun hs => ?_
  simp only [isSpace, Bool.or_eq_true, decide_eq_true_eq] at hs
  rcases hs with ((rfl | rfl) | rfl) | rfl <;> exact absurd h (by decide)

theorem skipSpace_cons (h : isSpace c = false) : skipSpace (c :: l) = c :: l :=
  List.dropWhile_cons_of_neg (by rw [h]; exact Bool.false_ne_true)

theorem IsName.skipSpace (h : IsName name) : skipSpace (name ++ l) = name ++ l := by
  obtain ⟨c, s, rfl, hc, -⟩ := h
  exact skipSpace_cons (isSpace_of_isNameStart hc)

/-- A name is read to its end. -/
theorem IsName.read (h : IsName name) (hc : isNameChar c = false) :
    readName (name ++ c :: l) = some (name, c :: l) := by
  obtain ⟨d, s, rfl, hd, hs⟩ := h
  have hneg : ¬ isNameChar c = true := by rw [hc]; exact Bool.false_ne_true
  rw [List.cons_append, readName, if_pos hd, List.takeWhile_append_of_pos hs,
    List.dropWhile_append_of_pos hs, List.takeWhile_cons_of_neg hneg,
    List.dropWhile_cons_of_neg hneg, List.append_nil]

/-- A value is read to its quote, with white space as blank. -/
theorem readValue_escape (v l : List Char) :
    readValue ('"' :: (escape v ++ '"' :: l)) = some (v.map blank, l) := by
  have hquote : ∀ d ∈ escape v, decide (d ≠ '"') = true := fun d hd =>
    decide_eq_true fun he => not_mem_escape (d := '"') (by decide) (by decide) (he ▸ hd)
  have hraw : (escape v ++ '"' :: l).takeWhile (fun d => d ≠ '"') = escape v := by
    rw [List.takeWhile_append_of_pos hquote, List.takeWhile_cons_of_neg (by decide),
      List.append_nil]
  have hrest : (escape v ++ '"' :: l).dropWhile (fun d => d ≠ '"') = '"' :: l := by
    rw [List.dropWhile_append_of_pos hquote, List.dropWhile_cons_of_neg (by decide)]
  rw [readValue, if_pos (.inl rfl)]
  dsimp only
  rw [hraw, hrest, if_neg (not_mem_escape (by decide) (by decide)), eat, if_pos rfl,
    Option.bind_some, map_blank_escape, unescape_escape, Option.map_some]

/-- Attributes are read to the end of the tag. -/
theorem readAttributes_render (h : ∀ a ∈ attributes, IsName a.1) (hc : isSpace c = false)
    {fuel : ℕ} (hfuel : attributes.length < fuel) :
    readAttributes fuel (attributes.flatMap renderAttribute ++ c :: l) =
      some (attributes.map fun a => (a.1, a.2.map blank), c :: l) := by
  induction attributes generalizing fuel with
  | nil =>
    obtain ⟨fuel, rfl⟩ := Nat.exists_eq_add_of_lt hfuel
    have hneg : ¬ isSpace c = true := by rw [hc]; exact Bool.false_ne_true
    rw [List.flatMap_nil, List.nil_append, readAttributes, if_neg hneg]
    rfl
  | cons a attributes ih =>
    obtain ⟨ha, h⟩ := List.forall_mem_cons.1 h
    obtain ⟨fuel, rfl⟩ : ∃ k, fuel = k + 1 := ⟨fuel - 1, by omega⟩
    have hrender : (a :: attributes).flatMap renderAttribute ++ c :: l =
        ' ' :: (a.1 ++ '=' :: '"' :: (escape a.2 ++ '"' ::
          (attributes.flatMap renderAttribute ++ c :: l))) := by
      simp [renderAttribute]
    have hskip (s : List Char) : skipSpace ('=' :: s) = '=' :: s := skipSpace_cons (by decide)
    have hskip' (s : List Char) : skipSpace ('"' :: s) = '"' :: s := skipSpace_cons (by decide)
    rw [hrender, readAttributes, if_pos (by decide), ha.skipSpace, ha.read (by decide)]
    dsimp only
    rw [hskip, eat, if_pos rfl, Option.bind_eq_bind, Option.bind_some, hskip', readValue_escape,
      Option.bind_eq_bind, Option.bind_some]
    dsimp only
    rw [ih h (Nat.lt_of_succ_lt_succ hfuel)]
    rfl

/-- What the attributes are followed by, or they, cannot go on with a name. -/
theorem exists_cons_attributes (attributes : Attributes) (l : List Char)
    (hc : isNameChar c = false) :
    ∃ d s, attributes.flatMap renderAttribute ++ c :: l = d :: s ∧ isNameChar d = false := by
  rcases attributes with _ | ⟨a, attributes⟩
  · exact ⟨c, l, rfl, hc⟩
  · exact ⟨' ', _, rfl, by decide⟩

theorem length_le_attributes (attributes : Attributes) :
    attributes.length ≤ (attributes.flatMap renderAttribute).length := by
  induction attributes with
  | nil => exact le_rfl
  | cons a attributes ih =>
    rw [List.flatMap_cons, List.length_append, List.length_cons, renderAttribute, List.length_cons]
    omega

/-- What a tag says, up to where it ends. -/
theorem readTag_render (h : IsTag name attributes) (hc : isNameChar c = false)
    (hs : isSpace c = false) : readTag (name ++ (attributes.flatMap renderAttribute ++ c :: l)) =
      endTag name (attributes.map fun a => (a.1, a.2.map blank)) (c :: l) := by
  obtain ⟨hname, hattributes, hnodup⟩ := h
  obtain ⟨d, s, hd, hdname⟩ := exists_cons_attributes attributes l hc
  have hfuel : attributes.length < (attributes.flatMap renderAttribute ++ c :: l).length + 1 := by
    have := length_le_attributes attributes
    rw [List.length_append]
    omega
  have hnodup' : ((attributes.map fun a => (a.1, a.2.map blank)).map Prod.fst).Nodup := by
    rw [List.map_map]
    exact hnodup
  rw [readTag, hd, hname.read hdname, Option.bind_eq_bind, Option.bind_some]
  dsimp only
  rw [← hd, readAttributes_render hattributes hs hfuel, Option.bind_eq_bind, Option.bind_some]
  dsimp only
  rw [if_pos hnodup']

theorem readClose_render (h : IsName name) : readClose name (name ++ '>' :: l) = some l := by
  rw [readClose, h.read (by decide), Option.bind_eq_bind, Option.bind_some]
  dsimp only
  rw [if_pos rfl, skipSpace_cons (by decide), eat, if_pos rfl]

/-- What is read of a text, with these elements open, whatever comes before it. -/
def Reads (names : List Name) (l : List Char) (events : List Event) : Prop :=
  ∀ fuel, l.length < fuel → readContent fuel names l = some events

section Steps

variable {names : List Name} {events : List Event}

theorem Reads.close (h : Reads names l events) (hname : IsName name) :
    Reads (name :: names) ('<' :: '/' :: (name ++ '>' :: l)) (.close name :: events) := by
  intro fuel hfuel
  rw [List.length_cons, List.length_cons, List.length_append, List.length_cons] at hfuel
  obtain ⟨fuel, rfl⟩ : ∃ k, fuel = k + 1 := ⟨fuel - 1, by omega⟩
  rw [readContent, if_pos rfl, List.head?_cons, if_pos rfl, List.tail_cons,
    readClose_render hname, Option.bind_some, h fuel (by omega), Option.map_some]

/-- A name is not where an element is closed. -/
theorem IsName.head?_ne (h : IsName name) : (name ++ l).head? ≠ some '/' := by
  obtain ⟨c, s, rfl, hc, -⟩ := h
  intro he
  have he : c = '/' := Option.some.inj he
  rw [he] at hc
  exact absurd hc (by decide)

theorem Reads.start {inner : Name} (h : Reads (inner :: name :: names) l events)
    (htag : IsTag inner attributes) :
    Reads (name :: names) ('<' :: (inner ++ (attributes.flatMap renderAttribute ++ '>' :: l)))
      (.start inner (attributes.map fun a => (a.1, a.2.map blank)) :: events) := by
  intro fuel hfuel
  simp only [List.length_cons, List.length_append] at hfuel
  obtain ⟨fuel, rfl⟩ : ∃ k, fuel = k + 1 := ⟨fuel - 1, by omega⟩
  rw [readContent, if_pos rfl, if_neg htag.1.head?_ne, readTag_render htag (by decide) (by decide),
    endTag, Option.bind_some]
  dsimp only
  rw [if_neg Bool.false_ne_true, h fuel (by omega), Option.map_some]

theorem Reads.empty {inner : Name} (h : Reads (name :: names) l events)
    (htag : IsTag inner attributes) :
    Reads (name :: names)
      ('<' :: (inner ++ (attributes.flatMap renderAttribute ++ '/' :: '>' :: l)))
      (.start inner (attributes.map fun a => (a.1, a.2.map blank)) :: .close inner :: events) := by
  intro fuel hfuel
  simp only [List.length_cons, List.length_append] at hfuel
  obtain ⟨fuel, rfl⟩ : ∃ k, fuel = k + 1 := ⟨fuel - 1, by omega⟩
  rw [readContent, if_pos rfl, if_neg htag.1.head?_ne, readTag_render htag (by decide) (by decide),
    endTag, Option.bind_some]
  dsimp only
  rw [if_pos rfl, h fuel (by omega), Option.map_some]

/-- A text that is escaped is read up to the next tag. -/
theorem Reads.text {s : List Char} (h : Reads (name :: names) ('<' :: l) events) (hs : s ≠ []) :
    Reads (name :: names) (escape s ++ '<' :: l) (.text s :: events) := by
  intro fuel hfuel
  have hlt : '<' ∉ escape s := not_mem_escape (by decide) (by decide)
  have hgt : '>' ∉ escape s := not_mem_escape (by decide) (by decide)
  have hun := unescape_escape s
  have hne : escape s ≠ [] := by
    intro he
    rw [he] at hun
    exact hs (Option.some.inj hun).symm
  obtain ⟨c, w, hw⟩ := List.exists_cons_of_ne_nil hne
  rw [hw] at hlt hgt hun hfuel ⊢
  rw [List.length_append, List.length_cons] at hfuel
  obtain ⟨fuel, rfl⟩ : ∃ k, fuel = k + 1 := ⟨fuel - 1, by omega⟩
  obtain ⟨hc, hlt⟩ := not_or.1 (mt List.mem_cons.2 hlt)
  have hword : ∀ d ∈ w, decide (d ≠ '<') = true := fun d hd =>
    decide_eq_true fun he => hlt (he ▸ hd)
  have hend : ¬ "]]>".toList <:+: c :: w := fun hin => hgt (hin.subset (by decide))
  rw [List.cons_append, readContent, if_neg (Ne.symm hc)]
  dsimp only
  rw [List.takeWhile_append_of_pos hword, List.dropWhile_append_of_pos hword,
    List.takeWhile_cons_of_neg (by decide), List.dropWhile_cons_of_neg (by decide),
    List.append_nil, if_neg hend, hun, Option.bind_some, h fuel (by omega), Option.map_some]

/-- What is written of parts that are balanced begins with a tag, if they do not with a text. -/
theorem exists_cons_render {parts : List Part} (h : Balanced (name :: names) parts)
    (hnext : ∀ s, parts.head? ≠ some (.text s)) : ∃ w, render parts = '<' :: w := by
  rcases parts with _ | ⟨part, parts⟩
  · exact h.elim
  · rcases part with s | ⟨inner, attributes⟩ | ⟨inner, attributes⟩ | closed
    · exact absurd rfl (hnext s)
    all_goals exact ⟨_, rfl⟩

/-- What is written of parts that are balanced is read as their events. -/
theorem reads_render {parts : List Part} (h : Balanced names parts) (hl : l.all isSpace = true) :
    Reads names (render parts ++ l) (parts.flatMap Part.events) := by
  induction parts generalizing names with
  | nil =>
    rcases names with _ | ⟨name, names⟩
    · intro fuel _
      rcases fuel with _ | fuel
      all_goals
        rw [render, List.flatMap_nil, List.nil_append, readContent, if_pos hl]
        rfl
    · exact h.elim
  | cons part parts ih =>
    rcases names with _ | ⟨name, names⟩
    · exact nomatch h
    rw [render, List.flatMap_cons, List.flatMap_cons, List.append_assoc]
    rcases part with s | ⟨inner, attributes⟩ | ⟨inner, attributes⟩ | closed
    · obtain ⟨hnext, h⟩ := h
      have ih := ih h
      obtain ⟨w, hw⟩ := exists_cons_render h hnext
      rcases s with _ | ⟨c, s⟩
      · exact ih
      · rw [render] at hw
        rw [render, hw, List.cons_append] at ih
        rw [hw, List.cons_append]
        exact ih.text (List.cons_ne_nil c s)
    · obtain ⟨htag, h⟩ := h
      have := (ih h).start htag
      simpa [Part.render, Part.events, render] using this
    · obtain ⟨htag, h⟩ := h
      have := (ih h).empty htag
      simpa [Part.render, Part.events, render] using this
    · obtain ⟨hname, rfl, h⟩ := h
      have := (ih h).close hname
      simpa [Part.render, Part.events, render] using this

end Steps

end Reading

/-! ## Documents -/

section Documents

variable {names : List Name} {name : Name} {attributes : Attributes} {parts : List Part}
  {l : List Char} {c : Char} {b : Bool}

theorem ne_of_isNameChar (h : isNameChar c = true) : c ≠ '\r' ∧ c ≠ '\n' := by
  constructor <;> rintro rfl <;> exact absurd h (by decide)

/-- A name has no end of a line. -/
theorem IsName.lineEnds (h : IsName name) :
    lineEndsFrom b (name ++ l) = name ++ Xml.lineEnds l := by
  obtain ⟨c, s, rfl, hc, hs⟩ := h
  refine lineEndsFrom_word (List.cons_ne_nil c s) (List.forall_mem_cons.2 ⟨?_, ?_⟩)
  · exact ne_of_isNameChar (by rw [isNameChar, hc, Bool.true_or])
  · exact fun d hd => ne_of_isNameChar (hs d hd)

/-- The values of attributes have their ends of lines made alike, and nothing else. -/
theorem lineEnds_attributes (h : ∀ a ∈ attributes, IsName a.1) (hr : c ≠ '\r') (hn : c ≠ '\n') :
    lineEnds (attributes.flatMap renderAttribute ++ c :: l) =
      (attributes.map fun a => (a.1, lineEnds a.2)).flatMap renderAttribute ++ c :: lineEnds l := by
  induction attributes with
  | nil => exact lineEndsFrom_cons hr hn
  | cons a attributes ih =>
    obtain ⟨ha, h⟩ := List.forall_mem_cons.1 h
    have hrender (a : Name × List Char) (w : List Char) :
        renderAttribute a ++ w = ' ' :: (a.1 ++ '=' :: '"' :: (escape a.2 ++ '"' :: w)) := by
      simp [renderAttribute]
    rw [List.flatMap_cons, List.append_assoc, hrender, List.map_cons, List.flatMap_cons,
      List.append_assoc, hrender, lineEnds, lineEndsFrom_cons (by decide) (by decide), lineEnds,
      ha.lineEnds, lineEnds, lineEndsFrom_cons (by decide) (by decide), lineEnds,
      lineEndsFrom_cons (by decide) (by decide), lineEnds_append_cons (by decide), lineEnds,
      lineEndsFrom_escape, lineEnds, lineEndsFrom_cons (by decide) (by decide), ih h]
    rfl

/-- The texts and the values of what is written have their ends of lines made alike. -/
theorem lineEnds_render (h : Balanced names parts) :
    lineEnds (render parts ++ l) = render (parts.map Part.ended) ++ lineEnds l := by
  induction parts generalizing names with
  | nil => rfl
  | cons part parts ih =>
    rcases names with _ | ⟨name, names⟩
    · exact nomatch h
    rw [render_cons, List.append_assoc, List.map_cons, render_cons, List.append_assoc]
    rcases part with s | ⟨inner, attributes⟩ | ⟨inner, attributes⟩ | closed
    · obtain ⟨hnext, h⟩ := h
      obtain ⟨w, hw⟩ := exists_cons_render h hnext
      rw [← ih h, hw, Part.render, Part.ended, Part.render, List.cons_append,
        lineEnds_append_cons (by decide), lineEnds, lineEndsFrom_escape]
      rfl
    · obtain ⟨⟨hname, hattributes, -⟩, h⟩ := h
      have hstart (as : Attributes) (w : List Char) : (Part.start inner as).render ++ w =
          '<' :: (inner ++ (as.flatMap renderAttribute ++ '>' :: w)) := by
        simp [Part.render]
      rw [hstart, Part.ended, hstart, lineEnds, lineEndsFrom_cons (by decide) (by decide), lineEnds,
        hname.lineEnds, lineEnds_attributes hattributes (by decide) (by decide), ih h]
    · obtain ⟨⟨hname, hattributes, -⟩, h⟩ := h
      have hempty (as : Attributes) (w : List Char) : (Part.empty inner as).render ++ w =
          '<' :: (inner ++ (as.flatMap renderAttribute ++ '/' :: '>' :: w)) := by
        simp [Part.render]
      rw [hempty, Part.ended, hempty, lineEnds, lineEndsFrom_cons (by decide) (by decide), lineEnds,
        hname.lineEnds, lineEnds_attributes hattributes (by decide) (by decide), lineEnds,
        lineEndsFrom_cons (by decide) (by decide), ih h]
    · obtain ⟨hname, rfl, h⟩ := h
      have hclose (w : List Char) : (Part.close closed).render ++ w =
          '<' :: '/' :: (closed ++ '>' :: w) := by
        simp [Part.render]
      rw [hclose, Part.ended, hclose, lineEnds, lineEndsFrom_cons (by decide) (by decide), lineEnds,
        lineEndsFrom_cons (by decide) (by decide), lineEnds, hname.lineEnds, lineEnds,
        lineEndsFrom_cons (by decide) (by decide), ih h]

theorem IsTag.ended (h : IsTag name attributes) :
    IsTag name (attributes.map fun a => (a.1, lineEnds a.2)) := by
  refine ⟨h.1, fun a ha => ?_, ?_⟩
  · obtain ⟨a', ha', rfl⟩ := List.mem_map.1 ha
    exact h.2.1 a' ha'
  · rw [List.map_map]
    exact h.2.2

/-- Parts that are balanced still are. -/
theorem Balanced.ended (h : Balanced names parts) : Balanced names (parts.map Part.ended) := by
  induction parts generalizing names with
  | nil => exact h
  | cons part parts ih =>
    rcases names with _ | ⟨name, names⟩
    · exact nomatch h
    rcases part with s | ⟨inner, attributes⟩ | ⟨inner, attributes⟩ | closed
    · refine ⟨fun s hs => ?_, ih h.2⟩
      rcases parts with _ | ⟨next, parts⟩
      · exact nomatch hs
      · rcases next with t | _ | _ | _
        · exact h.1 t rfl
        all_goals exact nomatch hs
    · exact ⟨h.1.ended, ih h.2⟩
    · exact ⟨h.1.ended, ih h.2⟩
    · exact ⟨h.1, h.2.1, ih h.2.2⟩

theorem isName_of_decide (h : (name.head?.any isNameStart && name.tail.all isNameChar) = true) :
    IsName name := by
  rcases name with _ | ⟨c, s⟩
  · exact absurd h (by decide)
  · obtain ⟨hc, hs⟩ := Bool.and_eq_true_iff.1 h
    exact ⟨c, s, rfl, hc, List.all_eq_true.1 hs⟩

/-- A declaration is read over. -/
theorem readProlog_declaration (l : List Char) :
    readProlog (declaration ++ '<' :: l) = some ('<' :: l) := rfl

/-- A document has characters that XML does not have where one of its parts has. -/
theorem all_document : (document name attributes parts).all isXmlChar =
    (.start name attributes :: parts).all Part.legal := by
  have hvalues (as : Attributes) : (as.flatMap renderAttribute).all isXmlChar =
      as.all fun a => a.1.all isXmlChar && a.2.all isXmlChar := by
    rw [List.all_flatMap]
    refine congrArg as.all (funext fun a => ?_)
    have hmarks : isXmlChar ' ' = true ∧ isXmlChar '=' = true ∧ isXmlChar '"' = true := by decide
    simp [renderAttribute, all_isXmlChar_escape, hmarks]
  have hpart (part : Part) : part.render.all isXmlChar = part.legal := by
    have hmarks : isXmlChar '<' = true ∧ isXmlChar '/' = true ∧ isXmlChar '>' = true := by decide
    rcases part with s | ⟨inner, as⟩ | ⟨inner, as⟩ | closed
    · exact all_isXmlChar_escape
    all_goals simp [Part.render, Part.legal, hvalues, hmarks]
  have hrender (l : List Part) : (render l).all isXmlChar = l.all Part.legal := by
    rw [render, List.all_flatMap]
    exact congrArg l.all (funext hpart)
  have hdeclared : declaration.all isXmlChar = true := by decide
  have hend : ['\n'].all isXmlChar = true := by decide
  rw [document, List.all_append, List.all_append, hrender, hdeclared, hend, Bool.true_and,
    Bool.and_true]

/-- A document that is written of parts that are balanced is read as what was written, with its ends
    of lines made alike, if all characters are ones that XML has. -/
theorem read_document (htag : IsTag name attributes) (h : Balanced [name] parts)
    (hchars : (document name attributes parts).all isXmlChar = true) :
    read (document name attributes parts) =
      some ((.start name attributes :: parts).flatMap fun part => part.ended.events) := by
  have hb : Balanced [name] (parts.map Part.ended) := h.ended
  have hname := htag.1
  have hstart (as : Attributes) (ps : List Part) (w : List Char) :
      render (.start name as :: ps) ++ w =
        '<' :: (name ++ (as.flatMap renderAttribute ++ '>' :: (render ps ++ w))) := by
    simp [render_cons, Part.render]
  -- The ends of lines are made alike in the parts, and nowhere else.
  have hlines : lineEnds (document name attributes parts) =
      declaration ++ '<' :: (name ++ ((attributes.map fun a => (a.1, lineEnds a.2)).flatMap
        renderAttribute ++ '>' :: (render (parts.map Part.ended) ++ ['\n']))) := by
    have hdeclared : lineEnds declaration = declaration := by decide
    rw [document, hstart, lineEnds_append_cons (by decide), hdeclared, lineEnds,
      lineEndsFrom_cons (by decide) (by decide), lineEnds, hname.lineEnds,
      lineEnds_attributes htag.2.1 (by decide) (by decide), lineEnds_render h]
    rfl
  have htag' := htag.ended
  rw [read, if_pos hchars, hlines, readProlog_declaration, Option.bind_eq_bind, Option.bind_some,
    eat, if_pos rfl, Option.bind_eq_bind, Option.bind_some, readTag_render htag' (by decide)
    (by decide), endTag, Option.bind_some]
  dsimp only
  rw [if_neg Bool.false_ne_true, reads_render hb (by decide) _ (Nat.lt_succ_self _),
    Option.map_some, List.flatMap_map, List.flatMap_cons]
  rfl

end Documents

end Xml

end Smrt
