import Smrt.Accounts.Discussions
import Smrt.Lib.Xml

/-!
# The feed of somebody's notifications

What somebody is told of can be read as a feed, an XML document that is written out by hand
(`atomFeed`). All that was typed by anybody is escaped in it (`xml`).

* `toList_atomFeed`: the document is one that is written of balanced parts (`feedParts`);
* `feed_carries_iff`: so its elements are the ones of the feed, whatever was typed, and its titles
  are the ones of the notifications (`Carries`), if and only if all characters are ones that XML
  has, and no title has a carriage return (`Carriable`): these are not escaped, and a reader takes
  them for ends of lines.

How a time is written is a parameter; what is known of it is which characters it is written with
(`Timely`).
-/

namespace Smrt

namespace AtomFeed

/-- The text with another text for each of these characters. -/
def replace (s : String) (c : Char) (w : String) : String :=
  String.ofList (s.toList.flatMap fun d => if d = c then w.toList else [d])

/-- The text with the characters escaped that mean something. -/
def xml (raw : String) : String :=
  replace (replace (replace (replace (replace raw '&' "&amp;") '<' "&lt;") '>' "&gt;") '"' "&quot;")
    '\'' "&apos;"

/-- Who did what is told. An operator is nobody in particular. -/
def who (row : Notification) : String :=
  match row.actorLogin with
  | some login => login
  | none => if row.actorUid = 0 then "the operator" else "somebody"

def what (row : Notification) : String :=
  match row.kind with
  | .comment => who row ++ " said something"
  | .opened => who row ++ " opened this on " ++ row.packId
  | .settled => who row ++ " marked it " ++ row.status.name

section Writing

variable (format : Int64 → Option String)

def rfc3339 (unix : Int64) : String := (format unix).getD "1970-01-01T00:00:00Z"

def url (base : String) (row : Notification) : String := base ++ "/thread/" ++ toString row.threadId

def entry (base : String) (row : Notification) : String :=
  "  <entry>\n" ++
  ("    <title>" ++ xml row.title ++ "</title>\n") ++
  ("    <link rel=\"alternate\" href=\"" ++ xml (url base row) ++ "\"/>\n") ++
  ("    <id>tag:smrt,2026:notification:" ++ toString row.id ++ "</id>\n") ++
  ("    <updated>" ++ rfc3339 format row.createdAt ++ "</updated>\n") ++
  ("    <summary>" ++ xml (what row) ++ "</summary>\n") ++
  "  </entry>\n"

/-- The time of the newest notification. -/
def newest (rows : List Notification) : Int64 := (rows.head?.map Notification.createdAt).getD 0

/-- What the feed says before its entries. -/
def heading (base login : String) (uid : Int64) (rows : List Notification) : String :=
  "<?xml version=\"1.0\" encoding=\"utf-8\"?>\n" ++
  "<feed xmlns=\"http://www.w3.org/2005/Atom\">\n" ++
  ("  <title>smrt: " ++ xml login ++ "</title>\n") ++
  ("  <id>tag:smrt,2026:notifications:" ++ toString uid.toInt ++ "</id>\n") ++
  ("  <link rel=\"alternate\" href=\"" ++ xml base ++ "/profile\"/>\n") ++
  ("  <updated>" ++ rfc3339 format (newest rows) ++ "</updated>\n")

def atomFeed (base login : String) (uid : Int64) (rows : List Notification) : String :=
  rows.foldl (fun out row => out ++ entry format base row) (heading format base login uid rows) ++
    "</feed>\n"

end Writing

/-! ## What a reader finds -/

section Finding

open Xml (Event Name)

/-- The tags of a document, with the names of their attributes. -/
def tags (events : List Event) : List (Name × Option (List Name)) :=
  events.filterMap fun
    | .start name attributes => some (name, some (attributes.map Prod.fst))
    | .close name => some (name, none)
    | .text _ => none

/-- The titles of the entries, where an entry may have been opened, and its title. -/
def entryTitles : Bool → Option (List Char) → List Event → List (List Char)
  | _, _, [] => []
  | inside, none, .start name _ :: events =>
    if name = "entry".toList then entryTitles true none events
    else if name = "title".toList ∧ inside then entryTitles inside (some []) events
    else entryTitles inside none events
  | inside, none, .close name :: events =>
    entryTitles (inside && name ≠ "entry".toList) none events
  | inside, none, .text _ :: events => entryTitles inside none events
  | inside, some title, .text s :: events => entryTitles inside (some (title ++ s)) events
  | inside, some title, .close name :: events =>
    if name = "title".toList then title :: entryTitles inside none events
    else entryTitles inside (some title) events
  | inside, some title, .start _ _ :: events => entryTitles inside (some title) events

def simpleTags (name : String) : List (Name × Option (List Name)) :=
  [(name.toList, some []), (name.toList, none)]

def linkTags : List (Name × Option (List Name)) :=
  [("link".toList, some ["rel".toList, "href".toList]), ("link".toList, none)]

def entryTags : List (Name × Option (List Name)) :=
  ("entry".toList, some []) :: (simpleTags "title" ++ linkTags ++ simpleTags "id" ++
    simpleTags "updated" ++ simpleTags "summary" ++ [("entry".toList, none)])

/-- The tags of a feed of so many entries. -/
def feedTags (n : ℕ) : List (Name × Option (List Name)) :=
  ("feed".toList, some ["xmlns".toList]) :: (simpleTags "title" ++ simpleTags "id" ++ linkTags ++
    simpleTags "updated" ++ (List.replicate n entryTags).flatten ++ [("feed".toList, none)])

/-- The document is well formed, with the elements of a feed and no other ones, and its titles are
    the ones of the notifications, but for characters that XML does not have. -/
def Carries (doc : String) (rows : List Notification) : Prop :=
  ∃ events, Xml.read doc.toList = some events ∧ tags events = feedTags rows.length ∧
    ∃ replaced : Char → List Char, (∀ c, Xml.isXmlChar c = true → replaced c = [c]) ∧
      entryTitles false none events = rows.map fun row => row.title.toList.flatMap replaced

/-- What anybody typed that the feed shows. -/
def typed (base login : String) (rows : List Notification) : List String :=
  base :: login :: rows.flatMap fun row =>
    row.title :: who row :: if row.kind = .opened then [row.packId] else []

/-- All that was typed is of characters that XML has, and no title has a carriage return. -/
def Carriable (base login : String) (rows : List Notification) : Prop :=
  (∀ s ∈ typed base login rows, s.toList.all Xml.isXmlChar = true) ∧
    ∀ row ∈ rows, '\r' ∉ row.title.toList

/-- A time is written with digits, `-`, `:`, `.`, `+`, `T` and `Z`. -/
def Timely (format : Int64 → Option String) : Prop :=
  ∀ unix s, format unix = some s → ∀ c ∈ s.toList, c.isDigit = true ∨ c ∈ "-:.+TZ".toList

end Finding

/-! ## Parts -/

section Parts

open Xml (Part IsTag IsName Balanced)

theorem toList_replace (s : String) (c : Char) (w : String) :
    (replace s c w).toList = s.toList.flatMap fun d => if d = c then w.toList else [d] :=
  String.toList_ofList

/-- One character after the other is what they are at once. -/
theorem toList_xml (raw : String) : (xml raw).toList = Xml.escape raw.toList := by
  rw [xml, toList_replace, toList_replace, toList_replace, toList_replace, toList_replace,
    List.flatMap_assoc, List.flatMap_assoc, List.flatMap_assoc, List.flatMap_assoc, Xml.escape]
  refine congrArg (List.flatMap · raw.toList) (funext fun c => ?_)
  by_cases h : c ∈ Xml.markup
  · simp only [Xml.markup, List.mem_cons, List.not_mem_nil, or_false] at h
    rcases h with rfl | rfl | rfl | rfl | rfl <;> decide
  · rw [Xml.escapeChar_of_not_mem h]
    simp only [Xml.markup, List.mem_cons, List.not_mem_nil, or_false, not_or] at h
    obtain ⟨h1, h2, h3, h4, h5⟩ := h
    simp only [h1, h2, h3, h4, h5, if_false, List.flatMap_cons, List.flatMap_nil, List.append_nil]

def element (name : String) (s : List Char) : List Part :=
  [.start name.toList [], .text s, .close name.toList]

def link (href : List Char) : Part :=
  .empty "link".toList [("rel".toList, "alternate".toList), ("href".toList, href)]

variable (format : Int64 → Option String)

def entryParts (base : String) (row : Notification) : List Part :=
  .text "\n  ".toList :: .start "entry".toList [] ::
    (.text "\n    ".toList :: element "title" row.title.toList ++
    .text "\n    ".toList :: link (url base row).toList ::
    .text "\n    ".toList ::
      element "id" ("tag:smrt,2026:notification:".toList ++ (toString row.id).toList) ++
    .text "\n    ".toList :: element "updated" (rfc3339 format row.createdAt).toList ++
    .text "\n    ".toList :: element "summary" (what row).toList ++
    [.text "\n  ".toList, .close "entry".toList])

/-- What the feed goes on with after its first tag, up to its entries. -/
def headingParts (base login : String) (uid : Int64) (rows : List Notification) : List Part :=
  .text "\n  ".toList :: element "title" ("smrt: ".toList ++ login.toList) ++
    .text "\n  ".toList ::
      element "id" ("tag:smrt,2026:notifications:".toList ++ (toString uid.toInt).toList) ++
    .text "\n  ".toList :: link (base.toList ++ "/profile".toList) ::
    .text "\n  ".toList :: element "updated" (rfc3339 format (newest rows)).toList

def feedParts (base login : String) (uid : Int64) (rows : List Notification) : List Part :=
  headingParts format base login uid rows ++
    (rows.flatMap (entryParts format base) ++ [.text "\n".toList, .close "feed".toList])

def feedAttributes : Xml.Attributes := [("xmlns".toList, "http://www.w3.org/2005/Atom".toList)]

variable {format}

/-- What is not typed means nothing. -/
theorem escape_digits {s : List Char}
    (h : ∀ c ∈ s, c.isDigit = true ∨ c ∈ "-:.+TZ".toList) : Xml.escape s = s := by
  refine Xml.escape_eq_self fun c hc hm => ?_
  refine Xml.of_mem_markup (P := fun c => (c.isDigit = true ∨ c ∈ "-:.+TZ".toList) → False) hm
    ?_ ?_ ?_ ?_ ?_ (h c hc) <;> decide

theorem digits_of_all {s : String}
    (h : (s.toList.all fun c => c.isDigit || "-:.+TZ".toList.elem c) = true) :
    ∀ c ∈ s.toList, c.isDigit = true ∨ c ∈ "-:.+TZ".toList := by
  intro c hc
  exact (Bool.or_eq_true_iff.1 (List.all_eq_true.1 h c hc)).imp_right List.mem_of_elem_eq_true

theorem rfc3339_timely (hformat : Timely format) (unix : Int64) :
    ∀ c ∈ (rfc3339 format unix).toList, c.isDigit = true ∨ c ∈ "-:.+TZ".toList := by
  rw [rfc3339]
  rcases h : format unix with _ | s
  · exact digits_of_all (by decide)
  · exact hformat unix s h

theorem toString_digits (n : ℤ) :
    ∀ c ∈ (toString n).toList, c.isDigit = true ∨ c ∈ "-:.+TZ".toList := by
  intro c hc
  refine (mem_toString hc).imp_right fun he => ?_
  rw [he]
  decide

/-- An entry, but for the end of its last line, stands after the end of the line before it. -/
theorem entry_eq (hformat : Timely format) (base : String) (row : Notification) :
    "\n" ++ entry format base row =
      String.ofList (Xml.render (entryParts format base row)) ++ "\n" := by
  have hid : Xml.escape (toString row.id).toList = (toString row.id).toList :=
    escape_digits (toString_digits row.id)
  have htime := escape_digits (rfc3339_timely hformat row.createdAt)
  rw [← String.toList_inj]
  delta entry
  simp only [String.toList_append, toList_xml, entryParts, element, link, Xml.render,
    List.flatMap_cons, List.flatMap_nil, Xml.Part.render, Xml.renderAttribute, Xml.escape_append,
    List.append_assoc, List.append_nil, hid, htime, List.cons_append, List.nil_append,
    String.toList_ofList]
  have hindent : Xml.escape "\n    ".toList = "\n    ".toList := rfl
  have hindent' : Xml.escape "\n  ".toList = "\n  ".toList := rfl
  have htag : Xml.escape "tag:smrt,2026:notification:".toList =
      "tag:smrt,2026:notification:".toList := rfl
  have halt : Xml.escape "alternate".toList = "alternate".toList := rfl
  rw [hindent, hindent', htag, halt]
  rfl

/-- So do the entries. -/
theorem entries_eq (hformat : Timely format) (base : String) (rows : List Notification)
    (out : String) : rows.foldl (fun out row => out ++ entry format base row) (out ++ "\n") =
      out ++ String.ofList (Xml.render (rows.flatMap (entryParts format base))) ++ "\n" := by
  induction rows generalizing out with
  | nil => exact congrArg (· ++ "\n") (String.append_empty (s := out)).symm
  | cons row rows ih =>
    rw [List.foldl_cons, String.append_assoc, entry_eq hformat, ← String.append_assoc, ih,
      List.flatMap_cons, Xml.render_append, String.ofList_append, ← String.append_assoc]

/-- The heading ends where an entry begins. -/
theorem heading_eq (hformat : Timely format) (base login : String) (uid : Int64)
    (rows : List Notification) : heading format base login uid rows =
      String.ofList (Xml.declaration ++ Xml.render (.start "feed".toList feedAttributes ::
        headingParts format base login uid rows)) ++ "\n" := by
  have huid : Xml.escape (toString uid.toInt).toList = (toString uid.toInt).toList :=
    escape_digits (toString_digits uid.toInt)
  have htime := escape_digits (rfc3339_timely hformat (newest rows))
  rw [← String.toList_inj]
  delta heading
  simp only [headingParts, feedAttributes, String.toList_append, toList_xml, element,
    link, Xml.render, List.flatMap_cons, List.flatMap_nil, Xml.Part.render, Xml.renderAttribute,
    Xml.escape_append, List.append_assoc, List.append_nil, huid, htime, List.cons_append,
    List.nil_append, String.toList_ofList]
  have hindent : Xml.escape "\n  ".toList = "\n  ".toList := rfl
  have htitle : Xml.escape "smrt: ".toList = "smrt: ".toList := rfl
  have htag : Xml.escape "tag:smrt,2026:notifications:".toList =
      "tag:smrt,2026:notifications:".toList := rfl
  have halt : Xml.escape "alternate".toList = "alternate".toList := rfl
  have hprofile : Xml.escape "/profile".toList = "/profile".toList := rfl
  have hfeed : Xml.escape "http://www.w3.org/2005/Atom".toList =
      "http://www.w3.org/2005/Atom".toList := rfl
  rw [hindent, htitle, htag, halt, hprofile, hfeed]
  rfl

/-- The feed is written of its parts. -/
theorem toList_atomFeed (hformat : Timely format) (base login : String) (uid : Int64)
    (rows : List Notification) : (atomFeed format base login uid rows).toList =
      Xml.document "feed".toList feedAttributes (feedParts format base login uid rows) := by
  have hend : Xml.render [.text "\n".toList, .close "feed".toList] ++ ['\n'] =
      "\n".toList ++ "</feed>\n".toList := rfl
  rw [atomFeed, heading_eq hformat, entries_eq hformat, Xml.document, feedParts,
    ← List.cons_append, Xml.render_append, Xml.render_append]
  simp only [String.toList_append, String.toList_ofList, List.append_assoc]
  rw [hend]

/-! ### In order -/

section Order

variable {name : String} {top : Xml.Name} {names : List Xml.Name} {s : List Char}
  {parts : List Part}

theorem balanced_element (hname : IsName name.toList) (h : Balanced (top :: names) parts) :
    Balanced (top :: names) (element name s ++ parts) :=
  ⟨⟨hname, nofun, .nil⟩, nofun, hname, rfl, h⟩

theorem balanced_link (h : Balanced (top :: names) parts) :
    Balanced (top :: names) (link s :: parts) := by
  have hrel : IsName "rel".toList := Xml.isName_of_decide (by decide)
  have hhref : IsName "href".toList := Xml.isName_of_decide (by decide)
  have hnodup : ["rel".toList, "href".toList].Nodup := by decide
  refine ⟨⟨Xml.isName_of_decide (by decide), fun a ha => ?_, hnodup⟩, h⟩
  rcases List.mem_pair.1 ha with rfl | rfl
  · exact hrel
  · exact hhref

theorem balanced_entry {base : String} {row : Notification}
    (h : Balanced ("feed".toList :: names) parts) :
    Balanced ("feed".toList :: names) (entryParts format base row ++ parts) := by
  have hentry : IsName "entry".toList := Xml.isName_of_decide (by decide)
  refine ⟨nofun, ⟨hentry, nofun, .nil⟩, nofun, ?_⟩
  refine balanced_element (Xml.isName_of_decide (by decide)) ⟨nofun, balanced_link ⟨nofun, ?_⟩⟩
  refine balanced_element (Xml.isName_of_decide (by decide)) ⟨nofun, ?_⟩
  refine balanced_element (Xml.isName_of_decide (by decide)) ⟨nofun, ?_⟩
  exact balanced_element (Xml.isName_of_decide (by decide)) ⟨nofun, hentry, rfl, h⟩

theorem balanced_feed (base login : String) (uid : Int64) (rows : List Notification) :
    Balanced ["feed".toList] (feedParts format base login uid rows) := by
  have hrows : Balanced ["feed".toList]
      (rows.flatMap (entryParts format base) ++ [.text "\n".toList, .close "feed".toList]) := by
    induction rows with
    | nil => exact ⟨nofun, Xml.isName_of_decide (by decide), rfl, rfl⟩
    | cons row rows ih =>
      rw [List.flatMap_cons, List.append_assoc]
      exact balanced_entry ih
  refine ⟨nofun, balanced_element (Xml.isName_of_decide (by decide)) ⟨nofun, ?_⟩⟩
  refine balanced_element (Xml.isName_of_decide (by decide)) ⟨nofun, balanced_link ⟨nofun, ?_⟩⟩
  exact balanced_element (Xml.isName_of_decide (by decide)) hrows

end Order

/-! ### Tags and titles -/

section Found

open Xml (Event Name)

/-- The events that a reader makes of the parts. -/
def eventsOf (parts : List Part) : List Event := parts.flatMap fun part => part.ended.events

theorem eventsOf_cons (part : Part) (parts : List Part) :
    eventsOf (part :: parts) = part.ended.events ++ eventsOf parts := List.flatMap_cons

theorem eventsOf_append (parts parts' : List Part) :
    eventsOf (parts ++ parts') = eventsOf parts ++ eventsOf parts' := List.flatMap_append

def partTags : Part → List (Name × Option (List Name))
  | .text _ => []
  | .start name attributes => [(name, some (attributes.map Prod.fst))]
  | .empty name attributes => [(name, some (attributes.map Prod.fst)), (name, none)]
  | .close name => [(name, none)]

/-- The tags are in the parts, whatever their texts and values are. -/
theorem tags_eventsOf (parts : List Part) : tags (eventsOf parts) = parts.flatMap partTags := by
  have hpart (part : Part) : tags part.ended.events = partTags part := by
    rcases part with s | ⟨name, attributes⟩ | ⟨name, attributes⟩ | name
    · rw [Part.ended]
      rcases Xml.lineEnds s with _ | ⟨c, s⟩ <;> rfl
    all_goals simp [Part.ended, Part.events, tags, partTags, Function.comp_def]
  induction parts with
  | nil => rfl
  | cons part parts ih =>
    rw [eventsOf_cons, tags, List.filterMap_append, ← tags, ← tags, hpart, ih, List.flatMap_cons]

theorem tags_feed (base login : String) (uid : Int64) (rows : List Notification) :
    tags (eventsOf (.start "feed".toList feedAttributes :: feedParts format base login uid rows)) =
      feedTags rows.length := by
  have hrows : (rows.flatMap (entryParts format base)).flatMap partTags =
      (List.replicate rows.length entryTags).flatten := by
    induction rows with
    | nil => rfl
    | cons row rows ih =>
      rw [List.flatMap_cons, List.flatMap_append, ih]
      rfl
  have hheading : (Part.start "feed".toList feedAttributes ::
      headingParts format base login uid rows).flatMap partTags =
        ("feed".toList, some ["xmlns".toList]) :: (simpleTags "title" ++ simpleTags "id" ++
          linkTags ++ simpleTags "updated") := rfl
  have hend : [Part.text "\n".toList, .close "feed".toList].flatMap partTags =
      [("feed".toList, none)] := rfl
  rw [tags_eventsOf, feedParts, ← List.cons_append, List.flatMap_append, hheading,
    List.flatMap_append, hrows, hend, feedTags, List.cons_append]
  simp only [List.append_assoc]

section Titles

variable {inside : Bool} {events : List Event} {title : List Char}

/-- A text that is nowhere is not a title, and one in a title is added to it. -/
theorem entryTitles_text (s : List Char) :
    entryTitles inside none ((Part.text s).ended.events ++ events) =
      entryTitles inside none events := by
  rw [Part.ended]
  rcases Xml.lineEnds s with _ | ⟨c, s⟩ <;> rfl

theorem entryTitles_title (s : List Char) :
    entryTitles inside (some title) ((Part.text s).ended.events ++ events) =
      entryTitles inside (some (title ++ Xml.lineEnds s)) events := by
  rw [Part.ended]
  rcases Xml.lineEnds s with _ | ⟨c, s⟩
  · rw [List.append_nil]
    rfl
  · rfl

/-- An element with a text, outside of an entry, or no title. -/
theorem entryTitles_element {name : String} (s : List Char)
    (hentry : name.toList ≠ "entry".toList) (htitle : ¬ (name.toList = "title".toList ∧ inside)) :
    entryTitles inside none (eventsOf (element name s) ++ events) =
      entryTitles inside none events := by
  have hparts : eventsOf (element name s) ++ events = .start name.toList [] ::
      ((Part.text s).ended.events ++ .close name.toList :: events) := by
    rw [element, eventsOf_cons, eventsOf_cons, List.append_assoc, List.append_assoc]
    rfl
  rw [hparts, entryTitles, if_neg hentry, if_neg htitle, entryTitles_text, entryTitles,
    decide_eq_true hentry, Bool.and_true]

theorem entryTitles_link (href : List Char) :
    entryTitles inside none ((link href).ended.events ++ events) =
      entryTitles inside none events := by
  rcases inside <;> rfl

/-- The title of an entry, with its ends of lines as a reader has them. -/
theorem entryTitles_found (s : List Char) :
    entryTitles true none (eventsOf (element "title" s) ++ events) =
      Xml.lineEnds s :: entryTitles true none events := by
  have hparts : eventsOf (element "title" s) ++ events = .start "title".toList [] ::
      ((Part.text s).ended.events ++ .close "title".toList :: events) := by
    rw [element, eventsOf_cons, eventsOf_cons, List.append_assoc, List.append_assoc]
    rfl
  rw [hparts, entryTitles, if_neg (by decide), if_pos (by decide), entryTitles_title, entryTitles,
    if_pos rfl, List.nil_append]

theorem entryTitles_entry (base : String) (row : Notification) :
    entryTitles false none (eventsOf (entryParts format base row) ++ events) =
      Xml.lineEnds row.title.toList :: entryTitles false none events := by
  have hstart (events : List Event) : entryTitles false none
      ((Part.start "entry".toList []).ended.events ++ events) = entryTitles true none events := rfl
  have hclose (events : List Event) : entryTitles true none
      ((Part.close "entry".toList).ended.events ++ events) = entryTitles false none events := rfl
  have hnil (events : List Event) : eventsOf [] ++ events = events := rfl
  simp only [entryParts, eventsOf_cons, eventsOf_append, List.append_assoc, List.cons_append]
  rw [entryTitles_text, hstart, entryTitles_text, entryTitles_found, entryTitles_text,
    entryTitles_link, entryTitles_text, entryTitles_element _ (by decide) (by decide),
    entryTitles_text, entryTitles_element _ (by decide) (by decide), entryTitles_text,
    entryTitles_element _ (by decide) (by decide), entryTitles_text, hclose, hnil]

theorem entryTitles_feed (base login : String) (uid : Int64) (rows : List Notification) :
    entryTitles false none
        (eventsOf (.start "feed".toList feedAttributes :: feedParts format base login uid rows)) =
      rows.map fun row => Xml.lineEnds row.title.toList := by
  have hrows : entryTitles false none (eventsOf (rows.flatMap (entryParts format base) ++
      [.text "\n".toList, .close "feed".toList])) =
        rows.map fun row => Xml.lineEnds row.title.toList := by
    induction rows with
    | nil => rfl
    | cons row rows ih =>
      rw [List.flatMap_cons, List.append_assoc, eventsOf_append, entryTitles_entry, ih,
        List.map_cons]
  have hstart (events : List Event) : entryTitles false none
      ((Part.start "feed".toList feedAttributes).ended.events ++ events) =
        entryTitles false none events := rfl
  rw [eventsOf_cons, hstart, feedParts, eventsOf_append, ← hrows]
  generalize eventsOf (rows.flatMap (entryParts format base) ++ _) = events
  simp only [headingParts, eventsOf_cons, eventsOf_append, List.append_assoc, List.cons_append]
  rw [entryTitles_text, entryTitles_element _ (by decide) (by decide), entryTitles_text,
    entryTitles_element _ (by decide) (by decide), entryTitles_text, entryTitles_link,
    entryTitles_text, entryTitles_element _ (by decide) (by decide)]

end Titles

end Found

/-! ## Well formed -/

section Legal

variable {base login : String} {uid : Int64} {rows : List Notification}

/-- The text is of characters that XML has. -/
abbrev Legal (s : List Char) : Prop := s.all Xml.isXmlChar = true

theorem legal_append {s s' : List Char} : Legal (s ++ s') ↔ Legal s ∧ Legal s' := by
  rw [Legal, List.all_append, Bool.and_eq_true]

theorem legal_digits {s : List Char}
    (h : ∀ c ∈ s, c.isDigit = true ∨ c ∈ "-:.+TZ".toList) : Legal s := by
  refine List.all_eq_true.2 fun c hc => ?_
  rcases h c hc with hd | hm
  · have hrange : 0x20 ≤ c.toNat ∧ c.toNat ≤ 0xd7ff := by
      simp only [Char.isDigit, Bool.and_eq_true, decide_eq_true_eq, ge_iff_le,
        UInt32.le_iff_toNat_le] at hd
      have hlow : '0'.val.toNat = 48 := rfl
      have hhigh : '9'.val.toNat = 57 := rfl
      have hc : c.toNat = c.val.toNat := rfl
      omega
    simp [Xml.isXmlChar, hrange]
  · have hmarks : Legal "-:.+TZ".toList := by decide
    exact List.all_eq_true.1 hmarks c hm

theorem legal_what (row : Notification) : Legal (what row).toList ↔
    Legal (who row).toList ∧ (row.kind = .opened → Legal row.packId.toList) := by
  have hstatus : ∀ st : ThreadStatus, Legal st.name.toList := by
    intro st
    rcases st <;> decide
  rw [what]
  rcases hk : row.kind
  all_goals
    dsimp only
    simp only [String.toList_append, legal_append]
  · exact ⟨fun h => ⟨h.1, nofun⟩, fun h => ⟨h.1, by decide⟩⟩
  · exact ⟨fun h => ⟨h.1.1, fun _ => h.2⟩, fun h => ⟨⟨h.1, by decide⟩, h.2 trivial⟩⟩
  · exact ⟨fun h => ⟨h.1.1, nofun⟩, fun h => ⟨⟨h.1, by decide⟩, hstatus _⟩⟩

theorem legal_url (row : Notification) :
    Legal (url base row).toList ↔ Legal base.toList := by
  have hid : Legal (toString row.threadId).toList := legal_digits (toString_digits row.threadId)
  rw [url, String.toList_append, String.toList_append, legal_append, legal_append]
  exact ⟨fun h => h.1.1, fun h => ⟨⟨h, by decide⟩, hid⟩⟩

theorem all_element (name : String) (h : Legal name.toList) (s : List Char) :
    (element name s).all Part.legal = true ↔ Legal s := by
  simp [element, Part.legal, h]

theorem all_link (href : List Char) : (link href).legal = true ↔ Legal href := by
  have hwords : Legal "link".toList ∧ Legal "rel".toList ∧ Legal "alternate".toList ∧
      Legal "href".toList := by decide
  rw [link, Part.legal, hwords.1, List.all_cons, List.all_cons, List.all_nil, hwords.2.1,
    hwords.2.2.1, hwords.2.2.2]
  simp

theorem all_entry (hformat : Timely format) (row : Notification) :
    (entryParts format base row).all Part.legal = true ↔
      Legal row.title.toList ∧ Legal base.toList ∧ Legal (who row).toList ∧
        (row.kind = .opened → Legal row.packId.toList) := by
  have hspace : (Part.text "\n    ".toList).legal = true := by decide
  have hspace' : (Part.text "\n  ".toList).legal = true := by decide
  have hstart : (Part.start "entry".toList []).legal = true := by decide
  have hclose : (Part.close "entry".toList).legal = true := by decide
  have hid : Legal ("tag:smrt,2026:notification:".toList ++ (toString row.id).toList) :=
    legal_append.2 ⟨by decide, legal_digits (toString_digits row.id)⟩
  have htime := legal_digits (rfc3339_timely hformat row.createdAt)
  have htitle := all_element "title" (by decide) row.title.toList
  have hid' := (all_element "id" (by decide) _).2 hid
  have htime' := (all_element "updated" (by decide) _).2 htime
  have hsummary := all_element "summary" (by decide) (what row).toList
  simp only [entryParts, List.cons_append, List.all_cons, List.all_append, List.all_nil,
    Bool.and_eq_true, hspace, hspace', hstart, hclose, htitle, all_link, hid', htime', hsummary,
    legal_url, legal_what, true_and, and_true, and_assoc]

theorem all_heading (hformat : Timely format) : (Part.start "feed".toList feedAttributes ::
    headingParts format base login uid rows).all Part.legal = true ↔
      Legal login.toList ∧ Legal base.toList := by
  have hspace : (Part.text "\n  ".toList).legal = true := by decide
  have hstart : (Part.start "feed".toList feedAttributes).legal = true := by decide
  have hid : Legal ("tag:smrt,2026:notifications:".toList ++ (toString uid.toInt).toList) :=
    legal_append.2 ⟨by decide, legal_digits (toString_digits uid.toInt)⟩
  have htime := legal_digits (rfc3339_timely hformat (newest rows))
  have htitle := all_element "title" (by decide) ("smrt: ".toList ++ login.toList)
  have hid' := (all_element "id" (by decide) _).2 hid
  have htime' := (all_element "updated" (by decide) _).2 htime
  simp only [headingParts, List.cons_append, List.all_cons, List.all_append, Bool.and_eq_true,
    hspace, hstart, htitle, all_link, hid', htime', legal_append, true_and, and_true]
  exact ⟨fun h => ⟨h.1.2, h.2.1⟩, fun h => ⟨⟨by decide, h.1⟩, h.2, by decide⟩⟩

/-- The characters are ones that XML has in all parts, if they are in what was typed. -/
theorem legal_iff (hformat : Timely format) :
    (Part.start "feed".toList feedAttributes :: feedParts format base login uid rows).all
        Part.legal = true ↔
      ∀ s ∈ typed base login rows, Legal s.toList := by
  have hend : [Part.text "\n".toList, .close "feed".toList].all Part.legal = true := by decide
  have hrow (row : Notification) :
      (∀ s ∈ if row.kind = .opened then [row.packId] else [], Legal s.toList) ↔
        (row.kind = .opened → Legal row.packId.toList) := by
    by_cases h : row.kind = .opened
    · rw [if_pos h, List.forall_mem_singleton]
      simp only [h, true_imp_iff]
    · rw [if_neg h]
      simp [h]
  rw [feedParts, ← List.cons_append, List.all_append, Bool.and_eq_true, all_heading hformat,
    List.all_append, hend, Bool.and_true, List.all_flatMap, List.all_eq_true]
  simp only [all_entry hformat, typed, List.forall_mem_cons, List.forall_mem_flatMap, hrow]
  constructor
  · intro h
    obtain ⟨⟨hlogin, hbase⟩, hrows⟩ := h
    exact ⟨hbase, hlogin, fun row hr => ⟨(hrows row hr).1, (hrows row hr).2.2⟩⟩
  · intro h
    obtain ⟨hbase, hlogin, hrows⟩ := h
    exact ⟨⟨hlogin, hbase⟩, fun row hr => ⟨(hrows row hr).1, hbase, (hrows row hr).2⟩⟩

end Legal

end Parts

/-- A feed is well formed, with the elements of a feed, and shows the titles that were typed, if and
    only if all that was typed is of characters that XML has, and no title has a carriage return. -/
theorem feed_carries_iff (format : Int64 → Option String) (hformat : Timely format)
    (base login : String) (uid : Int64) (rows : List Notification) :
    Carries (atomFeed format base login uid rows) rows ↔ Carriable base login rows := by
  have hread (hall : ∀ s ∈ typed base login rows, s.toList.all Xml.isXmlChar = true) :
      Xml.read (atomFeed format base login uid rows).toList =
        some (eventsOf (.start "feed".toList feedAttributes ::
          feedParts format base login uid rows)) := by
    have hname : Xml.IsName "feed".toList := Xml.isName_of_decide (by decide)
    rw [toList_atomFeed hformat]
    refine Xml.read_document ⟨hname, ?_, by decide⟩ (balanced_feed base login uid rows) ?_
    · intro a ha
      rw [List.mem_singleton.1 ha]
      exact Xml.isName_of_decide (by decide)
    · rw [Xml.all_document]
      exact (legal_iff hformat).2 hall
  constructor
  · intro h
    obtain ⟨events, hevents, -, replaced, hreplaced, htitles⟩ := h
    -- Nothing is read of a document with other characters.
    have hall : ∀ s ∈ typed base login rows, s.toList.all Xml.isXmlChar = true := by
      have hdoc : (atomFeed format base login uid rows).toList.all Xml.isXmlChar = true := by
        by_contra hno
        rw [Xml.read, if_neg hno] at hevents
        exact Option.some_ne_none _ hevents.symm
      rw [toList_atomFeed hformat, Xml.all_document] at hdoc
      exact (legal_iff hformat).1 hdoc
    refine ⟨hall, fun row hrow => ?_⟩
    rw [hread hall] at hevents
    rw [← Option.some.inj hevents, entryTitles_feed] at htitles
    -- A title of characters that XML has is not to be replaced.
    have htitle : Legal row.title.toList :=
      hall _ (List.mem_cons_of_mem _ (List.mem_cons_of_mem _
        (List.mem_flatMap.2 ⟨row, hrow, List.mem_cons_self⟩)))
    have hsame : row.title.toList.flatMap replaced = row.title.toList := by
      rw [List.flatMap_congr fun c hc => hreplaced c (List.all_eq_true.1 htitle c hc)]
      exact List.flatMap_singleton' _
    have hlines := List.map_inj_left.1 htitles row hrow
    rw [hsame] at hlines
    exact Xml.lineEnds_eq_self_iff.1 hlines
  · intro h
    obtain ⟨hall, hreturn⟩ := h
    refine ⟨_, hread hall, tags_feed base login uid rows, fun c => [c], fun _ _ => rfl, ?_⟩
    rw [entryTitles_feed]
    refine List.map_congr_left fun row hrow => ?_
    rw [Xml.lineEnds_eq_self_iff.2 (hreturn row hrow)]
    exact (List.flatMap_singleton' _).symm

/-- A clock that knows one time. -/
def oneTime (unix : Int64) : Option String :=
  if unix = 1700000000 then some "2023-11-14T22:13:20Z" else none

theorem oneTime_timely : Timely oneTime := by
  intro unix s h
  obtain ⟨-, hs⟩ := Option.ite_none_right_eq_some.1 h
  rw [← Option.some.inj hs]
  exact digits_of_all (by decide)

/-- That somebody opened a thread of this title. -/
def opened (title : String) : Notification :=
  ⟨1, .opened, 7, "pack", title, .open, 5, some "ann", 1700000000, false⟩

/-- Markup in a title is a title. -/
theorem feed_carries_markup :
    Carries (atomFeed oneTime "https://mirror" "bob" 3 [opened "</title> & more"])
      [opened "</title> & more"] :=
  (feed_carries_iff oneTime oneTime_timely "https://mirror" "bob" 3 [opened "</title> & more"]).2
    ⟨by decide, by decide⟩

/-- With a control character in a title, no reader takes the feed. -/
theorem feed_not_carried :
    ¬ Carries (atomFeed oneTime "https://mirror" "bob" 3 [opened "a\x01b"]) [opened "a\x01b"] := by
  intro h
  obtain ⟨events, hevents, -⟩ := h
  have hdoc : ¬ (atomFeed oneTime "https://mirror" "bob" 3 [opened "a\x01b"]).toList.all
      Xml.isXmlChar = true := by
    rw [toList_atomFeed oneTime_timely, Xml.all_document, legal_iff oneTime_timely]
    decide
  rw [Xml.read, if_neg hdoc] at hevents
  exact Option.some_ne_none _ hevents.symm

end AtomFeed

end Smrt
