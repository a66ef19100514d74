import Smrt.Lib.Blocks
import Smrt.Lib.Decimal
import Smrt.Lib.Doubles
import Smrt.Lib.UriComponent
import Smrt.Storage.Layout

/-!
# The addresses of the panel

What is open in the panel is in the path of its address: a pack that is edited, a commit or a thread
of it, or a mod. An address is built of what it opens (`href`), and each of four patterns is matched
against the path on its own to get that back (`packFromPath`, `commitFromPath`, `threadFromPath`,
`modFromPath`). A pattern that takes whatever comes takes as much as it can (`star`). What it took
is read as a component of an address, and what is no component is an error that nobody catches.

* `parsed_iff`: an address gives back what it was built of and nothing else, whether the id of the
  pack is escaped in it or not, if it names something;
* `returns_iff`: the four parsers return on a path exactly if what it has after `/packs/`,
  `/mypacks/` or `/mod/` is escaped well.
-/

namespace Smrt

namespace Route

open String

/-! ## Patterns -/

/-- What is left of a text after its beginning `p`, if it has it. -/
def after (p : String) (l : List Char) : Option (List Char) :=
  if p.toList <+: l then some (l.drop p.toList.length) else none

def lineEnds : List Char := ['\n', '\r', Char.ofNat 0x2028, Char.ofNat 0x2029]

/-- A letter that does not end a line. -/
def isDot (c : Char) : Bool := !lineEnds.contains c

/-- `(.*)` before the rest of a pattern: it takes as much as leaves something that the rest
matches. -/
def star (rest : List Char → Bool) : List Char → Option (List Char × List Char)
  | [] => if rest [] then some ([], []) else none
  | c :: l =>
    match if isDot c then star rest l else none with
    | some p => some (c :: p.1, p.2)
    | none => if rest (c :: l) then some ([], c :: l) else none

/-- `(.+)` before the rest of a pattern. -/
def plus (rest : List Char → Bool) : List Char → Option (List Char × List Char)
  | [] => none
  | c :: l => if isDot c then (star rest l).map fun p => (c :: p.1, p.2) else none

/-- `(.+)$` -/
def line (l : List Char) : Option (List Char) := if l ≠ [] ∧ l.all isDot then some l else none

/-- `\/commit\/([^/]+)$` -/
def commitEnd (l : List Char) : Option (List Char) :=
  (after "/commit/" l).filter fun m => m ≠ [] ∧ '/' ∉ m

/-- `\/thread\/(\d+)$` -/
def threadEnd (l : List Char) : Option ℕ := (after "/thread/" l).bind decimal

/-- What is after `^\/(?:packs|mypacks)\/`. -/
def inEditor (l : List Char) : Option (List Char) := (after "/packs/" l).or (after "/mypacks/" l)

/-! ## The parsers -/

/-- What a pattern took, as it is read. -/
def readTaken : Option (List Char) → Except Unit (Option String)
  | none => .ok none
  | some m =>
    match decodeURIComponent (ofList m) with
    | some s => .ok (some s)
    | none => .error ()

/-- The number that digits are read as: the double next to it. -/
def toNumber (n : ℕ) : UInt64 := if n < 2 ^ 1024 then Double.ofInt n else 0x7ff0000000000000

def modFromPath (path : String) : Except Unit (Option String) :=
  readTaken ((after "/mod/" path.toList).bind line)

def packFromPath (path : String) : Except Unit (Option String) :=
  let tail := inEditor path.toList
  match tail.bind (plus fun l => (commitEnd l).isSome || (threadEnd l).isSome) with
  | some c => readTaken (some c.1)
  | none => readTaken (tail.bind line)

def commitFromPath (path : String) : Except Unit (Option String) :=
  let m := (inEditor path.toList).bind (plus fun l => (commitEnd l).isSome)
  readTaken (m.bind fun p => commitEnd p.2)

def threadFromPath (path : String) : Option UInt64 :=
  let m := (inEditor path.toList).bind (plus fun l => (threadEnd l).isSome)
  ((m.bind fun p => threadEnd p.2).or (threadEnd path.toList)).map toNumber

/-! ## The addresses -/

/-- A section with an editor. -/
inductive Editing
  | packs
  | mypacks

def Editing.name : Editing → String
  | packs => "packs"
  | mypacks => "mypacks"

/-- The number of a thread and how it is written: with digits, which are read as it. -/
structure ThreadNumber where
  value : UInt64
  text : String
  reads : (decimal text.toList).map toNumber = some value

/-- A number that a thread has. -/
def ThreadNumber.ofNat (n : ℕ) : ThreadNumber where
  value := toNumber n
  text := toString n
  reads := by rw [toList_toString, decimal_toDigits, Option.map_some]

namespace href

def mod (ref : String) : String := "/mod/" ++ encodeURIComponent ref

def pack (id : String) (section' : Editing) : String :=
  "/" ++ section'.name ++ "/" ++ encodeURIComponent id

def commit (id commitId : String) (section' : Editing) : String :=
  "/" ++ section'.name ++ "/" ++ encodeURIComponent id ++ "/commit/" ++ encodeURIComponent commitId

def thread (id : String) (threadId : ThreadNumber) (section' : Editing) : String :=
  "/" ++ section'.name ++ "/" ++ encodeURIComponent id ++ "/thread/" ++ threadId.text

def discussion (threadId : ThreadNumber) : String := "/thread/" ++ threadId.text

end href

abbrev SafeId := {id : String // isSafeId id = true}

/-- What an address is built of. In the older form of one, the id is as it is. -/
inductive Address
  | mod (ref : String)
  | pack (id : SafeId) (section' : Editing) (older : Bool)
  | commit (id : SafeId) (commitId : String) (section' : Editing) (older : Bool)
  | thread (id : SafeId) (threadId : ThreadNumber) (section' : Editing) (older : Bool)
  | discussion (threadId : ThreadNumber)

def Address.path : Address → String
  | mod ref => href.mod ref
  | pack id s false => href.pack id.1 s
  | pack id s true => "/" ++ s.name ++ "/" ++ id.1
  | commit id commitId s false => href.commit id.1 commitId s
  | commit id commitId s true =>
    "/" ++ s.name ++ "/" ++ id.1 ++ "/commit/" ++ encodeURIComponent commitId
  | thread id n s false => href.thread id.1 n s
  | thread id n s true => "/" ++ s.name ++ "/" ++ id.1 ++ "/thread/" ++ n.text
  | discussion n => href.discussion n

/-- What the parsers give. -/
structure Parts where
  mod : Option String := none
  pack : Option String := none
  commit : Option String := none
  thread : Option UInt64 := none

def Address.parts : Address → Parts
  | mod ref => { mod := some ref }
  | pack id _ _ => { pack := some id.1 }
  | commit id commitId _ _ => { pack := some id.1, commit := some commitId }
  | thread id n _ _ => { pack := some id.1, thread := some n.value }
  | discussion n => { thread := some n.value }

/-- The mod or the commit of an address has a name. -/
def Address.Named : Address → Prop
  | mod ref => ref ≠ ""
  | commit _ commitId _ _ => commitId ≠ ""
  | _ => True

/-- The four parsers return these parts. -/
structure Parsed (path : String) (parts : Parts) : Prop where
  mod : modFromPath path = .ok parts.mod
  pack : packFromPath path = .ok parts.pack
  commit : commitFromPath path = .ok parts.commit
  thread : threadFromPath path = parts.thread

/-- The path of an address as the browser reports it, in visible letters of one byte. -/
structure Pathname where
  text : String
  visible : ∀ c ∈ text.toList, 32 < c.toNat ∧ c.toNat < 127

/-- What a path has after the beginnings that are looked for is escaped well. -/
def WellEscaped (path : String) : Prop :=
  ∀ start ∈ ["/packs/", "/mypacks/", "/mod/"], ∀ m, after start path.toList = some m →
    WellEncoded m

/-! ## What a pattern takes -/

section Taking

variable {l a b m : List Char} {rest : List Char → Bool} {p : String}

theorem after_eq_some : after p l = some m ↔ l = p.toList ++ m := by
  rw [after]
  constructor
  · intro h
    split_ifs at h with hp
    obtain ⟨t, rfl⟩ := hp
    rw [List.drop_left] at h
    rw [Option.some.inj h]
  · rintro rfl
    rw [if_pos (List.prefix_append _ _), List.drop_left]

theorem commitEnd_eq_some :
    commitEnd l = some m ↔ l = "/commit/".toList ++ m ∧ m ≠ [] ∧ '/' ∉ m := by
  rw [commitEnd, Option.filter_eq_some_iff, after_eq_some, decide_eq_true_iff]

theorem threadEnd_eq_some {n : ℕ} :
    threadEnd l = some n ↔ ∃ d, l = "/thread/".toList ++ d ∧ decimal d = some n := by
  simp only [threadEnd, Option.bind_eq_some_iff, after_eq_some]

theorem mem_lineEnds {c : Char} (h : isDot c ≠ true) : c ∈ lineEnds := by
  rwa [isDot, ne_eq, Bool.not_eq_true', Bool.not_eq_false, List.contains_iff_mem] at h

/-- What no end of a line is does not end a line. -/
theorem isDot_of {f : Char → Bool} (hends : (lineEnds.all fun e => !f e) = true) {c : Char}
    (h : f c = true) : isDot c = true := by
  by_contra hdot
  have hnot := List.all_eq_true.1 hends c (mem_lineEnds hdot)
  rw [h] at hnot
  exact Bool.false_ne_true hnot

theorem line_eq_some : line l = some m ↔ m = l ∧ l ≠ [] ∧ ∀ c ∈ l, isDot c = true := by
  rw [line, Option.ite_none_right_eq_some, Option.some.injEq, List.all_eq_true]
  exact ⟨fun h => ⟨h.2.symm, h.1⟩, fun h => ⟨h.2, h.1.symm⟩⟩

theorem star_eq_some (h : star rest l = some (a, b)) : l = a ++ b ∧ rest b = true := by
  induction l generalizing a with
  | nil =>
    rw [star] at h
    split_ifs at h with hrest
    obtain ⟨rfl, rfl⟩ := Prod.mk.inj (Option.some.inj h)
    exact ⟨rfl, hrest⟩
  | cons c l ih =>
    rw [star] at h
    split at h
    · rename_i q hq
      split_ifs at hq
      obtain ⟨rfl, rfl⟩ := Prod.mk.inj (Option.some.inj h)
      obtain ⟨hl, hrest⟩ := ih hq
      exact ⟨congrArg (c :: ·) hl, hrest⟩
    · split_ifs at h with hrest
      obtain ⟨rfl, rfl⟩ := Prod.mk.inj (Option.some.inj h)
      exact ⟨rfl, hrest⟩

theorem exists_star (ha : ∀ c ∈ a, isDot c = true) (hb : rest b = true) :
    ∃ q, star rest (a ++ b) = some q := by
  induction a with
  | nil =>
    rcases b with _ | ⟨c, b⟩
    · exact ⟨([], []), if_pos hb⟩
    · rw [List.nil_append, star]
      split
      · exact ⟨_, rfl⟩
      · exact ⟨([], c :: b), if_pos hb⟩
  | cons c a ih =>
    obtain ⟨hc, ha⟩ := List.forall_mem_cons.1 ha
    obtain ⟨q, hq⟩ := ih ha
    rw [List.cons_append, star, if_pos hc, hq]
    exact ⟨(c :: q.1, q.2), rfl⟩

theorem plus_eq_some (h : plus rest l = some (a, b)) : l = a ++ b ∧ a ≠ [] ∧ rest b = true := by
  rcases l with _ | ⟨c, l⟩
  · exact absurd h.symm (Option.some_ne_none _)
  · rw [plus] at h
    split_ifs at h
    obtain ⟨q, hq, hqa⟩ := Option.map_eq_some_iff.1 h
    obtain ⟨rfl, rfl⟩ := Prod.mk.inj hqa
    obtain ⟨hl, hrest⟩ := star_eq_some hq
    exact ⟨congrArg (c :: ·) hl, List.cons_ne_nil _ _, hrest⟩

/-- What an end of an address is cut at are the last two slashes. -/
def Ends (l : List Char) : Prop := ∃ w m, l = '/' :: (w ++ '/' :: m) ∧ '/' ∉ w ∧ '/' ∉ m

theorem ends_of_commitEnd (h : commitEnd l = some m) : Ends l := by
  obtain ⟨rfl, -, hm⟩ := commitEnd_eq_some.1 h
  exact ⟨"commit".toList, m, rfl, by decide, hm⟩

theorem ends_of_threadEnd {n : ℕ} (h : threadEnd l = some n) : Ends l := by
  obtain ⟨d, rfl, hd⟩ := threadEnd_eq_some.1 h
  refine ⟨"thread".toList, d, rfl, by decide, fun hslash => ?_⟩
  rw [decimal, Option.ite_none_right_eq_some] at hd
  exact absurd (List.all_eq_true.1 hd.1.2 _ hslash) (by decide)

theorem ends_unique {a' b' : List Char} (hb : Ends b) (hb' : Ends b') (h : a ++ b = a' ++ b') :
    a = a' ∧ b = b' := by
  obtain ⟨w, m, rfl, hw, hm⟩ := hb
  obtain ⟨w', m', rfl, hw', hm'⟩ := hb'
  rw [← List.cons_append, ← List.cons_append, ← List.append_assoc, ← List.append_assoc] at h
  obtain ⟨hcut, rfl⟩ := (append_cons_inj_right hm hm').1 h
  obtain ⟨rfl, rfl⟩ := (append_cons_inj_right hw hw').1 hcut
  exact ⟨rfl, rfl⟩

/-- As the end is cut at the last two slashes, there is nothing more to take. -/
theorem plus_append (hends : ∀ b, rest b = true → Ends b) (hdots : ∀ c ∈ a ++ b, isDot c = true)
    (ha : a ≠ []) (hb : rest b = true) : plus rest (a ++ b) = some (a, b) := by
  obtain ⟨c, a, rfl⟩ := List.exists_cons_of_ne_nil ha
  obtain ⟨hc, hdots⟩ := List.forall_mem_cons.1 hdots
  obtain ⟨q, hq⟩ := exists_star (fun d hd => hdots d (List.mem_append_left _ hd)) hb
  have hplus : plus rest (c :: a ++ b) = some (c :: q.1, q.2) := by
    rw [List.cons_append, plus, if_pos hc, hq]
    rfl
  obtain ⟨hcut, -, hrest⟩ := plus_eq_some hplus
  obtain ⟨h₁, h₂⟩ := ends_unique (hends _ hb) (hends _ hrest) hcut
  rw [hplus, ← h₁, ← h₂]

theorem plus_eq_none (h : ∀ a b, l = a ++ b → a ≠ [] → rest b = false) : plus rest l = none := by
  rcases hp : plus rest l with _ | ⟨a, b⟩
  · rfl
  · obtain ⟨hl, ha, hb⟩ := plus_eq_some hp
    exact absurd hb (by rw [h a b hl ha]; decide)

variable {α : Type} {f : List Char → Option α} {x : α}

theorem isSome_ends (hends : ∀ b x, f b = some x → Ends b) (b : List Char)
    (h : (f b).isSome = true) : Ends b := by
  obtain ⟨x, hx⟩ := Option.isSome_iff_exists.1 h
  exact hends b x hx

theorem plus_isSome (hends : ∀ b x, f b = some x → Ends b) (hdots : ∀ c ∈ a ++ b, isDot c = true)
    (ha : a ≠ []) (hb : f b = some x) : plus (fun l => (f l).isSome) (a ++ b) = some (a, b) :=
  plus_append (isSome_ends hends) hdots ha (by rw [hb, Option.isSome_some])

/-- Where one end of an address is, no other is. -/
theorem plus_isSome_eq_none (hends : ∀ b x, f b = some x → Ends b) (hend : Ends b)
    (hb : f b = none) : plus (fun l => (f l).isSome) (a ++ b) = none := by
  refine plus_eq_none fun a' b' h _ => ?_
  by_contra hsome
  rw [Bool.not_eq_false] at hsome
  obtain ⟨-, rfl⟩ := ends_unique hend (isSome_ends hends b' hsome) h
  rw [hb] at hsome
  exact Bool.false_ne_true hsome

end Taking

/-! ## Paths -/

section Paths

variable {t a b m : List Char} {n : ℕ} {s : Editing}

/-- What the path of an editor begins with. -/
def Editing.start (s : Editing) : String := "/" ++ s.name ++ "/"

theorem inEditor_start : inEditor (s.start.toList ++ t) = some t := by
  rcases s with _ | _
  · have hafter : after "/packs/" (Editing.packs.start.toList ++ t) = some t := after_eq_some.2 rfl
    rw [inEditor, hafter, Option.some_or]
  · have hno : after "/packs/" (Editing.mypacks.start.toList ++ t) = none := rfl
    rw [inEditor, hno, Option.none_or]
    exact after_eq_some.2 rfl

theorem exists_start {l : List Char} (h : inEditor l = some t) :
    ∃ s : Editing, l = s.start.toList ++ t := by
  obtain h | ⟨-, h⟩ := Option.or_eq_some_iff.1 h
  · exact ⟨.packs, after_eq_some.1 h⟩
  · exact ⟨.mypacks, after_eq_some.1 h⟩

theorem after_mod_start : after "/mod/" (s.start.toList ++ t) = none := by
  rcases s with _ | _ <;> rfl

theorem threadEnd_start : threadEnd (s.start.toList ++ t) = none := by
  rcases s with _ | _ <;> rfl

/-- The path of an editor is parsed by what it has after its beginning. -/
theorem modFromPath_start : modFromPath (ofList (s.start.toList ++ t)) = .ok none := by
  rw [modFromPath, toList_ofList, after_mod_start]
  rfl

theorem commitEnd_ne_threadEnd (h : commitEnd b = some m) : threadEnd b = none := by
  obtain ⟨rfl, -⟩ := commitEnd_eq_some.1 h
  rfl

theorem threadEnd_ne_commitEnd (h : threadEnd b = some n) : commitEnd b = none := by
  obtain ⟨d, rfl, -⟩ := threadEnd_eq_some.1 h
  rfl

theorem ends_of_isSome (b : List Char)
    (h : ((commitEnd b).isSome || (threadEnd b).isSome) = true) : Ends b := by
  obtain h | h := Bool.or_eq_true_iff.1 h
  · exact isSome_ends (fun _ _ => ends_of_commitEnd) b h
  · exact isSome_ends (fun _ _ => ends_of_threadEnd) b h

/-- What is read of the path of an editor. -/
structure Read (path : String) (pack commit : Option (List Char)) (thread : Option ℕ) : Prop where
  mod : modFromPath path = .ok none
  pack : packFromPath path = readTaken pack
  commit : commitFromPath path = readTaken commit
  thread : threadFromPath path = thread.map toNumber

theorem read_commit (hdots : ∀ c ∈ a ++ b, isDot c = true) (ha : a ≠ [])
    (hb : commitEnd b = some m) :
    Read (ofList (s.start.toList ++ (a ++ b))) (some a) (some m) none where
  mod := modFromPath_start
  pack := by
    rw [packFromPath, toList_ofList, inEditor_start, Option.bind_some,
      plus_append ends_of_isSome hdots ha (by rw [hb]; rfl)]
  commit := by
    rw [commitFromPath, toList_ofList, inEditor_start, Option.bind_some,
      plus_isSome (fun _ _ => ends_of_commitEnd) hdots ha hb, Option.bind_some, hb]
  thread := by
    rw [threadFromPath, toList_ofList, inEditor_start, Option.bind_some, threadEnd_start,
      plus_isSome_eq_none (fun _ _ => ends_of_threadEnd) (ends_of_commitEnd hb)
        (commitEnd_ne_threadEnd hb)]
    rfl

theorem read_thread (hdots : ∀ c ∈ a ++ b, isDot c = true) (ha : a ≠ [])
    (hb : threadEnd b = some n) :
    Read (ofList (s.start.toList ++ (a ++ b))) (some a) none (some n) where
  mod := modFromPath_start
  pack := by
    rw [packFromPath, toList_ofList, inEditor_start, Option.bind_some,
      plus_append ends_of_isSome hdots ha (by rw [hb, Option.isSome_some, Bool.or_true])]
  commit := by
    rw [commitFromPath, toList_ofList, inEditor_start, Option.bind_some,
      plus_isSome_eq_none (fun _ _ => ends_of_commitEnd) (ends_of_threadEnd hb)
        (threadEnd_ne_commitEnd hb)]
    rfl
  thread := by
    rw [threadFromPath, toList_ofList, inEditor_start, Option.bind_some,
      plus_isSome (fun _ _ => ends_of_threadEnd) hdots ha hb, Option.bind_some, hb, Option.some_or]

theorem read_pack (hplain : ∀ a b, t = a ++ b → a ≠ [] → commitEnd b = none ∧ threadEnd b = none) :
    Read (ofList (s.start.toList ++ t)) (line t) none none where
  mod := modFromPath_start
  pack := by
    rw [packFromPath, toList_ofList, inEditor_start, Option.bind_some, plus_eq_none]
    · rfl
    · intro a b ht ha
      rw [(hplain a b ht ha).1, (hplain a b ht ha).2]
      rfl
  commit := by
    rw [commitFromPath, toList_ofList, inEditor_start, Option.bind_some, plus_eq_none]
    · rfl
    · intro a b ht ha
      rw [(hplain a b ht ha).1]
      rfl
  thread := by
    rw [threadFromPath, toList_ofList, inEditor_start, Option.bind_some, plus_eq_none,
      threadEnd_start]
    · rfl
    · intro a b ht ha
      rw [(hplain a b ht ha).2]
      rfl

end Paths

/-! ## What addresses give back -/

section Addresses

variable {id : String} {a m : List Char} {s : Editing}

theorem readTaken_of_decode {t : String} (h : decodeURIComponent (ofList m) = some t) :
    readTaken (some m) = .ok (some t) := by
  rw [readTaken, h]

theorem isDot_encode (t : String) : ∀ c ∈ (encodeURIComponent t).toList, isDot c = true := by
  intro c hc
  by_contra hdot
  -- what ends a line is escaped, and in no escape
  have hends : lineEnds.all (fun e => !unescaped e && e ≠ '%' &&
      (List.range 16).all fun n => hexDigit n ≠ e) = true := by decide
  have hend := List.all_eq_true.1 hends c (mem_lineEnds hdot)
  simp only [Bool.and_eq_true, decide_eq_true_eq, List.all_eq_true, List.mem_range] at hend
  exact not_mem_percentEncode hend.1.1 hend.1.2 hend.2 t hc

/-- What was escaped is taken, and read as it was. -/
theorem readTaken_encode {t : String} (h : t ≠ "") :
    (encodeURIComponent t).toList ≠ [] ∧
      readTaken (some (encodeURIComponent t).toList) = .ok (some t) := by
  have hdecode : decodeURIComponent (ofList (encodeURIComponent t).toList) = some t := by
    rw [ofList_toList, decodeURIComponent_encodeURIComponent]
  refine ⟨fun hnil => ?_, readTaken_of_decode hdecode⟩
  rw [hnil] at hdecode
  exact h (Option.some.inj hdecode).symm

theorem slash_not_mem_encode (t : String) : '/' ∉ (encodeURIComponent t).toList :=
  slash_not_mem_percentEncode (by decide) t

/-- A letter of a safe id. -/
def isIdLetter (c : Char) : Bool := c.isAlphanum || ['-', '_', '.', '/'].contains c

theorem isIdLetter_of_isFlatId {t : String} (h : isFlatId t = true) :
    ∀ c ∈ t.toList, isIdLetter c = true := by
  intro c hc
  obtain ⟨-, -, -, hall⟩ := of_decide_eq_true h
  obtain hc | rfl | rfl | rfl := of_decide_eq_true (List.all_eq_true.1 hall c hc)
  · rw [isIdLetter, hc, Bool.true_or]
  all_goals rfl

/-- A safe id is one segment, or names an account and a segment. -/
theorem cases_of_isSafeId (h : isSafeId id = true) :
    (∀ c ∈ id.toList, isIdLetter c = true) ∧ ('/' ∉ id.toList ∨
      ∃ (d : Char) (uid pack : List Char), d.isDigit = true ∧ '/' ∉ d :: uid ∧ '/' ∉ pack ∧
        id.toList = 'u' :: '/' :: (d :: uid ++ '/' :: pack)) := by
  rw [isSafeId] at h
  split at h
  · rename_i rest hid
    obtain ⟨hmem, hne, hdigits, hflat⟩ := of_decide_eq_true h
    obtain ⟨uid, pack, rfl, huid, htake⟩ := Layout.exists_of_mem hmem
    rw [htake] at hne hdigits hflat
    have hdrop : (uid ++ '/' :: pack).drop (uid.length + 1) = pack := by
      rw [← List.drop_drop, List.drop_left]
      rfl
    rw [hdrop] at hflat
    have hpack := isIdLetter_of_isFlatId hflat
    have hslash := (Layout.plain_of_isFlatId hflat).2
    rw [toList_ofList] at hpack hslash
    have hdigit : ∀ c ∈ uid, c.isDigit = true := List.all_eq_true.1 hdigits
    refine ⟨?_, ?_⟩
    · rw [hid, List.forall_mem_cons, List.forall_mem_cons, List.forall_mem_append,
        List.forall_mem_cons]
      refine ⟨by decide, by decide, fun c hc => ?_, by decide, hpack⟩
      rw [isIdLetter, Char.isAlphanum, hdigit c hc, Bool.or_true, Bool.true_or]
    · obtain ⟨d, uid, rfl⟩ := List.exists_cons_of_ne_nil hne
      exact .inr ⟨d, uid, pack, hdigit d List.mem_cons_self, huid, hslash, hid⟩
  · have hflat := (of_decide_eq_true h).2
    exact ⟨isIdLetter_of_isFlatId hflat, .inl (Layout.plain_of_isFlatId hflat).2⟩

theorem ne_empty_of_isSafeId (h : isSafeId id = true) : id ≠ "" := by
  rintro rfl
  exact absurd h (by decide +kernel)

/-- In the place of an id stands what is read as it. -/
structure Spells (a : List Char) (id : String) : Prop where
  reads : readTaken (some a) = .ok (some id)
  ne_nil : a ≠ []
  dots : ∀ c ∈ a, isDot c = true
  plain : ∀ b b', a = b ++ b' → commitEnd b' = none ∧ threadEnd b' = none

theorem slash_of_commitEnd {b : List Char} (h : commitEnd b ≠ none) : '/' ∈ b := by
  obtain ⟨m, hm⟩ := Option.ne_none_iff_exists'.1 h
  rw [(commitEnd_eq_some.1 hm).1]
  exact List.mem_append_left _ (by decide)

theorem slash_of_threadEnd {b : List Char} (h : threadEnd b ≠ none) : '/' ∈ b := by
  obtain ⟨n, hn⟩ := Option.ne_none_iff_exists'.1 h
  obtain ⟨d, rfl, -⟩ := threadEnd_eq_some.1 hn
  exact List.mem_append_left _ (by decide)

/-- Where there is no slash, there is no end of an address. -/
theorem plain_of_not_mem (h : '/' ∉ a) (b b' : List Char) (hb : a = b ++ b') :
    commitEnd b' = none ∧ threadEnd b' = none := by
  have hb' : '/' ∉ b' := fun hmem => h (by rw [hb]; exact List.mem_append_right _ hmem)
  constructor
  · by_contra hne
    exact hb' (slash_of_commitEnd hne)
  · by_contra hne
    exact hb' (slash_of_threadEnd hne)

theorem spells_encode (h : isSafeId id = true) : Spells (encodeURIComponent id).toList id :=
  have hread := readTaken_encode (ne_empty_of_isSafeId h)
  ⟨hread.2, hread.1, isDot_encode id, plain_of_not_mem (slash_not_mem_encode id)⟩

/-- The segment before the last one of an id is the number of an account, which is no word. -/
theorem plain_of_isSafeId (h : isSafeId id = true) (b b' : List Char) (hb : id.toList = b ++ b') :
    commitEnd b' = none ∧ threadEnd b' = none := by
  obtain hslash | ⟨d, uid, pack, hd, huid, hpack, hid⟩ := (cases_of_isSafeId h).2
  · exact plain_of_not_mem hslash b b' hb
  have hends : Ends ('/' :: (d :: uid ++ '/' :: pack)) := ⟨d :: uid, pack, rfl, huid, hpack⟩
  have hcut : ['u'] ++ '/' :: (d :: uid ++ '/' :: pack) = b ++ b' := hid.symm.trans hb
  constructor
  · by_contra hne
    obtain ⟨m, hm⟩ := Option.ne_none_iff_exists'.1 hne
    obtain ⟨-, rfl⟩ := ends_unique hends (ends_of_commitEnd hm) hcut
    have hword := (commitEnd_eq_some.1 hm).1
    rw [(List.cons.inj (List.cons.inj hword).2).1] at hd
    exact absurd hd (by decide)
  · by_contra hne
    obtain ⟨n, hn⟩ := Option.ne_none_iff_exists'.1 hne
    obtain ⟨-, rfl⟩ := ends_unique hends (ends_of_threadEnd hn) hcut
    obtain ⟨e, hword, -⟩ := threadEnd_eq_some.1 hn
    rw [(List.cons.inj (List.cons.inj hword).2).1] at hd
    exact absurd hd (by decide)

theorem spells_older (h : isSafeId id = true) : Spells id.toList id := by
  have hletters := (cases_of_isSafeId h).1
  refine ⟨?_, ?_, ?_, plain_of_isSafeId h⟩
  · refine readTaken_of_decode ?_
    rw [ofList_toList]
    exact decodeURIComponent_of_not_mem fun hmem => absurd (hletters _ hmem) (by decide)
  · exact fun hnil => ne_empty_of_isSafeId h (String.toList_eq_nil_iff.1 hnil)
  · exact fun c hc => isDot_of (by decide) (hletters c hc)

theorem parsed_pack (h : Spells a id) :
    Parsed (ofList (s.start.toList ++ a)) { pack := some id } := by
  have hread := read_pack (s := s) fun b b' hb _ => h.plain b b' hb
  rw [line_eq_some.2 ⟨rfl, h.ne_nil, h.dots⟩] at hread
  exact ⟨hread.mod, hread.pack.trans h.reads, hread.commit, hread.thread⟩

theorem parsed_commit (h : Spells a id) {commitId : String} (hne : commitId ≠ "") :
    Parsed (ofList (s.start.toList ++
        (a ++ ("/commit/".toList ++ (encodeURIComponent commitId).toList))))
      { pack := some id, commit := some commitId } := by
  obtain ⟨hnil, hreads⟩ := readTaken_encode hne
  have hdots : ∀ c ∈ a ++ ("/commit/".toList ++ (encodeURIComponent commitId).toList),
      isDot c = true := by
    rw [List.forall_mem_append, List.forall_mem_append]
    exact ⟨h.dots, List.all_eq_true.1 rfl, isDot_encode commitId⟩
  have hread := read_commit (s := s) hdots h.ne_nil
    (commitEnd_eq_some.2 ⟨rfl, hnil, slash_not_mem_encode commitId⟩)
  exact ⟨hread.mod, hread.pack.trans h.reads,
    hread.commit.trans hreads, hread.thread⟩

theorem parsed_thread (h : Spells a id) (n : ThreadNumber) :
    Parsed (ofList (s.start.toList ++ (a ++ ("/thread/".toList ++ n.text.toList))))
      { pack := some id, thread := some n.value } := by
  obtain ⟨k, hk, hvalue⟩ := Option.map_eq_some_iff.1 n.reads
  have hdigits := hk
  rw [decimal, Option.ite_none_right_eq_some] at hdigits
  have hdots : ∀ c ∈ a ++ ("/thread/".toList ++ n.text.toList), isDot c = true := by
    rw [List.forall_mem_append, List.forall_mem_append]
    exact ⟨h.dots, List.all_eq_true.1 rfl, fun c hc =>
      isDot_of (by decide) (List.all_eq_true.1 hdigits.1.2 c hc)⟩
  have hread := read_thread (s := s) hdots h.ne_nil (threadEnd_eq_some.2 ⟨_, rfl, hk⟩)
  refine ⟨hread.mod, hread.pack.trans h.reads, hread.commit, ?_⟩
  rw [hread.thread, Option.map_some, hvalue]

/-- The path of a mod, or of a thread without an editor, is none of an editor. -/
theorem parsed_mod {ref : String} (hne : ref ≠ "") :
    Parsed (href.mod ref) { mod := some ref } := by
  obtain ⟨hnil, hreads⟩ := readTaken_encode hne
  have hpath : (href.mod ref).toList = "/mod/".toList ++ (encodeURIComponent ref).toList :=
    String.toList_append
  have hno : inEditor (href.mod ref).toList = none := by rw [hpath]; rfl
  have hnoThread : threadEnd (href.mod ref).toList = none := by rw [hpath]; rfl
  refine ⟨?_, ?_, ?_, ?_⟩
  · rw [modFromPath, after_eq_some.2 hpath, Option.bind_some,
      line_eq_some.2 ⟨rfl, hnil, isDot_encode ref⟩, hreads]
  · rw [packFromPath, hno]
    rfl
  · rw [commitFromPath, hno]
    rfl
  · rw [threadFromPath, hno, hnoThread]
    rfl

theorem parsed_discussion (n : ThreadNumber) :
    Parsed (href.discussion n) { thread := some n.value } := by
  obtain ⟨k, hk, hvalue⟩ := Option.map_eq_some_iff.1 n.reads
  have hpath : (href.discussion n).toList = "/thread/".toList ++ n.text.toList :=
    String.toList_append
  have hno : inEditor (href.discussion n).toList = none := by rw [hpath]; rfl
  refine ⟨?_, ?_, ?_, ?_⟩
  · rw [modFromPath, hpath]
    rfl
  · rw [packFromPath, hno]
    rfl
  · rw [commitFromPath, hno]
    rfl
  · rw [threadFromPath, hno, threadEnd_eq_some.2 ⟨_, hpath, hk⟩]
    exact congrArg some hvalue

/-- An address gives back what it was built of. -/
theorem parsed_of_named (x : Address) (h : x.Named) : Parsed x.path x.parts := by
  have hpath {p : String} {l : List Char} (hp : p.toList = l) : p = ofList l := by
    rw [← hp, ofList_toList]
  rcases x with ref | ⟨id, s, _ | _⟩ | ⟨id, commitId, s, _ | _⟩ | ⟨id, n, s, _ | _⟩ | n
  · exact parsed_mod h
  · rw [hpath (p := Address.path _)]
    · exact parsed_pack (s := s) (spells_encode id.2)
    · simp [Address.path, href.pack, Editing.start]
  · rw [hpath (p := Address.path _)]
    · exact parsed_pack (s := s) (spells_older id.2)
    · simp [Address.path, Editing.start]
  · rw [hpath (p := Address.path _)]
    · exact parsed_commit (s := s) (spells_encode id.2) h
    · simp [Address.path, href.commit, Editing.start]
  · rw [hpath (p := Address.path _)]
    · exact parsed_commit (s := s) (spells_older id.2) h
    · simp [Address.path, Editing.start]
  · rw [hpath (p := Address.path _)]
    · exact parsed_thread (s := s) (spells_encode id.2) n
    · simp [Address.path, href.thread, Editing.start]
  · rw [hpath (p := Address.path _)]
    · exact parsed_thread (s := s) (spells_older id.2) n
    · simp [Address.path, Editing.start]
  · exact parsed_discussion n

/-- Without the name of the commit the pattern does not match. -/
theorem commitFromPath_nil : commitFromPath (ofList (s.start.toList ++ (a ++ "/commit/".toList))) =
    .ok none := by
  have hends : Ends "/commit/".toList :=
    ⟨"commit".toList, [], rfl, by decide, List.not_mem_nil⟩
  rw [commitFromPath, toList_ofList, inEditor_start, Option.bind_some,
    plus_isSome_eq_none (fun _ _ => ends_of_commitEnd) hends rfl]
  rfl

/-- An address gives back what it was built of if it names something. -/
theorem parsed_iff (x : Address) : Parsed x.path x.parts ↔ x.Named := by
  refine ⟨fun h => ?_, parsed_of_named x⟩
  rcases x with ref | ⟨id, s, older⟩ | ⟨id, commitId, s, older⟩ | ⟨id, n, s, older⟩ | n
  · rintro rfl
    have hnone : modFromPath (href.mod "") = .ok none := rfl
    exact absurd (Except.ok.inj (hnone.symm.trans h.mod)).symm (Option.some_ne_none _)
  · trivial
  · rintro rfl
    have hcommit := h.commit
    obtain ⟨a, ha⟩ : ∃ a, (Address.commit id "" s older).path =
        ofList (s.start.toList ++ (a ++ "/commit/".toList)) := by
      rcases older with _ | _
      · exact ⟨(encodeURIComponent id.1).toList, by
          rw [← String.toList_inj, toList_ofList]
          simp [Address.path, href.commit, Editing.start]
          rfl⟩
      · exact ⟨id.1.toList, by
          rw [← String.toList_inj, toList_ofList]
          simp [Address.path, Editing.start]
          rfl⟩
    rw [ha, commitFromPath_nil] at hcommit
    exact absurd (Except.ok.inj hcommit).symm (Option.some_ne_none _)
  · trivial
  · trivial

end Addresses

/-! ## Which paths are parsed -/

section Returns

variable {m : Option (List Char)} {t a b : List Char} {path : String}

theorem exists_readTaken : (∃ r, readTaken m = .ok r) ↔ ∀ l, m = some l → WellEncoded l := by
  rcases m with _ | l
  · exact ⟨fun _ l hl => absurd hl.symm (Option.some_ne_none l), fun _ => ⟨none, rfl⟩⟩
  · have hread : (∃ r, readTaken (some l) = .ok r) ↔
        ∃ s, decodeURIComponent (ofList l) = some s := by
      rw [readTaken]
      rcases decodeURIComponent (ofList l) with _ | s
      · constructor
        · rintro ⟨r, hr⟩
          cases hr
        · rintro ⟨s, hs⟩
          cases hs
      · exact ⟨fun _ => ⟨s, rfl⟩, fun _ => ⟨some s, rfl⟩⟩
    rw [hread, exists_decodeURIComponent, toList_ofList]
    simp only [Option.some.injEq, forall_eq']

/-- The path of an editor is parsed if what is read of it can be. -/
theorem returns_of_read {pack commit : Option (List Char)} {thread : Option ℕ}
    (h : Read path pack commit thread) : (∃ parts, Parsed path parts) ↔
      (∀ l, pack = some l → WellEncoded l) ∧ ∀ l, commit = some l → WellEncoded l := by
  rw [← exists_readTaken, ← exists_readTaken]
  constructor
  · rintro ⟨parts, hp⟩
    exact ⟨⟨_, h.pack.symm.trans hp.pack⟩, _, h.commit.symm.trans hp.commit⟩
  · rintro ⟨⟨p, hp⟩, c, hc⟩
    exact ⟨⟨none, p, c, thread.map toNumber⟩, h.mod, h.pack.trans hp, h.commit.trans hc, h.thread⟩

theorem wellEncoded_end {w l : List Char} (hw : '%' ∉ w) :
    WellEncoded (a ++ '/' :: (w ++ '/' :: l)) ↔ WellEncoded a ∧ WellEncoded l := by
  rw [wellEncoded_append_slash_iff, wellEncoded_append_slash_iff]
  exact and_congr_right fun _ => and_iff_right (wellEncoded_of_not_mem hw)

/-- What is not taken is empty. -/
theorem wellEncoded_line (hdots : ∀ c ∈ t, isDot c = true) :
    (∀ l, line t = some l → WellEncoded l) ↔ WellEncoded t := by
  simp only [line_eq_some]
  refine ⟨fun h => ?_, fun h l hl => by rwa [hl.1]⟩
  by_cases hnil : t = []
  · rw [hnil]
    exact wellEncoded_of_not_mem List.not_mem_nil
  · exact h t ⟨rfl, hnil, hdots⟩

theorem returns_start {s : Editing} (hdots : ∀ c ∈ t, isDot c = true) :
    (∃ parts, Parsed (ofList (s.start.toList ++ t)) parts) ↔ WellEncoded t := by
  by_cases hc : ∃ a b, t = a ++ b ∧ a ≠ [] ∧ commitEnd b ≠ none
  · obtain ⟨a, b, rfl, ha, hb⟩ := hc
    obtain ⟨m, hm⟩ := Option.ne_none_iff_exists'.1 hb
    rw [returns_of_read (read_commit hdots ha hm)]
    obtain ⟨rfl, -⟩ := commitEnd_eq_some.1 hm
    have hcut : a ++ ("/commit/".toList ++ m) = a ++ '/' :: ("commit".toList ++ '/' :: m) := rfl
    rw [hcut, wellEncoded_end (by decide)]
    simp only [Option.some.injEq, forall_eq']
  by_cases ht : ∃ a b, t = a ++ b ∧ a ≠ [] ∧ threadEnd b ≠ none
  · obtain ⟨a, b, rfl, ha, hb⟩ := ht
    obtain ⟨n, hn⟩ := Option.ne_none_iff_exists'.1 hb
    rw [returns_of_read (read_thread hdots ha hn)]
    obtain ⟨d, rfl, hd⟩ := threadEnd_eq_some.1 hn
    rw [decimal, Option.ite_none_right_eq_some] at hd
    have hcut : a ++ ("/thread/".toList ++ d) = a ++ '/' :: ("thread".toList ++ '/' :: d) := rfl
    have hdigits : WellEncoded d := wellEncoded_of_not_mem fun hmem =>
      absurd (List.all_eq_true.1 hd.1.2 _ hmem) (by decide)
    rw [hcut, wellEncoded_end (by decide)]
    simp only [Option.some.injEq, forall_eq', hdigits, reduceCtorEq, false_implies, implies_true]
  · have hplain (a b : List Char) (h : t = a ++ b) (ha : a ≠ []) :
        commitEnd b = none ∧ threadEnd b = none := by
      constructor
      · by_contra hne
        exact hc ⟨a, b, h, ha, hne⟩
      · by_contra hne
        exact ht ⟨a, b, h, ha, hne⟩
    rw [returns_of_read (read_pack hplain), wellEncoded_line hdots]
    simp only [reduceCtorEq, false_implies, implies_true, and_true]

theorem inEditor_eq_some {l : List Char} :
    inEditor l = some t ↔ after "/packs/" l = some t ∨ after "/mypacks/" l = some t := by
  constructor
  · intro h
    obtain ⟨s, rfl⟩ := exists_start h
    rcases s with _ | _
    · exact .inl (after_eq_some.2 rfl)
    · exact .inr (after_eq_some.2 rfl)
  · rintro (h | h)
    · rw [after_eq_some.1 h]
      exact inEditor_start (s := .packs)
    · rw [after_eq_some.1 h]
      exact inEditor_start (s := .mypacks)

theorem isDot_of_visible (p : Pathname) : ∀ c ∈ p.text.toList, isDot c = true := fun c hc =>
  isDot_of (f := fun c => 32 < c.toNat ∧ c.toNat < 127) (by decide)
    (decide_eq_true (p.visible c hc))

/-- The four parsers return on a path exactly if what they may read of it is escaped well. -/
theorem returns_iff (p : Pathname) : (∃ parts, Parsed p.text parts) ↔ WellEscaped p.text := by
  have hdots := isDot_of_visible p
  have hescaped : WellEscaped p.text ↔ (∀ m, inEditor p.text.toList = some m → WellEncoded m) ∧
      ∀ m, after "/mod/" p.text.toList = some m → WellEncoded m := by
    simp only [WellEscaped, List.forall_mem_cons, List.not_mem_nil, false_implies, implies_true,
      and_true, inEditor_eq_some, or_imp, forall_and, and_assoc]
  rw [hescaped]
  rcases hin : inEditor p.text.toList with _ | t
  · -- outside of the editors only the name of a mod is read
    have hrest (r : Option String) (hr : modFromPath p.text = .ok r) :
        Parsed p.text ⟨r, none, none, (threadEnd p.text.toList).map toNumber⟩ := by
      refine ⟨hr, ?_, ?_, ?_⟩
      · rw [packFromPath, hin]
        rfl
      · rw [commitFromPath, hin]
        rfl
      · rw [threadFromPath, hin]
        rfl
    have hmod : (∃ parts, Parsed p.text parts) ↔ ∃ r, modFromPath p.text = .ok r :=
      ⟨fun h => ⟨_, h.choose_spec.mod⟩, fun h => ⟨_, hrest _ h.choose_spec⟩⟩
    rw [hmod, modFromPath, exists_readTaken]
    rcases ha : after "/mod/" p.text.toList with _ | m
    · simp only [Option.bind_none, reduceCtorEq, false_implies, implies_true, and_self]
    · rw [after_eq_some.1 ha] at hdots
      rw [Option.bind_some, wellEncoded_line fun c hc => hdots c (List.mem_append_right _ hc)]
      simp only [Option.some.injEq, forall_eq', reduceCtorEq, false_implies, implies_true, true_and]
  · obtain ⟨s, hs⟩ := exists_start hin
    have hp : p.text = ofList (s.start.toList ++ t) := by rw [← hs, ofList_toList]
    rw [hs] at hdots
    rw [hp, returns_start (fun c hc => hdots c (List.mem_append_right _ hc)), toList_ofList,
      after_mod_start]
    simp only [Option.some.injEq, forall_eq', reduceCtorEq, false_implies, implies_true, and_true]

end Returns

/-- The addresses of the panel give back what they were built of, and every path is parsed, exactly
as far as what they name has a name, and what is read of a path is escaped well. -/
theorem addresses_iff (x : Address) (p : Pathname) :
    (Parsed x.path x.parts ↔ x.Named) ∧ ((∃ parts, Parsed p.text parts) ↔ WellEscaped p.text) :=
  ⟨parsed_iff x, returns_iff p⟩

/-- A percent sign that escapes nothing is the end of the panel. -/
theorem not_parsed_stray_percent :
    ¬ ∀ p : Pathname, ∃ parts, Parsed p.text parts := by
  intro h
  have hvisible : "/packs/%".toList.all (fun c => 32 < c.toNat ∧ c.toNat < 127) = true := by decide
  obtain ⟨parts, hp⟩ := h ⟨"/packs/%", fun c hc =>
    of_decide_eq_true (List.all_eq_true.1 hvisible c hc)⟩
  have herror : packFromPath "/packs/%" = .error () := rfl
  cases herror.symm.trans hp.pack

end Route

end Smrt
