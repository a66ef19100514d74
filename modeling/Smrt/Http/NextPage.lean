import Smrt.Http.Cursor
import Smrt.Lib.Lossy
import Smrt.Web.Validate

/-!
# The address of the next page

A page of a listing names the next one in a `Link` header: the address of the request, with the
cursor moved on and every other parameter carried over as it is (`link`). A header holds visible
letters only (`nextLink`); where the panel reads the address again, it splits the header at its
commas (`nextPageUrl`), although a comma may be in an address.

* `next_iff`: the address is found, and has the parameters of the request and the cursor, exactly if
  what is carried over is visible, has no comma in it, and is no cursor under another spelling;
* `walks_iff`: from page to page, through any cursors, exactly then.
-/

namespace Smrt

namespace NextPage

open String

/-! ## Addresses -/

/-- The path of a request and its query, if it has one. -/
structure Uri where
  path : List Char
  query : Option (List Char)

/-- The letters that are accepted in an address: no blanks, and none of `<`, `>` and `#`. -/
structure Uri.Accepted (uri : Uri) : Prop where
  path : ∀ c ∈ uri.path, 32 < c.toNat ∧ c ≠ '<' ∧ c ≠ '>' ∧ c ≠ '#' ∧ c ≠ '?'
  query : ∀ q, uri.query = some q → ∀ c ∈ q, 32 < c.toNat ∧ c ≠ '<' ∧ c ≠ '>' ∧ c ≠ '#'

/-- The parameters that the next address has, too. -/
def carried (uri : Uri) : List (List Char) :=
  (pieces ['&'] 0 [] (uri.query.getD [])).filter fun p => p ≠ [] ∧ ¬ "after=".toList <+: p

def link (uri : Uri) (cursor : String) : List Char :=
  uri.path ++ '?' :: ['&'].intercalate (carried uri ++ ["after=".toList ++ cursor.toList])

/-- A header is made of visible letters of one byte, and tabs. -/
def headerValue (value : List Char) : Option (List Char) :=
  if value.all fun c => (32 ≤ c.toNat ∧ c.toNat < 127) ∨ c = '\t' then some value else none

def nextLink (uri : Uri) (cursor : Option String) : Option (List Char) :=
  cursor.bind fun cursor => headerValue ('<' :: (link uri cursor ++ ">; rel=\"next\"".toList))

/-! ## Reading the header -/

/-- What follows a letter. -/
def expect (c : Char) : List Char → Option (List Char)
  | d :: l => if d = c then some l else none
  | [] => none

/-- What follows a quotation mark that may be there. -/
def skipQuote : List Char → List Char
  | '"' :: l => l
  | l => l

/-- `\s*` -/
def skipBlanks (l : List Char) : List Char := l.dropWhile Validate.jsBlank

/-- `\s*;\s*rel\s*=\s*"?next"?\s*$` -/
def isNext (l : List Char) : Bool :=
  let rel := do
    let l ← expect ';' (skipBlanks l)
    let l ← expect 'r' (skipBlanks l)
    let l ← expect 'e' l
    let l ← expect 'l' l
    let l ← expect '=' (skipBlanks l)
    let l ← expect 'n' (skipQuote (skipBlanks l))
    let l ← expect 'e' l
    let l ← expect 'x' l
    expect 't' l
  rel.any fun l => skipBlanks (skipQuote l) = []

/-- `^\s*<([^>]+)>` and what makes it the next one. -/
def matchNext (part : List Char) : Option (List Char) := do
  let l ← expect '<' (skipBlanks part)
  let rest ← expect '>' (l.dropWhile fun c => c ≠ '>')
  let address := l.takeWhile fun c => c ≠ '>'
  if address ≠ [] ∧ isNext rest then some address else none

/-- The address of the next page in a header. -/
def nextPageUrl (link : Option (List Char)) : Option (List Char) :=
  link.bind fun link => if link = [] then none else (pieces [','] 0 [] link).findSome? matchNext

/-! ## Parameters -/

/-- A key and a value, as they are read. -/
def param (p : List Char) : String × String :=
  let key := p.takeWhile fun c => c ≠ '='
  let decoded (l : List Char) := PageQuery.formDecode fromUtf8Lossy (ofList l)
  (decoded key, decoded (p.drop (key.length + 1)))

def params (uri : Uri) : List (String × String) :=
  ((pieces ['&'] 0 [] (uri.query.getD [])).filter fun p => p ≠ []).map param

def others (uri : Uri) : List (String × String) := (params uri).filter fun p => p.1 ≠ "after"

def afters (uri : Uri) : List String :=
  ((params uri).filter fun p => p.1 = "after").map Prod.snd

/-- The request that an address makes. -/
def Uri.ofAddress (address : List Char) : Uri where
  path := address.takeWhile fun c => c ≠ '?'
  query := some (address.drop ((address.takeWhile fun c => c ≠ '?').length + 1))

/-- A cursor that names a row. -/
def cursorOf (parts : List String) : String := PageQuery.encode PageQuery.urlSafeNoPad parts

/-- The request for the next page, as the panel makes it. -/
def follow (uri : Uri) (parts : List String) : Option Uri :=
  (nextPageUrl (nextLink uri (some (cursorOf parts)))).map Uri.ofAddress

/-! ## What is asked for -/

/-- What is carried over to the next address is visible, no end of a part of a header, and no
cursor. -/
structure Clean (uri : Uri) : Prop where
  path : ∀ c ∈ uri.path, c.toNat < 127 ∧ c ≠ ','
  carried : ∀ p ∈ carried uri, ∀ c ∈ p, c.toNat < 127 ∧ c ≠ ','
  keys : ∀ p ∈ NextPage.carried uri, (param p).1 ≠ "after"

/-- A request for the same listing, after a row. -/
structure SameAfter (uri next : Uri) (parts : List String) : Prop where
  path : next.path = uri.path
  others : others next = others uri
  afters : afters next = [cursorOf parts]

/-- The address of the next page is read as it was written, and asks for the same listing. -/
def Next (uri : Uri) (parts : List String) : Prop :=
  nextPageUrl (nextLink uri (some (cursorOf parts))) = some (link uri (cursorOf parts)) ∧
    SameAfter uri (Uri.ofAddress (link uri (cursorOf parts))) parts

/-- Page after page is found, of the same listing. -/
def Walks (uri : Uri) : List (List String) → Prop
  | [] => True
  | parts :: l => ∃ next, follow uri parts = some next ∧ SameAfter uri next parts ∧ Walks next l

/-! ## The header -/

section Header

variable {a l m r : List Char} {c : Char}

theorem expect_eq_some : expect c l = some r ↔ l = c :: r := by
  rcases l with _ | ⟨d, l⟩
  · simp [expect]
  · by_cases hd : d = c <;> simp [expect, hd]

/-- What matches is between a `<` and a `>`. -/
theorem mem_of_matchNext (h : matchNext l = some m) : '<' ∈ l ∧ '>' ∈ l := by
  rw [matchNext] at h
  simp only [Option.bind_eq_bind, Option.bind_eq_some_iff, expect_eq_some] at h
  obtain ⟨l', hl, rest, hrest, -⟩ := h
  have hsub : '<' :: l' ⊆ l := by
    rw [← hl]
    exact (List.dropWhile_sublist _).subset
  refine ⟨hsub List.mem_cons_self, hsub (List.mem_cons_of_mem _ ?_)⟩
  have hmem : '>' ∈ l'.dropWhile fun c => c ≠ '>' := by rw [hrest]; exact List.mem_cons_self
  exact (List.dropWhile_sublist _).subset hmem

theorem matchNext_header (hne : a ≠ []) (hgt : '>' ∉ a) :
    matchNext ('<' :: (a ++ ">; rel=\"next\"".toList)) = some a := by
  have hall : ∀ c ∈ a, decide (c ≠ '>') = true := fun c hc =>
    decide_eq_true fun he => hgt (he ▸ hc)
  have htake : (a ++ ">; rel=\"next\"".toList).takeWhile (fun c => c ≠ '>') = a := by
    rw [List.takeWhile_append_of_pos hall]
    exact List.append_nil a
  have hdrop : (a ++ ">; rel=\"next\"".toList).dropWhile (fun c => c ≠ '>') =
      ">; rel=\"next\"".toList := by
    rw [List.dropWhile_append_of_pos hall]
    rfl
  have hstart : expect '<' (skipBlanks ('<' :: (a ++ ">; rel=\"next\"".toList))) =
      some (a ++ ">; rel=\"next\"".toList) := rfl
  have hend : expect '>' ">; rel=\"next\"".toList = some "; rel=\"next\"".toList := rfl
  rw [matchNext, hstart, Option.bind_eq_bind, Option.bind_some, hdrop, hend, Option.bind_some,
    htake]
  exact if_pos ⟨hne, by decide⟩

/-- The address that a header was made of is read, if there is no comma in it. -/
theorem nextPageUrl_header (hne : a ≠ []) (hlt : '<' ∉ a) (hgt : '>' ∉ a) :
    nextPageUrl (some ('<' :: (a ++ ">; rel=\"next\"".toList))) =
      if ',' ∈ a then none else some a := by
  rw [nextPageUrl, Option.bind_some, if_neg (List.cons_ne_nil _ _)]
  split_ifs with hcomma
  · -- before the comma there is no `>`, and after it no `<`
    obtain ⟨x, y, rfl⟩ := List.append_of_mem hcomma
    have hsplit : '<' :: (x ++ ',' :: y ++ ">; rel=\"next\"".toList) =
        ('<' :: x) ++ ',' :: (y ++ ">; rel=\"next\"".toList) := by
      rw [List.cons_append, List.append_assoc, List.cons_append]
    rw [hsplit, pieces_letter, List.findSome?_eq_none_iff]
    intro p hp
    rcases hm : matchNext p with _ | m
    · rfl
    obtain ⟨hstart, hend⟩ := mem_of_matchNext hm
    obtain hp | hp := List.mem_append.1 hp
    · obtain hmem | hmem := List.mem_cons.1 (mem_of_mem_pieces hp hend)
      · exact absurd hmem (by decide)
      · exact absurd (List.mem_append_left _ hmem) hgt
    · obtain hmem | hmem := List.mem_append.1 (mem_of_mem_pieces hp hstart)
      · exact absurd (List.mem_append_right _ (List.mem_cons_of_mem _ hmem)) hlt
      · exact absurd hmem (by decide)
  · have hnot : ',' ∉ '<' :: (a ++ ">; rel=\"next\"".toList) := by
      rw [List.mem_cons, List.mem_append]
      rintro (h | h | h)
      · exact absurd h (by decide)
      · exact hcomma h
      · exact absurd h (by decide)
    rw [pieces_eq_singleton (clear_of_not_mem hnot), List.nil_append, List.findSome?_cons,
      matchNext_header hne hgt]

end Header

/-! ## The address -/

section Link

variable {uri : Uri} {parts : List String} {p : List Char}

/-- The letters of a cursor. -/
theorem cursor_letters : ∀ c ∈ (cursorOf parts).toList, c ∈ sextetLetters :=
  PageQuery.urlSafeNoPad_urlSafe _

theorem of_mem_sextetLetters {f : Char → Bool} (h : sextetLetters.all f = true) :
    ∀ c ∈ (cursorOf parts).toList, f c = true := fun c hc =>
  List.all_eq_true.1 h c (cursor_letters c hc)

/-- The letters of the next address are those of what is carried over, and harmless ones. -/
theorem forall_mem_link (uri : Uri) (parts : List String) {f : Char → Bool}
    (hf : ('?' :: '&' :: "after=".toList ++ sextetLetters).all f = true) :
    (∀ c ∈ link uri (cursorOf parts), f c = true) ↔
      (∀ c ∈ uri.path, f c = true) ∧ ∀ p ∈ carried uri, ∀ c ∈ p, f c = true := by
  rw [List.all_append, List.all_cons, List.all_cons, Bool.and_eq_true, Bool.and_eq_true,
    Bool.and_eq_true] at hf
  obtain ⟨⟨hmark, hamp, hafter⟩, hletters⟩ := hf
  rw [link, List.forall_mem_append, List.forall_mem_cons]
  refine and_congr_right fun _ => ⟨fun h p hp c hc => ?_, fun h => ⟨hmark, fun c hc => ?_⟩⟩
  · exact h.2 c (mem_intercalate_of_mem '&' (List.mem_append_left _ hp) hc)
  · obtain rfl | ⟨p, hp, hc⟩ := mem_intercalate hc
    · exact hamp
    obtain hp | hp := List.mem_append.1 hp
    · exact h p hp c hc
    rw [List.mem_singleton.1 hp, List.mem_append] at hc
    obtain hc | hc := hc
    · exact List.all_eq_true.1 hafter c hc
    · exact of_mem_sextetLetters hletters c hc

theorem of_mem_carried (h : p ∈ carried uri) :
    p ∈ pieces ['&'] 0 [] (uri.query.getD []) ∧ p ≠ [] ∧ ¬ "after=".toList <+: p := by
  obtain ⟨hp, hkeep⟩ := List.mem_filter.1 h
  exact ⟨hp, of_decide_eq_true hkeep⟩

/-- What is carried over is in the request. -/
theorem forall_mem_carried {P : Char → Prop} (h : ∀ q, uri.query = some q → ∀ c ∈ q, P c) :
    ∀ p ∈ carried uri, ∀ c ∈ p, P c := by
  intro p hp c hc
  have hmem := mem_of_mem_pieces (of_mem_carried hp).1 hc
  rcases hq : uri.query with _ | q
  · rw [hq] at hmem
    exact absurd hmem List.not_mem_nil
  · rw [hq] at hmem
    exact h q hq c hmem

/-- No letter of the next address ends it in the header. -/
theorem not_mem_link (h : uri.Accepted) (parts : List String) :
    '<' ∉ link uri (cursorOf parts) ∧ '>' ∉ link uri (cursorOf parts) := by
  have hne (d : Char)
      (hd : ('?' :: '&' :: "after=".toList ++ sextetLetters).all (fun c => c ≠ d) = true)
      (hpath : ∀ c ∈ uri.path, c ≠ d) (hquery : ∀ q, uri.query = some q → ∀ c ∈ q, c ≠ d) :
      d ∉ link uri (cursorOf parts) := by
    intro hmem
    have hall := (forall_mem_link uri parts hd).2
      ⟨fun c hc => decide_eq_true (hpath c hc),
        fun p hp c hc => decide_eq_true (forall_mem_carried hquery p hp c hc)⟩ d hmem
    exact of_decide_eq_true hall rfl
  exact ⟨hne '<' (by decide +kernel) (fun c hc => (h.path c hc).2.1)
      fun q hq c hc => (h.query q hq c hc).2.1,
    hne '>' (by decide +kernel) (fun c hc => (h.path c hc).2.2.1)
      fun q hq c hc => (h.query q hq c hc).2.2.1⟩

/-- The address of the next page is found if it is visible and has no comma in it, and no other one
is. -/
theorem nextPageUrl_eq_some_iff (h : uri.Accepted) {address : List Char} :
    nextPageUrl (nextLink uri (some (cursorOf parts))) = some address ↔
      (∀ c ∈ link uri (cursorOf parts), c.toNat < 127 ∧ c ≠ ',') ∧
        link uri (cursorOf parts) = address := by
  have hne : link uri (cursorOf parts) ≠ [] := by simp [link]
  obtain ⟨hlt, hgt⟩ := not_mem_link h parts
  have hblank : ∀ c ∈ link uri (cursorOf parts), decide (32 < c.toNat) = true :=
    (forall_mem_link uri parts (by decide +kernel)).2 ⟨fun c hc => decide_eq_true (h.path c hc).1,
      fun p hp c hc => decide_eq_true
        (forall_mem_carried (fun q hq c hc => (h.query q hq c hc).1) p hp c hc)⟩
  have hvisible : (('<' :: (link uri (cursorOf parts) ++ ">; rel=\"next\"".toList)).all fun c =>
      (32 ≤ c.toNat ∧ c.toNat < 127) ∨ c = '\t') = true ↔
        ∀ c ∈ link uri (cursorOf parts), c.toNat < 127 := by
    rw [List.all_cons, List.all_append, Bool.and_eq_true, Bool.and_eq_true, List.all_eq_true]
    constructor
    · intro hall c hc
      obtain hc' | rfl := of_decide_eq_true (hall.2.1 c hc)
      · exact hc'.2
      · decide
    · intro hall
      refine ⟨rfl, fun c hc => decide_eq_true (.inl ⟨?_, hall c hc⟩), rfl⟩
      exact Nat.le_of_lt (of_decide_eq_true (hblank c hc))
  rw [nextLink, Option.bind_some, headerValue]
  by_cases hseen : ∀ c ∈ link uri (cursorOf parts), c.toNat < 127
  · rw [if_pos (hvisible.2 hseen), nextPageUrl_header hne hlt hgt]
    by_cases hcomma : ',' ∈ link uri (cursorOf parts)
    · rw [if_pos hcomma]
      exact iff_of_false (Option.some_ne_none _).symm fun hall => (hall.1 _ hcomma).2 rfl
    · rw [if_neg hcomma, Option.some_inj]
      exact (and_iff_right fun c hc => ⟨hseen c hc, fun he => hcomma (he ▸ hc)⟩).symm
  · rw [if_neg fun hall => hseen (hvisible.1 hall)]
    exact iff_of_false (Option.some_ne_none _).symm fun hall => hseen fun c hc => (hall.1 c hc).1

/-- The next address is read if nothing of what is carried over is in the way. -/
theorem forall_link_iff : (∀ c ∈ link uri (cursorOf parts), c.toNat < 127 ∧ c ≠ ',') ↔
    (∀ c ∈ uri.path, c.toNat < 127 ∧ c ≠ ',') ∧
      ∀ p ∈ carried uri, ∀ c ∈ p, c.toNat < 127 ∧ c ≠ ',' := by
  have hlink := forall_mem_link uri parts
    (f := fun c => c.toNat < 127 ∧ c ≠ ',') (by decide +kernel)
  simpa only [decide_eq_true_eq] using hlink

/-! ## The parameters of the next address -/

theorem ofAddress_link (h : uri.Accepted) (cursor : String) :
    Uri.ofAddress (link uri cursor) =
      ⟨uri.path, some (['&'].intercalate (carried uri ++ ["after=".toList ++ cursor.toList]))⟩ := by
  have hall : ∀ c ∈ uri.path, decide (c ≠ '?') = true := fun c hc =>
    decide_eq_true (h.path c hc).2.2.2.2
  have htake : (link uri cursor).takeWhile (fun c => c ≠ '?') = uri.path := by
    rw [link, List.takeWhile_append_of_pos hall, List.takeWhile_cons_of_neg (by simp),
      List.append_nil]
  rw [Uri.ofAddress, htake, link, ← List.drop_drop, List.drop_left]
  rfl

/-- The request of the next address, when its parts are known. -/
theorem pieces_link :
    pieces ['&'] 0 [] (['&'].intercalate
        (carried uri ++ ["after=".toList ++ (cursorOf parts).toList])) =
      carried uri ++ ["after=".toList ++ (cursorOf parts).toList] := by
  refine pieces_intercalate (by simp) fun p hp => ?_
  obtain hp | hp := List.mem_append.1 hp
  · exact not_mem_of_mem_pieces List.not_mem_nil (of_mem_carried hp).1
  · rw [List.mem_singleton.1 hp, List.mem_append]
    rintro (hmem | hmem)
    · exact absurd hmem (by decide)
    · have hno := of_mem_sextetLetters (f := fun c => c ≠ '&') (by decide +kernel) _ hmem
      exact of_decide_eq_true hno rfl

theorem formDecode_after : PageQuery.formDecode fromUtf8Lossy "after" = "after" := by
  have hletters : "after".toList.all (fun c => sextetLetters.contains c) = true := by decide +kernel
  refine (PageQuery.survives_of_urlSafe fun c hc => ?_).undecoded _
  exact List.contains_iff_mem.1 (List.all_eq_true.1 hletters c hc)

theorem param_after (p : List Char) : param ("after=".toList ++ p) =
    ("after", PageQuery.formDecode fromUtf8Lossy (ofList p)) := by
  have htake : ("after=".toList ++ p).takeWhile (fun c => c ≠ '=') = "after".toList := rfl
  have hdrop : ("after=".toList ++ p).drop ("after".toList.length + 1) = p := rfl
  rw [param, htake, hdrop]
  dsimp only
  rw [ofList_toList, formDecode_after]

theorem param_cursor :
    param ("after=".toList ++ (cursorOf parts).toList) = ("after", cursorOf parts) := by
  rw [param_after, ofList_toList, (PageQuery.survives_of_urlSafe cursor_letters).undecoded]

/-- The parameters of the next address. -/
theorem params_link (h : uri.Accepted) : params (Uri.ofAddress (link uri (cursorOf parts))) =
    (carried uri).map param ++ [("after", cursorOf parts)] := by
  have hne : ∀ p ∈ carried uri ++ ["after=".toList ++ (cursorOf parts).toList],
      decide (p ≠ []) = true := by
    intro p hp
    obtain hp | hp := List.mem_append.1 hp
    · exact decide_eq_true (of_mem_carried hp).2.1
    · rw [List.mem_singleton.1 hp]
      exact decide_eq_true (List.cons_ne_nil _ _)
  rw [params, ofAddress_link h, Option.getD_some, pieces_link, List.filter_eq_self.2 hne,
    List.map_append, List.map_singleton, param_cursor]

theorem others_eq (uri : Uri) :
    others uri = ((carried uri).map param).filter fun p => p.1 ≠ "after" := by
  rw [others, params, carried, List.filter_map, List.filter_map, List.filter_filter,
    List.filter_filter]
  refine congrArg (List.map param) (List.filter_congr fun p _ => ?_)
  -- what begins with `after=` has the key `after`
  by_cases hp : "after=".toList <+: p
  · obtain ⟨q, rfl⟩ := hp
    simp only [Function.comp_apply, param_after]
    simp
  · rw [decide_eq_decide.2 (and_iff_left hp)]

/-- The next address has the other parameters of the request. -/
theorem others_link (h : uri.Accepted) :
    others (Uri.ofAddress (link uri (cursorOf parts))) = others uri := by
  rw [others_eq uri, others, params_link h, List.filter_append,
    List.filter_cons_of_neg (by simp), List.filter_nil, List.append_nil]

/-- It has no cursor but its own if none is carried over. -/
theorem afters_link_iff (h : uri.Accepted) :
    afters (Uri.ofAddress (link uri (cursorOf parts))) = [cursorOf parts] ↔
      ∀ p ∈ carried uri, (param p).1 ≠ "after" := by
  rw [afters, params_link h, List.filter_append, List.map_append,
    List.filter_cons_of_pos (by simp), List.filter_nil, List.map_singleton]
  rw [List.append_left_eq_self]
  simp [List.filter_eq_nil_iff]

end Link

/-! ## The walk -/

section Walk

variable {uri : Uri} {parts : List String} {l : List (List String)}

theorem sameAfter_iff (h : uri.Accepted) :
    SameAfter uri (Uri.ofAddress (link uri (cursorOf parts))) parts ↔
      ∀ p ∈ carried uri, (param p).1 ≠ "after" := by
  refine ⟨fun hsame => (afters_link_iff h).1 hsame.afters, fun hkeys => ⟨?_, others_link h, ?_⟩⟩
  · rw [ofAddress_link h]
  · exact (afters_link_iff h).2 hkeys

/-- The address of the next page is read as it was written, and asks for the same listing, exactly
if what is carried over is clean. -/
theorem next_iff (h : uri.Accepted) : Next uri parts ↔ Clean uri := by
  rw [Next, nextPageUrl_eq_some_iff h, sameAfter_iff h]
  constructor
  · rintro ⟨⟨hall, -⟩, hkeys⟩
    obtain ⟨hpath, hcarried⟩ := forall_link_iff.1 hall
    exact ⟨hpath, hcarried, hkeys⟩
  · rintro ⟨hpath, hcarried, hkeys⟩
    exact ⟨⟨forall_link_iff.2 ⟨hpath, hcarried⟩, rfl⟩, hkeys⟩

theorem follow_eq_some {next : Uri} (h : uri.Accepted) (hf : follow uri parts = some next) :
    (∀ c ∈ link uri (cursorOf parts), c.toNat < 127 ∧ c ≠ ',') ∧
      next = Uri.ofAddress (link uri (cursorOf parts)) := by
  rw [follow, Option.map_eq_some_iff] at hf
  obtain ⟨address, haddress, rfl⟩ := hf
  obtain ⟨hall, rfl⟩ := (nextPageUrl_eq_some_iff h).1 haddress
  exact ⟨hall, rfl⟩

/-- What is carried over is carried over again. -/
theorem carried_link (h : uri.Accepted) :
    carried (Uri.ofAddress (link uri (cursorOf parts))) = carried uri := by
  have hkeep : ∀ p ∈ carried uri, decide (p ≠ [] ∧ ¬ "after=".toList <+: p) = true := fun p hp =>
    decide_eq_true (of_mem_carried hp).2
  have hdrop : (["after=".toList ++ (cursorOf parts).toList].filter fun p =>
      p ≠ [] ∧ ¬ "after=".toList <+: p) = [] := by
    rw [List.filter_eq_nil_iff]
    intro p hp
    rw [List.mem_singleton.1 hp, decide_eq_true_iff]
    exact fun hno => hno.2 (List.prefix_append _ _)
  rw [ofAddress_link h, carried, Option.getD_some, pieces_link, List.filter_append,
    List.filter_eq_self.2 hkeep, hdrop, List.append_nil]

theorem accepted_link (h : uri.Accepted) :
    (Uri.ofAddress (link uri (cursorOf parts))).Accepted := by
  have hlink := forall_mem_link uri parts
    (f := fun c => 32 < c.toNat ∧ c ≠ '<' ∧ c ≠ '>' ∧ c ≠ '#') (by decide +kernel)
  simp only [decide_eq_true_eq] at hlink
  rw [ofAddress_link h]
  refine ⟨h.path, fun q hq c hc => hlink.2 ⟨fun c hc => ?_, forall_mem_carried h.query⟩ c ?_⟩
  · obtain ⟨hblank, hlt, hgt, hhash, -⟩ := h.path c hc
    exact ⟨hblank, hlt, hgt, hhash⟩
  · rw [← Option.some.inj hq] at hc
    exact List.mem_append_right _ (List.mem_cons_of_mem _ hc)

theorem walks_of_clean (h : uri.Accepted) (hclean : Clean uri) : Walks uri l := by
  induction l generalizing uri with
  | nil => trivial
  | cons parts l ih =>
    refine ⟨Uri.ofAddress (link uri (cursorOf parts)), ?_, (sameAfter_iff h).2 hclean.keys,
      ih (accepted_link h) ?_⟩
    · rw [follow, ((next_iff h).2 hclean).1, Option.map_some]
    · refine ⟨?_, ?_, ?_⟩
      · rw [ofAddress_link h]
        exact hclean.path
      · rw [carried_link h]
        exact hclean.carried
      · rw [carried_link h]
        exact hclean.keys

/-- From page to page the same listing is walked exactly if what is carried over is clean. -/
theorem walks_iff (h : uri.Accepted) : (∀ l, Walks uri l) ↔ Clean uri := by
  refine ⟨fun hwalks => ?_, fun hclean l => walks_of_clean h hclean⟩
  obtain ⟨next, hf, hsame, -⟩ := hwalks [[]]
  obtain ⟨hall, rfl⟩ := follow_eq_some h hf
  obtain ⟨hpath, hcarried⟩ := forall_link_iff.1 hall
  exact ⟨hpath, hcarried, (sameAfter_iff h).1 hsame⟩

end Walk

end NextPage

end Smrt
