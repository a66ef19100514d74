import Mathlib.Algebra.GroupWithZero.Nat
import Mathlib.Data.List.DropRight
import Smrt.Storage.Layout

/-!
# What the panel says before the mirror refuses it

The panel checks ids, file names and paths while they are typed (`idError`, `filenameError`,
`relPathError`), and the mirror checks them again when they are stored. The panel looks at what is
typed without the blanks around it, the mirror at what is sent, which has them still.

* `idError_iff`, `filenameError_iff`, `relPathError_iff`: what the panel says nothing about, by the
  mirror's own rules;
* `segments_safe_iff`: what it takes for the segments of a path to be plain, letter by letter;
* `validators_agree_iff`: for which texts the two agree. They do for all without blanks around,
  except for the id that is the namespace of the members.
-/

namespace Smrt

namespace Validate

open Layout (segments)

/-! ## The rules of the panel -/

/-- White space, as it is trimmed in the panel. -/
def jsBlank (c : Char) : Bool :=
  (9 ≤ c.toNat ∧ c.toNat ≤ 13) ∨ c.toNat = 32 ∨ c.toNat = 0xA0 ∨ c.toNat = 0x1680 ∨
    (0x2000 ≤ c.toNat ∧ c.toNat ≤ 0x200A) ∨ c.toNat = 0x2028 ∨ c.toNat = 0x2029 ∨
    c.toNat = 0x202F ∨ c.toNat = 0x205F ∨ c.toNat = 0x3000 ∨ c.toNat = 0xFEFF

def jsTrim (v : String) : String :=
  String.ofList ((v.toList.dropWhile jsBlank).rdropWhile jsBlank)

/-- The number of the units of sixteen bits. -/
def utf16Length (s : String) : ℕ := (s.toList.map fun c => if c.toNat < 0x10000 then 1 else 2).sum

/-- A letter of an id. -/
def idChar (c : Char) : Bool := c.isAlphanum ∨ c = '.' ∨ c = '_' ∨ c = '-'

/-- A letter of a segment of a path. -/
def relPathChar (c : Char) : Bool :=
  c.isAlphanum ∨ c ∈ ['.', '_', ' ', '(', ')', '+', ',', '[', ']', '-']

/-- The pattern of a segment, which has one letter at least. -/
def relPathPattern (seg : String) : Bool := seg ≠ "" ∧ seg.toList.all relPathChar

def idError (v : String) : Option String :=
  let s := jsTrim v
  if s = "" then some "required"
  else if 64 < utf16Length s then some "tooLong"
  else if s.toList.head? = some '.' then some "leadingDot"
  else if ¬ s.toList.all idChar then some "idChars"
  else none

def filenameError (v : String) : Option String :=
  let s := jsTrim v
  if s = "" then some "required"
  else if s.toList.head? = some '.' then some "leadingDot"
  else if '/' ∈ s.toList ∨ '\\' ∈ s.toList then some "filenameSlash"
  else none

def relPathError (v : String) : Option String :=
  let s := jsTrim v
  if s = "" then some "required"
  else if 512 < utf16Length s then some "tooLong"
  else if s.toList.head? = some '/' ∨ '\\' ∈ s.toList then some "relPathAbsolute"
  else if (segments s).any fun seg => seg = "" ∨ seg.toList.head? = some '.' then
    some "relPathSegment"
  else if (segments s).any fun seg => !relPathPattern seg then some "relPathChars"
  else none

/-! ## Blanks -/

section Blanks

variable {v s : String} {c : Char}

/-- What is trimmed is blank, and what is left neither begins nor ends with a blank. -/
theorem jsTrim_spec (v : String) : ∃ lead trail, v.toList = lead ++ (jsTrim v).toList ++ trail ∧
    (∀ c ∈ lead, jsBlank c = true) ∧ (∀ c ∈ trail, jsBlank c = true) := by
  refine ⟨v.toList.takeWhile jsBlank, (v.toList.dropWhile jsBlank).rtakeWhile jsBlank, ?_,
    fun c hc => List.mem_takeWhile_imp hc, fun c hc => List.mem_rtakeWhile_imp hc⟩
  have hright : ∀ l : List Char, l.rdropWhile jsBlank ++ l.rtakeWhile jsBlank = l := by
    intro l
    rw [List.rdropWhile, List.rtakeWhile, ← List.reverse_append, List.takeWhile_append_dropWhile,
      List.reverse_reverse]
  rw [jsTrim, String.toList_ofList, List.append_assoc, hright, List.takeWhile_append_dropWhile]

/-- A text without blanks stays as it is. -/
theorem jsTrim_eq_self (h : ∀ c ∈ v.toList, jsBlank c = false) : jsTrim v = v := by
  have hdrop : v.toList.dropWhile jsBlank = v.toList :=
    List.dropWhile_eq_self_iff.2 fun hl => by
      rw [h _ (List.getElem_mem _)]
      exact Bool.false_ne_true
  have hlast : v.toList.rdropWhile jsBlank = v.toList :=
    List.rdropWhile_eq_self_iff.2 fun hl => by
      rw [h _ (List.getLast_mem hl)]
      exact Bool.false_ne_true
  rw [jsTrim, hdrop, hlast, String.ofList_toList]

theorem range_of_isAlphanum (h : c.isAlphanum = true) : 48 ≤ c.toNat ∧ c.toNat ≤ 122 := by
  delta Char.isAlphanum Char.isAlpha Char.isUpper Char.isLower Char.isDigit at h
  simp only [Bool.or_eq_true, Bool.and_eq_true, decide_eq_true_eq, UInt32.le_iff_toNat_le,
    ge_iff_le] at h
  have hletters : 'A'.val.toNat = 65 ∧ 'Z'.val.toNat = 90 ∧ 'a'.val.toNat = 97 ∧
      'z'.val.toNat = 122 ∧ '0'.val.toNat = 48 ∧ '9'.val.toNat = 57 := by decide
  have hval : c.toNat = c.val.toNat := rfl
  omega

/-- A letter of a path is an ASCII letter that is printed. -/
theorem range_of_relPathChar (h : relPathChar c = true) : 32 ≤ c.toNat ∧ c.toNat ≤ 122 := by
  rcases of_decide_eq_true h with h | h
  · have := range_of_isAlphanum h
    omega
  · have hmarks : (['.', '_', ' ', '(', ')', '+', ',', '[', ']', '-'].all fun d =>
        32 ≤ d.toNat ∧ d.toNat ≤ 122) = true := by decide
    exact of_decide_eq_true (List.all_eq_true.1 hmarks c h)

theorem range_of_idChar (h : idChar c = true) : 45 ≤ c.toNat ∧ c.toNat ≤ 122 := by
  rcases of_decide_eq_true h with h | rfl | rfl | rfl
  · have := range_of_isAlphanum h
    omega
  · decide
  · decide
  · decide

theorem not_jsBlank (h : 33 ≤ c.toNat ∧ c.toNat ≤ 122) : jsBlank c = false := by
  rw [jsBlank, decide_eq_false_iff_not]
  omega

/-- The only blank that a path may have is a space. -/
theorem eq_space_of_jsBlank (hc : relPathChar c = true) (hb : jsBlank c = true) : c = ' ' := by
  have hrange := range_of_relPathChar hc
  have hb : _ := of_decide_eq_true hb
  have hnat : c.toNat = ' '.toNat := by
    change c.toNat = 32
    omega
  exact Char.toNat_inj.1 hnat

/-- The units of an ASCII text are its bytes. -/
theorem utf16Length_eq (h : ∀ c ∈ s.toList, c.toNat < 128) : utf16Length s = s.utf8ByteSize := by
  have hlen : ∀ l : List Char, (∀ c ∈ l, c.toNat < 128) →
      (l.map fun c => if c.toNat < 0x10000 then 1 else 2).sum = String.utf8Len l := by
    intro l hl
    induction l with
    | nil => rfl
    | cons c l ih =>
      obtain ⟨hc, hl⟩ := List.forall_mem_cons.1 hl
      have hone : c.utf8Size = 1 := by
        refine Char.utf8Size_eq_one_iff.2 (UInt32.le_iff_toNat_le.2 ?_)
        change c.toNat ≤ 127
        omega
      have hunit : c.toNat < 0x10000 := by omega
      rw [List.map_cons, List.sum_cons, if_pos hunit, ih hl, String.utf8Len_cons, hone,
        Nat.add_comm]
  rw [utf16Length, hlen _ h, ← String.utf8ByteSize_ofList, String.ofList_toList]

end Blanks

/-! ## Paths, letter by letter -/

/-- A segment begins here, with a letter that it may begin with. -/
def Begins (l : List Char) : Prop := ∃ c, l.head? = some c ∧ c ≠ '/' ∧ c ≠ '.'

/-- All segments are plain. -/
structure PlainPath (l : List Char) : Prop where
  letters : ∀ c ∈ l, relPathChar c = true ∨ c = '/'
  first : Begins l
  later : ∀ a b, l = a ++ '/' :: b → Begins b

section Segments

variable {v s : String} {l m : List Char}

theorem isSafeSegment_iff : isSafeSegment s = true ↔
    s ≠ "" ∧ s.toList.head? ≠ some '.' ∧ ∀ c ∈ s.toList, relPathChar c = true := by
  have hletter : ∀ c : Char, relPathChar c = true ↔
      c.isAlphanum = true ∨ c ∈ ['-', '_', '.', ' ', '(', ')', '+', ',', '[', ']'] := by
    intro c
    have hperm : ['.', '_', ' ', '(', ')', '+', ',', '[', ']', '-'].Perm
        ['-', '_', '.', ' ', '(', ')', '+', ',', '[', ']'] := by decide
    rw [relPathChar, decide_eq_true_eq, hperm.mem_iff]
  simp only [isSafeSegment, decide_eq_true_eq, List.all_eq_true, hletter]

/-- A segment without a slash, letter by letter. -/
theorem isSafeSegment_ofList (h : '/' ∉ m) : isSafeSegment (String.ofList m) = true ↔
    Begins m ∧ ∀ c ∈ m, relPathChar c = true := by
  rw [isSafeSegment_iff, String.toList_ofList, ← and_assoc]
  refine and_congr_left fun _ => ?_
  rcases m with _ | ⟨c, m⟩
  · exact iff_of_false (fun hn => hn.1 rfl) fun ⟨c, hc, _⟩ => nomatch hc
  · have hne : String.ofList (c :: m) ≠ "" := fun he => by
      have he := congrArg String.toList he
      rw [String.toList_ofList] at he
      exact List.cons_ne_nil _ _ he
    have hslash : c ≠ '/' := fun he => h (he ▸ List.mem_cons_self)
    constructor
    · rintro ⟨-, hdot⟩
      exact ⟨c, rfl, hslash, fun he => hdot (he ▸ rfl)⟩
    · rintro ⟨d, hd, -, hdot⟩
      obtain rfl := Option.some.inj hd
      exact ⟨hne, fun he => hdot (Option.some.inj he)⟩

/-- The segments of a path are plain if its letters are and every segment begins well. -/
theorem plainPath_iff :
    PlainPath l ↔ ∀ m ∈ l.splitOn '/', isSafeSegment (String.ofList m) = true := by
  induction hn : l.length using Nat.strong_induction_on generalizing l with
  | _ n ih =>
    by_cases hslash : '/' ∈ l
    · obtain ⟨a, b, rfl, ha⟩ := List.eq_append_cons_of_mem hslash
      have hb : b.length < n := by
        rw [← hn, List.length_append, List.length_cons]
        omega
      rw [List.splitOn_append_cons_self_of_not_mem ha, List.forall_mem_cons,
        isSafeSegment_ofList ha, ← ih _ hb rfl]
      constructor
      · rintro ⟨hletters, hfirst, hlater⟩
        refine ⟨⟨?_, fun c hc => ?_⟩, fun c hc => ?_, hlater a b rfl, fun a' b' he => ?_⟩
        · rcases a with _ | ⟨c, a⟩
          · obtain ⟨d, hd, hne, -⟩ := hfirst
            exact absurd (Option.some.inj hd).symm hne
          · exact hfirst
        · exact (hletters c (List.mem_append_left _ hc)).resolve_right fun he => ha (he ▸ hc)
        · exact hletters c (List.mem_append_right _ (List.mem_cons_of_mem _ hc))
        · refine hlater (a ++ '/' :: a') b' ?_
          rw [he, List.append_assoc, List.cons_append]
      · rintro ⟨⟨hbegins, hchars⟩, hletters, hfirst, hlater⟩
        refine ⟨fun c hc => ?_, ?_, fun a' b' he => ?_⟩
        · rcases List.mem_append.1 hc with hc | hc
          · exact .inl (hchars c hc)
          · rcases List.mem_cons.1 hc with rfl | hc
            · exact .inr rfl
            · exact hletters c hc
        · obtain ⟨c, hc, hne⟩ := hbegins
          exact ⟨c, by rw [List.head?_append, hc, Option.some_or], hne⟩
        · -- The slash is the first one, or it is in what follows it.
          rcases List.append_eq_append_iff.1 he with ⟨u, rfl, hu⟩ | ⟨u, rfl, hu⟩
          · rcases u with _ | ⟨d, u⟩
            · rw [List.nil_append] at hu
              rw [← (List.cons.inj hu).2]
              exact hfirst
            · rw [List.cons_append] at hu
              exact hlater u b' (List.cons.inj hu).2
          · rcases u with _ | ⟨d, u⟩
            · rw [List.nil_append] at hu
              rw [(List.cons.inj hu).2]
              exact hfirst
            · rw [List.cons_append] at hu
              exact absurd (List.mem_append_right _ ((List.cons.inj hu).1 ▸ List.mem_cons_self)) ha
    · rw [List.splitOn_eq_singleton hslash, List.forall_mem_singleton, isSafeSegment_ofList hslash]
      constructor
      · rintro ⟨hletters, hfirst, -⟩
        exact ⟨hfirst, fun c hc => (hletters c hc).resolve_right fun he => hslash (he ▸ hc)⟩
      · rintro ⟨hfirst, hletters⟩
        refine ⟨fun c hc => .inl (hletters c hc), hfirst, fun a b he => ?_⟩
        exact absurd (he ▸ List.mem_append_right a List.mem_cons_self) hslash

theorem segments_safe_iff :
    (∀ seg ∈ segments s, isSafeSegment seg = true) ↔ PlainPath s.toList := by
  rw [plainPath_iff, segments, List.forall_mem_map]

end Segments

/-! ## The two sides -/

section Sides

variable {v s : String} {l lead trail : List Char}

theorem isSafeRelPath_iff :
    isSafeRelPath s = true ↔ s.utf8ByteSize ≤ 512 ∧ PlainPath s.toList := by
  have hsegments : ((s.splitOn "/").all isSafeSegment = true) ↔ PlainPath s.toList := by
    rw [Layout.splitOn_slash, List.all_eq_true, segments_safe_iff]
  rw [isSafeRelPath, decide_eq_true_eq, hsegments]
  constructor
  · rintro ⟨-, hlen, -, -, hplain⟩
    exact ⟨hlen, hplain⟩
  · rintro ⟨hlen, hplain⟩
    obtain ⟨c, hc, hslash, -⟩ := hplain.first
    refine ⟨?_, hlen, ?_, fun hback => ?_, hplain⟩
    · rintro rfl
      exact absurd hc.symm (Option.some_ne_none c)
    · rw [hc]
      exact fun he => hslash (Option.some.inj he)
    · rcases hplain.letters _ hback with h | h
      · exact absurd h (by decide)
      · exact absurd h (by decide)

theorem ascii_of_plainPath (h : PlainPath s.toList) : ∀ c ∈ s.toList, c.toNat < 128 := by
  intro c hc
  rcases h.letters c hc with h | rfl
  · have := range_of_relPathChar h
    omega
  · decide

/-- A check says nothing if it does not apply, and the next one says nothing. -/
theorem refuse_eq_none {p : Prop} [Decidable p] {e : String} {r : Option String} :
    (if p then some e else r) = none ↔ ¬ p ∧ r = none := by
  split_ifs with h
  · exact iff_of_false nofun fun hn => hn.1 h
  · exact (and_iff_right h).symm

/-- The panel says nothing about a path if the mirror would take it without the blanks around it. -/
theorem relPathError_iff : relPathError v = none ↔ isSafeRelPath (jsTrim v) = true := by
  rw [isSafeRelPath_iff]
  simp only [relPathError, refuse_eq_none, List.any_eq_true, decide_eq_true_eq, not_exists,
    not_and, not_or, Bool.not_eq_true', Bool.not_eq_false, relPathPattern, List.all_eq_true,
    and_true, not_lt]
  constructor
  · rintro ⟨-, hlen, -, hbegins, hletters⟩
    have hplain : PlainPath (jsTrim v).toList := segments_safe_iff.1 fun seg hseg =>
      isSafeSegment_iff.2 ⟨(hbegins seg hseg).1, (hbegins seg hseg).2, (hletters seg hseg).2⟩
    exact ⟨utf16Length_eq (ascii_of_plainPath hplain) ▸ hlen, hplain⟩
  · rintro ⟨hlen, hplain⟩
    have hsafe := isSafeRelPath_iff.2 ⟨hlen, hplain⟩
    obtain ⟨hne, -, hslash, hback, -⟩ := of_decide_eq_true hsafe
    have hseg := fun seg h => isSafeSegment_iff.1 (segments_safe_iff.2 hplain seg h)
    exact ⟨hne, (utf16Length_eq (ascii_of_plainPath hplain)).symm ▸ hlen, ⟨hslash, hback⟩,
      fun seg h => ⟨(hseg seg h).1, (hseg seg h).2.1⟩,
      fun seg h => ⟨(hseg seg h).1, (hseg seg h).2.2⟩⟩

/-- The same for an id. -/
theorem idError_iff : idError v = none ↔ isFlatId (jsTrim v) = true := by
  have hletter : ∀ c : Char, (c.isAlphanum = true ∨ c = '-' ∨ c = '_' ∨ c = '.') ↔
      idChar c = true := by
    intro c
    rw [idChar, decide_eq_true_eq]
    exact or_congr_right (by tauto)
  simp only [idError, refuse_eq_none, isFlatId, decide_eq_true_eq, List.all_eq_true, hletter,
    not_lt, not_not, and_true]
  refine and_congr_right fun _ => ?_
  constructor
  · rintro ⟨hlen, hdot, hall⟩
    refine ⟨?_, hdot, hall⟩
    rwa [← utf16Length_eq fun c hc => by have := range_of_idChar (hall c hc); omega]
  · rintro ⟨hlen, hdot, hall⟩
    refine ⟨?_, hdot, hall⟩
    rwa [utf16Length_eq fun c hc => by have := range_of_idChar (hall c hc); omega]

/-- And for the name of a file. -/
theorem filenameError_iff : filenameError v = none ↔ isSafeFilename (jsTrim v) = true := by
  simp only [filenameError, refuse_eq_none, isSafeFilename, decide_eq_true_eq, not_or, and_true]

/-- What is not blank is there with the blanks around it, and without. -/
theorem mem_jsTrim {c : Char} (hc : jsBlank c = false) : c ∈ (jsTrim v).toList ↔ c ∈ v.toList := by
  obtain ⟨lead, trail, hv, hlead, htrail⟩ := jsTrim_spec v
  rw [hv, List.mem_append, List.mem_append]
  constructor
  · exact fun h => .inl (.inr h)
  · rintro ((h | h) | h)
    · exact absurd ((hlead c h).symm.trans hc) nofun
    · exact h
    · exact absurd ((htrail c h).symm.trans hc) nofun

theorem Begins.append {m : List Char} (h : Begins l) : Begins (l ++ m) := by
  obtain ⟨c, hc, hne⟩ := h
  exact ⟨c, by rw [List.head?_append, hc, Option.some_or], hne⟩

/-- A slash between blanks is in what they are around. -/
theorem cut_pad {a b : List Char} (h : lead ++ l ++ trail = a ++ '/' :: b) (hlead : '/' ∉ lead)
    (htrail : '/' ∉ trail) : ∃ a' b', l = a' ++ '/' :: b' ∧ b = b' ++ trail := by
  rw [List.append_assoc] at h
  rcases List.append_eq_append_iff.1 h with ⟨u, rfl, hu⟩ | ⟨u, rfl, hu⟩
  · rcases List.append_eq_append_iff.1 hu with ⟨w, rfl, hw⟩ | ⟨w, rfl, hw⟩
    · exact absurd (hw ▸ List.mem_append_right _ List.mem_cons_self) htrail
    · rcases w with _ | ⟨c, w⟩
      · have hw : '/' :: b = trail := hw
        exact absurd (hw ▸ List.mem_cons_self) htrail
      · obtain ⟨rfl, rfl⟩ := List.cons.inj hw
        exact ⟨u, w, rfl, rfl⟩
  · rcases u with _ | ⟨c, u⟩
    · rw [List.nil_append] at hu
      rcases l with _ | ⟨c, l⟩
      · have hu : '/' :: b = trail := hu
        exact absurd (hu ▸ List.mem_cons_self) htrail
      · obtain ⟨rfl, rfl⟩ := List.cons.inj hu
        exact ⟨[], l, rfl, rfl⟩
    · obtain ⟨rfl, -⟩ := List.cons.inj hu
      exact absurd (List.mem_append_right _ List.mem_cons_self) hlead

/-- A path stays one with spaces around it. -/
theorem PlainPath.pad (h : PlainPath l) (hlead : ∀ c ∈ lead, c = ' ')
    (htrail : ∀ c ∈ trail, c = ' ') : PlainPath (lead ++ l ++ trail) := by
  have hspace : relPathChar ' ' = true := by decide
  refine ⟨fun c hc => ?_, ?_, fun a b he => ?_⟩
  · rw [List.mem_append, List.mem_append] at hc
    rcases hc with (hc | hc) | hc
    · exact .inl (hlead c hc ▸ hspace)
    · exact h.letters c hc
    · exact .inl (htrail c hc ▸ hspace)
  · rcases lead with _ | ⟨c, lead⟩
    · exact h.first.append
    · obtain rfl := hlead c List.mem_cons_self
      exact ⟨' ', rfl, by decide, by decide⟩
  · obtain ⟨a', b', hl, rfl⟩ := cut_pad he (fun hm => absurd (hlead _ hm) (by decide))
      fun hm => absurd (htrail _ hm) (by decide)
    exact (h.later a' b' hl).append

/-- A path without the spaces around it is one if it begins well then, and does not end in a
    slash. -/
theorem PlainPath.unpad (h : PlainPath (lead ++ l ++ trail)) (hfirst : Begins l)
    (hlast : l.getLast? ≠ some '/') : PlainPath l := by
  refine ⟨fun c hc => h.letters c ?_, hfirst, fun a b he => ?_⟩
  · exact List.mem_append_left _ (List.mem_append_right _ hc)
  · have hb : Begins (b ++ trail) := by
      refine h.later (lead ++ a) (b ++ trail) ?_
      rw [he]
      simp
    rcases b with _ | ⟨c, b⟩
    · rw [he, List.getLast?_concat] at hlast
      exact absurd rfl hlast
    · obtain ⟨d, hd, hne⟩ := hb
      exact ⟨d, hd, hne⟩

/-- The bytes of a text without the blanks around it are not more. -/
theorem utf8ByteSize_jsTrim : (jsTrim v).utf8ByteSize ≤ v.utf8ByteSize := by
  obtain ⟨lead, trail, hv, -⟩ := jsTrim_spec v
  have hsize : ∀ s : String, s.utf8ByteSize = String.utf8Len s.toList := fun s => by
    rw [← String.utf8ByteSize_ofList, String.ofList_toList]
  rw [hsize, hsize v, hv, String.utf8Len_append, String.utf8Len_append]
  omega

end Sides

/-! ## When they agree -/

/-- A text may be the id of a pack that is in no namespace. -/
def AcceptsFlatId (v : String) : Prop := '/' ∉ v.toList ∧ isSafeId v = true

/-- The segments of a path are plain, and it is not too long. -/
def ShortPlain (v : String) : Prop :=
  v.utf8ByteSize ≤ 512 ∧ ∀ seg ∈ segments v, isSafeSegment seg = true

/-- When the two agree on an id: if there are no blanks around it, or it is none without them, and
    it is not the namespace of the members. -/
def IdAgrees (v : String) : Prop := isFlatId (jsTrim v) = true → jsTrim v = v ∧ v ≠ "u"

/-- When the two agree on a path: if it is one without the blanks around it, these are spaces, and
    not too many; if it is one with them, it is not empty without them, does not begin with a slash
    or a dot, and does not end in a slash. -/
def RelPathAgrees (v : String) : Prop :=
  (ShortPlain (jsTrim v) → v.utf8ByteSize ≤ 512 ∧ ∀ c ∈ v.toList, jsBlank c = true → c = ' ') ∧
    (ShortPlain v → Begins (jsTrim v).toList ∧ (jsTrim v).toList.getLast? ≠ some '/')

/-- When the two agree on the name of a file: if it has a slash, is empty or begins with a dot, or
    without the blanks around it does not. -/
def FilenameAgrees (v : String) : Prop :=
  '/' ∈ v.toList ∨ '\\' ∈ v.toList ∨ v = "" ∨ v.toList.head? = some '.' ∨
    (jsTrim v ≠ "" ∧ (jsTrim v).toList.head? ≠ some '.')

section Agreement

variable {v : String}

theorem acceptsFlatId_iff : AcceptsFlatId v ↔ isFlatId v = true ∧ v ≠ "u" := by
  have hsafe : '/' ∉ v.toList → (isSafeId v = true ↔ v ≠ "u" ∧ isFlatId v = true) := by
    intro hslash
    rw [isSafeId]
    split
    · next rest hl =>
      rw [hl] at hslash
      exact absurd (.tail _ (.head _)) hslash
    · exact decide_eq_true_iff
  constructor
  · rintro ⟨hslash, h⟩
    exact and_comm.1 ((hsafe hslash).1 h)
  · rintro ⟨hflat, hne⟩
    have hslash := (Layout.plain_of_isFlatId hflat).2
    exact ⟨hslash, (hsafe hslash).2 ⟨hne, hflat⟩⟩

theorem idAgrees_iff : (idError v = none ↔ AcceptsFlatId v) ↔ IdAgrees v := by
  rw [idError_iff, acceptsFlatId_iff, IdAgrees]
  have hself : isFlatId v = true → jsTrim v = v := by
    intro h
    obtain ⟨-, -, -, hall⟩ := of_decide_eq_true h
    refine jsTrim_eq_self fun c hc => not_jsBlank ?_
    have hletter : idChar c = true := by
      rw [idChar, decide_eq_true_eq]
      rcases of_decide_eq_true (List.all_eq_true.1 hall c hc) with h | h | h | h
      · exact .inl h
      · exact .inr (.inr (.inr h))
      · exact .inr (.inr (.inl h))
      · exact .inr (.inl h)
    have := range_of_idChar hletter
    omega
  constructor
  · intro h ht
    obtain ⟨hflat, hne⟩ := h.1 ht
    exact ⟨hself hflat, hne⟩
  · intro h
    constructor
    · intro ht
      obtain ⟨he, hne⟩ := h ht
      exact ⟨he ▸ ht, hne⟩
    · rintro ⟨hflat, -⟩
      exact (hself hflat).symm ▸ hflat

theorem relPathAgrees_iff : (relPathError v = none ↔ isSafeRelPath v = true) ↔ RelPathAgrees v := by
  rw [relPathError_iff, RelPathAgrees, ShortPlain, ShortPlain, segments_safe_iff,
    segments_safe_iff, isSafeRelPath_iff, isSafeRelPath_iff]
  obtain ⟨lead, trail, hv, hlead, htrail⟩ := jsTrim_spec v
  constructor
  · intro h
    refine ⟨fun ht => ?_, fun hs => ?_⟩
    · obtain ⟨hlen, hplain⟩ := h.1 ht
      refine ⟨hlen, fun c hc hb => ?_⟩
      rcases hplain.letters c hc with hl | rfl
      · exact eq_space_of_jsBlank hl hb
      · exact absurd hb (by decide)
    · obtain ⟨-, hplain⟩ := h.2 hs
      refine ⟨hplain.first, fun hlast => ?_⟩
      obtain ⟨l, hl⟩ := List.getLast?_eq_some_iff.1 hlast
      obtain ⟨c, hc, -⟩ := hplain.later l [] hl
      exact nomatch hc
  · rintro ⟨hpad, hunpad⟩
    constructor
    · rintro ⟨hlen, hplain⟩
      obtain ⟨hlong, hspaces⟩ := hpad ⟨hlen, hplain⟩
      refine ⟨hlong, ?_⟩
      rw [hv]
      refine hplain.pad (fun c hc => ?_) fun c hc => ?_
      · exact hspaces c (by rw [hv]; simp [hc]) (hlead c hc)
      · exact hspaces c (by rw [hv]; simp [hc]) (htrail c hc)
    · rintro ⟨hlen, hplain⟩
      obtain ⟨hfirst, hlast⟩ := hunpad ⟨hlen, hplain⟩
      rw [hv] at hplain
      exact ⟨utf8ByteSize_jsTrim.trans hlen, hplain.unpad hfirst hlast⟩

theorem jsTrim_empty : jsTrim "" = "" := rfl

/-- A text that begins with a dot does so without the blanks around it. -/
theorem head?_jsTrim (h : v.toList.head? = some '.') : (jsTrim v).toList.head? = some '.' := by
  have hdot : jsBlank '.' = false := by decide
  obtain ⟨lead, trail, hv, hlead, htrail⟩ := jsTrim_spec v
  rw [hv, List.append_assoc] at h
  rcases lead with _ | ⟨c, lead⟩
  · rcases ht : (jsTrim v).toList with _ | ⟨c, t⟩
    · rw [ht] at h
      exact absurd ((htrail _ (List.mem_of_mem_head? h)).symm.trans hdot) nofun
    · rw [ht] at h
      exact h
  · obtain rfl := Option.some.inj h
    exact absurd ((hlead _ List.mem_cons_self).symm.trans hdot) nofun

theorem filenameAgrees_iff :
    (filenameError v = none ↔ isSafeFilename v = true) ↔ FilenameAgrees v := by
  have hslash : jsBlank '/' = false := by decide
  have hback : jsBlank '\\' = false := by decide
  rw [filenameError_iff, FilenameAgrees]
  simp only [isSafeFilename, decide_eq_true_eq, mem_jsTrim hslash, mem_jsTrim hback]
  by_cases hs : '/' ∈ v.toList
  · simp [hs]
  by_cases hb : '\\' ∈ v.toList
  · simp [hb]
  by_cases he : v = ""
  · simp [he, jsTrim_empty]
  by_cases hd : v.toList.head? = some '.'
  · simp [hd, head?_jsTrim hd]
  · simp [hs, hb, he, hd]

end Agreement

/-- The panel and the mirror agree on a text exactly in these cases. -/
theorem validators_agree_iff (v : String) :
    ((idError v = none ↔ AcceptsFlatId v) ↔ IdAgrees v) ∧
      ((relPathError v = none ↔ isSafeRelPath v = true) ↔ RelPathAgrees v) ∧
        ((filenameError v = none ↔ isSafeFilename v = true) ↔ FilenameAgrees v) :=
  ⟨idAgrees_iff, relPathAgrees_iff, filenameAgrees_iff⟩

/-- The namespace of the members is no id of a pack, and neither is a padded one; a path in a hidden
    directory is one with a blank before it, and so is the name of a file. -/
theorem validators_not_agree :
    (idError "u" = none ∧ ¬ AcceptsFlatId "u") ∧
      (idError "main " = none ∧ ¬ AcceptsFlatId "main ") ∧
      (relPathError " .git/x" ≠ none ∧ isSafeRelPath " .git/x" = true) ∧
        (filenameError " .jar" ≠ none ∧ isSafeFilename " .jar" = true) := by
  refine ⟨⟨by decide, ?_⟩, ⟨by decide, ?_⟩, ⟨by decide, ?_⟩, by decide, by decide⟩
  · rw [acceptsFlatId_iff]
    exact fun h => h.2 rfl
  · rw [acceptsFlatId_iff]
    decide
  · rw [isSafeRelPath, Layout.splitOn_slash]
    decide

end Validate

end Smrt
