import Smrt.Authoring.ClassRead
import Smrt.Authoring.JavaClass

/-!
# Texts of a class as they are read

A text of a class is read with marks for what modified UTF-8 writes in its own way (`code`). Names
that matter are words without these (`isWord`), so that a text is read as one if and only if it is
one (`code_eq_iff`). The types in a descriptor, or in a constant that names a class, are found where
they are written (`objectTypes_print`, `mem_pushType_print`), and the constants of a class are kept
in their slots (`JavaClass.utf8_cps`, `JavaClass.className_cps`, `JavaClass.flag_cps`).
-/

namespace Smrt

open ClassDoc ClassFile
open Bootstrap (Bytes)

/-! ## Texts as they are read -/

section Code

variable {t t' : Text} {s : String}

/-- A text as it is read. -/
def code (t : Text) : String := String.ofList t.mangle

theorem fromUtf8Lossy_write (t : Text) : fromUtf8Lossy t.write = code t := by
  rw [fromUtf8Lossy, lossy_write]
  rfl

theorem ofString_code_iff : Text.ofString (code t) = t ↔ t.Plain := by
  rw [Text.ofString, code, String.toList_ofList]
  exact Text.mangle_eq_iff

/-- What is read is plain. -/
theorem plain_ofString_code (t : Text) : (Text.ofString (code t)).Plain := by
  intro x hx
  rw [Text.ofString, code, String.toList_ofList, List.mem_map] at hx
  obtain ⟨c, hc, rfl⟩ := hx
  exact Text.plain_mangle t c hc

theorem code_inj (ht : t.Plain) (ht' : t'.Plain) (h : code t = code t') : t = t' := by
  rw [← ofString_code_iff.2 ht, h, ofString_code_iff.2 ht']

theorem ofString_inj {s' : String} (h : Text.ofString s = Text.ofString s') : s = s' :=
  String.toList_inj.1 (List.map_injective_iff.2 (fun _ _ h => Letter.char.inj h) h)

/-- A word, of letters that are written as they are. -/
def isWord (s : String) : Bool := s.toList.all fun c => 0 < c.toNat && c.toNat < 0xfffd

/-- A word is read where it is written, and nowhere else. -/
theorem code_eq_iff (hs : isWord s = true) : code t = s ↔ t = Text.ofString s := by
  have hall : ∀ c ∈ s.toList, 0 < c.toNat ∧ c.toNat < 0xfffd := by
    intro c hc
    simpa using List.all_eq_true.1 hs c hc
  constructor
  · intro h
    refine Text.mangle_eq_of_not_mem (fun hmem => ?_) (by rw [← h, code, String.toList_ofList])
    exact absurd (hall _ hmem).2 (by decide)
  · rintro rfl
    have hplain : (Text.ofString s).Plain := by
      intro x hx
      obtain ⟨c, hc, rfl⟩ := List.mem_map.1 hx
      obtain ⟨hpos, hlt⟩ := hall c hc
      exact ⟨by omega, by omega⟩
    exact ofString_inj (ofString_code_iff.2 hplain)

/-- A text is one of some words. -/
theorem code_mem_iff (words : List String) (h : words.all isWord = true) :
    code t ∈ words ↔ t ∈ words.map Text.ofString := by
  have hword := List.all_eq_true.1 h
  rw [List.mem_map]
  constructor
  · intro hmem
    exact ⟨_, hmem, ((code_eq_iff (hword _ hmem)).1 rfl).symm⟩
  · intro hmem
    obtain ⟨s, hs, rfl⟩ := hmem
    rwa [(code_eq_iff (hword s hs)).2 rfl]

/-- A letter that is no mark is read where it is. -/
theorem mem_of_mem_mangle {c : Char} (hc : c ≠ replacement) (h : c ∈ t.mangle) :
    Letter.char c ∈ t := by
  obtain ⟨x, hx, hcx⟩ := List.mem_flatMap.1 h
  obtain ⟨d, rfl, hd⟩ | ⟨n, hn⟩ := Text.mangle_cases x
  · rw [hd, List.mem_singleton] at hcx
    rwa [hcx]
  · rw [hn] at hcx
    exact absurd (List.eq_of_mem_replicate hcx) hc

theorem mangle_append (t t' : Text) : Text.mangle (t ++ t') = t.mangle ++ t'.mangle :=
  List.flatMap_append

theorem mangle_char_cons {c : Char} (h : (Letter.char c).Plain) :
    Text.mangle (.char c :: t) = c :: Text.mangle t := by
  rw [Text.mangle_cons, Text.mangle_of_plain h, List.singleton_append]

theorem mangle_eq_nil_iff : t.mangle = [] ↔ t = [] := by
  refine ⟨fun h => ?_, fun h => by rw [h]; rfl⟩
  rcases t with _ | ⟨x, t⟩
  · rfl
  · rw [Text.mangle_cons] at h
    have hx := (List.append_eq_nil_iff.1 h).1
    obtain ⟨d, -, hd⟩ | ⟨n, hn⟩ := Text.mangle_cases x
    · exact absurd (hd.symm.trans hx) (List.cons_ne_nil _ _)
    · exact absurd (hn.symm.trans hx) (List.cons_ne_nil _ _)

end Code

/-! ## Types -/

section Types

variable {c : Char} {t : Text} {l rest : List Char} {s : String} {out : Finset String}

theorem plain_primitive (h : c ∈ primitives) : (Letter.char c).Plain ∧ c ≠ 'L' ∧ c ≠ '[' ∧
    c.utf8Size = 1 := by
  simp only [primitives, List.mem_cons, List.not_mem_nil, or_false] at h
  rcases h with rfl | rfl | rfl | rfl | rfl | rfl | rfl | rfl
  all_goals exact ⟨⟨by decide, by decide⟩, by decide, by decide, rfl⟩

theorem ClassName.not_mem_mangle (n : ClassName) (h : c ∈ ['.', ';', '[']) : c ∉ n.text.mangle := by
  intro hmem
  refine n.clean c h (mem_of_mem_mangle ?_ hmem)
  rintro rfl
  exact absurd h (by decide)

theorem objectTypesFrom_skip (h : c ≠ 'L') :
    objectTypesFrom none (c :: l) = objectTypesFrom none l := by
  rw [objectTypesFrom, if_neg h]

/-- The objects in a type are found where it is written. -/
theorem objectTypesFrom_print (type : FieldType) (rest : List Char) :
    objectTypesFrom none (Text.mangle type.print ++ rest) =
      type.objects.map Text.mangle ++ objectTypesFrom none rest := by
  induction type with
  | base letter known =>
    obtain ⟨hplain, hl, -⟩ := plain_primitive known
    rw [FieldType.print, mangle_char_cons hplain, List.cons_append, objectTypesFrom_skip hl]
    rfl
  | object name =>
    have hne : Text.mangle name.text ≠ [] := fun h => name.ne_nil (mangle_eq_nil_iff.1 h)
    rw [FieldType.print, mangle_char_cons ⟨by decide, by decide⟩, mangle_append,
      mangle_char_cons ⟨by decide, by decide⟩, List.cons_append, List.append_assoc,
      objectTypesFrom, if_pos rfl]
    exact (objectTypesFrom_of_mem (name.not_mem_mangle (by decide)) []).trans
      (by rw [List.nil_append, if_neg hne]; rfl)
  | array item ih =>
    rw [FieldType.print, mangle_char_cons ⟨by decide, by decide⟩, List.cons_append,
      objectTypesFrom_skip (by decide), ih]
    rfl

theorem objectTypesFrom_params (params : List FieldType) (rest : List Char) :
    objectTypesFrom none (Text.mangle (params.flatMap FieldType.print) ++ rest) =
      (params.flatMap FieldType.objects).map Text.mangle ++ objectTypesFrom none rest := by
  induction params with
  | nil => rfl
  | cons type params ih =>
    rw [List.flatMap_cons, List.flatMap_cons, mangle_append, List.append_assoc,
      objectTypesFrom_print, ih, List.map_append, List.append_assoc]

/-- The objects in a descriptor are found. -/
theorem objectTypes_print (d : Descriptor) : objectTypes (code d.print) = d.objects.map code := by
  have hfrom : objectTypesFrom none (Text.mangle d.print) = d.objects.map Text.mangle := by
    rcases d with type | ⟨params, result⟩
    · have hprint := objectTypesFrom_print type []
      rw [List.append_nil] at hprint
      rw [Descriptor.print, hprint]
      exact List.append_nil _
    · rw [Descriptor.print, mangle_char_cons ⟨by decide, by decide⟩, mangle_append,
        mangle_char_cons ⟨by decide, by decide⟩, objectTypesFrom_skip (by decide),
        objectTypesFrom_params, objectTypesFrom_skip (by decide), Descriptor.objects,
        List.map_append]
      refine congrArg (_ ++ ·) ?_
      rcases result with _ | type
      · rfl
      · have hprint := objectTypesFrom_print type []
        rw [List.append_nil] at hprint
        rw [Option.map_some, Option.getD_some, hprint]
        simp [objectTypesFrom]
  rw [objectTypes, code, String.toList_ofList, hfrom, List.map_map]
  rfl

/-- What a constant that names a class is taken for. -/
def elementName (l : List Char) : List Char :=
  let name := l.dropWhile fun c => c = '['
  match name with
  | 'L' :: l => if l.getLast? = some ';' then l.dropLast else name
  | _ => name

theorem elementName_array : elementName ('[' :: l) = elementName l := rfl

theorem elementName_of_head (h : l.head? ≠ some '[') (h' : ';' ∉ l) : elementName l = l := by
  have hdrop : l.dropWhile (fun c => c = '[') = l := by
    rcases l with _ | ⟨c, l⟩
    · rfl
    · refine List.dropWhile_cons_of_neg ?_
      rw [decide_eq_true_iff]
      rintro rfl
      exact h rfl
  rw [elementName, hdrop]
  split
  · rename_i l hl
    refine if_neg fun hlast => h' (List.mem_cons_of_mem _ ?_)
    exact List.mem_of_getLast? hlast
  · rfl

/-- An object is taken for its name, and what is none for a letter of one byte. -/
theorem elementName_print (type : FieldType) :
    (∃ n, type.objects = [n] ∧ elementName (Text.mangle type.print) = n.mangle) ∨
      type.objects = [] ∧ ∃ c : Char, c.utf8Size = 1 ∧
        elementName (Text.mangle type.print) = [c] := by
  induction type with
  | base letter known =>
    obtain ⟨hplain, hl, hb, hsize⟩ := plain_primitive known
    refine .inr ⟨rfl, letter, hsize, ?_⟩
    have hprint : Text.mangle (FieldType.base letter known).print = [letter] :=
      mangle_char_cons hplain
    rw [hprint]
    refine elementName_of_head (fun h => hb (Option.some.inj h)) fun h => ?_
    rw [← List.mem_singleton.1 h] at known
    exact absurd known (by decide)
  | object name =>
    refine .inl ⟨name.text, rfl, ?_⟩
    rw [FieldType.print, mangle_char_cons ⟨by decide, by decide⟩, mangle_append,
      mangle_char_cons ⟨by decide, by decide⟩]
    have hlast : (name.text.mangle ++ [';']).getLast? = some ';' := List.getLast?_concat
    refine (if_pos hlast).trans ?_
    exact List.dropLast_concat
  | array item ih =>
    rw [FieldType.print, mangle_char_cons ⟨by decide, by decide⟩, elementName_array]
    exact ih

theorem mem_pushType {raw : String} : s ∈ pushType out raw ↔
    s ∈ out ∨ s = String.ofList (elementName raw.toList) ∧ 1 < s.utf8ByteSize := by
  have hpush : pushType out raw = if 1 < (String.ofList (elementName raw.toList)).utf8ByteSize then
      insert (String.ofList (elementName raw.toList)) out else out := rfl
  rw [hpush]
  split_ifs with h
  · rw [Finset.mem_insert, or_comm]
    refine or_congr_right ⟨fun hs => ⟨hs, hs ▸ h⟩, fun hs => hs.1⟩
  · refine (or_iff_left ?_).symm
    rintro ⟨rfl, hs⟩
    exact h hs

/-- What is pushed of a constant that names a class are its objects, if they are more than a
letter. -/
theorem mem_pushType_print (r : ClassRef) : s ∈ pushType ∅ (code r.print) ↔
    ∃ x ∈ r.objects, s = code x ∧ 1 < s.utf8ByteSize := by
  rw [mem_pushType, code, String.toList_ofList, or_iff_right (Finset.notMem_empty s)]
  have hname (x : Text) (he : elementName (Text.mangle r.print) = x.mangle) (ho : r.objects = [x]) :
      s = String.ofList (elementName (Text.mangle r.print)) ∧ 1 < s.utf8ByteSize ↔
        ∃ x ∈ r.objects, s = code x ∧ 1 < s.utf8ByteSize := by
    rw [he, ho]
    simp only [List.mem_singleton, exists_eq_left]
    rfl
  rcases r with n | item
  · refine hname n.text (elementName_of_head (fun h => ?_) (n.not_mem_mangle (by decide))) rfl
    exact n.not_mem_mangle (c := '[') (by decide) (List.mem_of_head? h)
  · have hprint : Text.mangle (ClassRef.array item).print = '[' :: Text.mangle item.print :=
      mangle_char_cons ⟨by decide, by decide⟩
    obtain ⟨x, ho, he⟩ | ⟨ho, c, hsize, he⟩ := elementName_print item
    · exact hname x (by rw [hprint, elementName_array, he]) ho
    · have hnone : (ClassRef.array item).objects = [] := ho
      rw [hprint, elementName_array, he, hnone]
      constructor
      · rintro ⟨rfl, hlong⟩
        rw [String.utf8ByteSize_ofList, String.utf8Len_cons, String.utf8Len_nil, hsize] at hlong
        exact absurd hlong (by decide)
      · rintro ⟨x, hx, -⟩
        exact absurd hx List.not_mem_nil

end Types

/-! ## The pool -/

section Pool

variable {α β : Type} {i : UInt16}

theorem slots_map (f : α → β) (pool : List (Const α)) :
    slots (pool.map (Const.map f)) = (slots pool).map (Option.map (Const.map f)) := by
  have hone (k : Const α) : (k.map f).slots = k.slots.map (Option.map (Const.map f)) := by
    cases k <;> rfl
  rw [slots, slots, List.map_cons, List.map_flatMap, List.flatMap_map]
  simp only [hone]
  rfl

theorem textAt_map (f : α → β) (pool : List (Const α)) :
    textAt (pool.map (Const.map f)) i = (textAt pool i).map f := by
  rw [textAt, textAt, slots_map, List.getElem?_map]
  rcases (slots pool)[i.toNat]? with _ | _ | k
  · rfl
  · rfl
  · cases k <;> rfl

theorem classAt_map (f : α → β) (pool : List (Const α)) :
    classAt (pool.map (Const.map f)) i = (classAt pool i).map f := by
  rw [classAt, classAt, slots_map, List.getElem?_map]
  rcases (slots pool)[i.toNat]? with _ | _ | k
  · rfl
  · rfl
  · cases k
    case cls name => exact textAt_map f pool
    all_goals rfl

/-- A constant is in a slot if it is in the pool. -/
theorem some_mem_slots {k : Const α} {pool : List (Const α)} : some k ∈ slots pool ↔ k ∈ pool := by
  rw [slots, List.mem_cons, List.mem_flatMap]
  constructor
  · intro h
    obtain ⟨k', hk', hmem⟩ := h.resolve_left (Option.some_ne_none k)
    obtain h | h := List.mem_cons.1 hmem
    · exact Option.some.inj h ▸ hk'
    · exact absurd (List.eq_of_mem_replicate h) (Option.some_ne_none k)
  · intro h
    exact .inr ⟨k, h, List.mem_cons_self⟩

/-- A number of 32 bits is zero if it is so with a sign. -/
theorem bmod_eq_zero_iff (n : UInt32) : Int.bmod n.toNat (2 ^ 32) = 0 ↔ n = 0 := by
  rw [← UInt32.toNat_inj, UInt32.toNat_zero, ← Int.dvd_iff_bmod_eq_zero, Int.natCast_dvd_natCast]
  exact ⟨fun h => Nat.eq_zero_of_dvd_of_lt h n.toNat_lt, fun h => h ▸ Nat.dvd_zero _⟩

end Pool

/-- The number in a slot, with its sign. -/
def signed {τ : Type} : Option (Const τ) → Option ℤ
  | some (.integer n) => some (Int.bmod n.toNat (2 ^ 32))
  | _ => none

namespace JavaClass

variable (c : JavaClass)

theorem utf8_cps (i : UInt16) : utf8 c.doc.cps i.toNat = (textAt c.texts i).map code := by
  have hcode : fromUtf8Lossy ∘ Text.write = code := funext fromUtf8Lossy_write
  rw [cps, utf8_keep, c.pool_eq, textAt_map, Option.map_map, hcode]

theorem className_cps (i : UInt16) :
    className c.doc.cps i.toNat = (classAt c.texts i).map code := by
  have hcode : fromUtf8Lossy ∘ Text.write = code := funext fromUtf8Lossy_write
  rw [cps, className_keep, c.pool_eq, classAt_map, Option.map_map, hcode]

theorem integer_cps (i : UInt16) :
    integer c.doc.cps i.toNat = ((slots c.texts)[i.toNat]?).bind signed := by
  rw [integer, cps, c.pool_eq, slots_map, List.getElem?_map, List.getElem?_map]
  rcases (slots c.texts)[i.toNat]? with _ | _ | k
  · rfl
  · rfl
  · cases k <;> rfl

theorem flag_cps (i : UInt16) : flag c.doc.cps i.toNat = flagAt c.texts i := by
  rw [flagAt, flag, integer_cps]
  rcases (slots c.texts)[i.toNat]? with _ | _ | k
  · rfl
  · rfl
  · cases k
    case integer n =>
      rw [Option.bind_some, signed, Option.getD_some, decide_eq_decide, ne_eq, ne_eq,
        bmod_eq_zero_iff]
    all_goals rfl

theorem nonEmpty_cps (i : UInt16) :
    nonEmpty c.doc.cps i.toNat = ((textAt c.texts i).filter fun t => t ≠ []).map code := by
  rw [nonEmpty, utf8_cps]
  rcases textAt c.texts i with _ | t
  · rfl
  · by_cases h : t = []
    · rw [h]
      rfl
    · have hne : code t ≠ "" := fun he => h (mangle_eq_nil_iff.1 (String.ofList_eq_empty_iff.1 he))
      rw [Option.map_some, Option.filter_some_pos (by simpa using hne),
        Option.filter_some_pos (by simpa using h), Option.map_some]

end JavaClass

/-! ## Values -/

section Values

variable {v : Value} {items : List Value} {t : Text} {x : Letter}

theorem classIndicesOf_cons (v : Value) (items : List Value) :
    classIndicesOf (readItems (v :: items)) =
      (v.read.map classIndices).getD [] ++ classIndicesOf (readItems items) := by
  rw [readItems]
  rcases v.read with _ | e <;> rfl

theorem stringIndicesOf_cons (v : Value) (items : List Value) :
    stringIndicesOf (readItems (v :: items)) =
      (v.read.map stringIndices).getD [] ++ stringIndicesOf (readItems items) := by
  rw [readItems]
  rcases v.read with _ | e <;> rfl

/-- The classes of a value are those that are kept of it. -/
theorem classIndices_read (h : v.Fits) :
    (v.read.map classIndices).getD [] = v.classes.map UInt16.toNat := by
  induction h with
  | const known index => rfl
  | enum type name => rfl
  | cls desc => rfl
  | nested type few values ih => rfl
  | @array items few values ih =>
    have hitems : classIndicesOf (readItems items) = (classesOf items).map UInt16.toNat := by
      clear few values
      induction items with
      | nil => rfl
      | cons v items ihitems =>
        obtain ⟨hv, hitems⟩ := List.forall_mem_cons.1 ih
        rw [classIndicesOf_cons, hv, ihitems hitems, classesOf, List.map_append]
    exact hitems

theorem stringIndices_read (h : v.Fits) :
    (v.read.map stringIndices).getD [] = v.strings.map UInt16.toNat := by
  induction h with
  | @const tag known index =>
    have hone : (if tag = 's'.toUInt8 then [index.toNat] else []) =
        (if tag = 's'.toUInt8 then [index] else []).map UInt16.toNat := by
      split_ifs <;> rfl
    exact hone
  | enum type name => rfl
  | cls desc => rfl
  | nested type few values ih => rfl
  | @array items few values ih =>
    have hitems : stringIndicesOf (readItems items) = (stringsOf items).map UInt16.toNat := by
      clear few values
      induction items with
      | nil => rfl
      | cons v items ihitems =>
        obtain ⟨hv, hitems⟩ := List.forall_mem_cons.1 ih
        rw [stringIndicesOf_cons, hv, ihitems hitems, stringsOf, List.map_append]
    exact hitems

/-- A name in a descriptor ends where it is read to end. -/
theorem mangle_end (t : Text) :
    (Text.mangle t).getLast? = some ';' ↔ t.getLast? = some (.char ';') := by
  obtain rfl | ⟨w, x, rfl⟩ := t.eq_nil_or_concat
  · exact iff_of_false (fun h => Option.some_ne_none _ h.symm) fun h => Option.some_ne_none _ h.symm
  rw [List.concat_eq_append, mangle_append, List.getLast?_concat, Option.some_inj]
  have hone : Text.mangle [x] = x.mangle := List.append_nil _
  rw [hone]
  obtain ⟨c, rfl, hc⟩ | ⟨n, hn⟩ := Text.mangle_cases x
  · rw [hc, List.getLast?_concat, Option.some_inj, Letter.char.injEq]
  · rw [hn, List.replicate_succ', ← List.append_assoc, List.getLast?_concat, Option.some_inj]
    refine iff_of_false (by decide) ?_
    rintro rfl
    have hplain : (Letter.char ';').Plain := ⟨by decide, by decide⟩
    rw [Text.mangle_of_plain hplain] at hn
    exact absurd (List.cons.inj hn).1 (by decide)

theorem dropLast_mangle (h : t.getLast? = some (.char ';')) :
    (Text.mangle t).dropLast = Text.mangle t.dropLast := by
  obtain ⟨w, rfl⟩ := List.getLast?_eq_some_iff.1 h
  have hone : Text.mangle [.char ';'] = [';'] := rfl
  rw [mangle_append, hone, List.dropLast_concat, List.dropLast_concat]

theorem descriptorBinaryName_L (l : List Char) : descriptorBinaryName (String.ofList ('L' :: l)) =
    if l.getLast? = some ';' ∧ l.dropLast ≠ [] then some (String.ofList l.dropLast) else none := by
  rw [descriptorBinaryName, String.toList_ofList]
  rfl

theorem descriptorBinaryName_of_ne {d : Char} (l : List Char) (h : d ≠ 'L') :
    descriptorBinaryName (String.ofList (d :: l)) = none := by
  rw [descriptorBinaryName, String.toList_ofList]
  split
  · rename_i heq
    exact absurd (List.cons.inj heq).1 h
  · rfl

theorem objectName_of_ne (t : Text) (h : x ≠ .char 'L') : objectName (x :: t) = none := by
  rw [objectName]
  intro l hl
  exact absurd (List.cons.inj hl).1 h

/-- The name in a descriptor is found as it is read. -/
theorem descriptorBinaryName_code (t : Text) :
    descriptorBinaryName (code t) = (objectName t).map code := by
  rcases t with _ | ⟨x, t⟩
  · rfl
  rw [code, Text.mangle_cons]
  obtain ⟨c, rfl, hc⟩ | ⟨n, hn⟩ := Text.mangle_cases x
  · rw [hc, List.singleton_append]
    by_cases hl : c = 'L'
    · rw [hl, descriptorBinaryName_L, objectName]
      by_cases hend : t.getLast? = some (.char ';')
      · rw [dropLast_mangle hend]
        by_cases hnil : t.dropLast = []
        · rw [if_neg fun h => h.2 (mangle_eq_nil_iff.2 hnil), if_neg fun h => h.2 hnil]
          rfl
        · rw [if_pos ⟨(mangle_end t).2 hend, fun h => hnil (mangle_eq_nil_iff.1 h)⟩,
            if_pos ⟨hend, hnil⟩]
          rfl
      · rw [if_neg fun h => hend ((mangle_end t).1 h.1), if_neg fun h => hend h.1]
        rfl
    · rw [descriptorBinaryName_of_ne _ hl, objectName_of_ne _ fun h => hl (Letter.char.inj h)]
      rfl
  · have hne : x ≠ .char 'L' := by
      rintro rfl
      exact absurd (List.cons.inj hn).1 (by decide)
    rw [hn, List.replicate_succ, List.cons_append, descriptorBinaryName_of_ne _ (by decide),
      objectName_of_ne _ hne]
    rfl

/-- A name in the source is one of a class, as it is read. -/
theorem mangle_slashes (t : Text) :
    Text.mangle (t.map fun x => if x = .char '.' then .char '/' else x) =
      (Text.mangle t).map fun c => if c = '.' then '/' else c := by
  induction t with
  | nil => rfl
  | cons x t ih =>
    rw [List.map_cons, Text.mangle_cons, Text.mangle_cons, List.map_append, ih]
    refine congrArg (· ++ _) ?_
    by_cases hdot : x = .char '.'
    · rw [if_pos hdot, hdot]
      rfl
    rw [if_neg hdot]
    by_cases hplain : x.Plain
    · rcases x with c | n
      · have hc : c ≠ '.' := fun h => hdot (h ▸ rfl)
        rw [Text.mangle_of_plain hplain, List.map_singleton, if_neg hc]
      · exact hplain.elim
    · obtain ⟨n, hn⟩ := Text.mangle_of_not_plain hplain
      rw [hn, List.map_replicate, if_neg (by decide)]

end Values

end Smrt
