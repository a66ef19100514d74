import Smrt.Authoring.ClassTexts
import Smrt.Lib.Gather

/-!
# What is read of a class

What the parser makes of a class that is written is what the class says (`Undone`), but for what
its texts and its names do not allow (`undone_iff`): a text with characters that modified UTF-8
writes in its own way is not read as it is; a class whose name is one letter of one byte is taken
for a primitive type where a constant names it; and any enumerator in an annotation of a side is
taken for the side that is its value.
-/

namespace Smrt

open ClassDoc ClassFile

/-! ## Annotations -/

namespace JavaClass

variable (c : JavaClass) {a : ClassDoc.Annotation} {l : List ClassDoc.Annotation}
  {p : UInt16 × Value} {ann : ModAnnotation}

/-- An element as it is kept. -/
def kept (p : UInt16 × Value) : ℕ × Option ElemValue := (p.1.toNat, p.2.read)


section ModValues

variable {n i : UInt16} {tag kind : UInt8} {t : Text}

/-- What a constant says of a mod, by its name. -/
theorem scanModValue_const (h : textAt c.texts n = some t) :
    scanModValue c.doc.cps ann (kept (n, .const tag i)) =
      if t = .ofString "modid" ∧ tag = 's'.toUInt8 then
        { ann with modid := nonEmpty c.doc.cps i.toNat }
      else if t = .ofString "clientSideOnly" ∧ tag = 'Z'.toUInt8 then
        { ann with sides := (flag c.doc.cps i.toNat, ann.sides.2) }
      else if t = .ofString "serverSideOnly" ∧ tag = 'Z'.toUInt8 then
        { ann with sides := (ann.sides.1, flag c.doc.cps i.toNat) }
      else if t = .ofString "acceptableRemoteVersions" ∧ tag = 's'.toUInt8 then
        { ann with acceptableRemoteVersions := nonEmpty c.doc.cps i.toNat }
      else ann := by
  have hkept : kept (n, .const tag i) = (n.toNat, some (.prim tag i.toNat)) := rfl
  rw [scanModValue, hkept, utf8_cps, h]
  simp only [Option.map_some, code_eq_iff (s := "modid") rfl,
    code_eq_iff (s := "clientSideOnly") rfl, code_eq_iff (s := "serverSideOnly") rfl,
    code_eq_iff (s := "acceptableRemoteVersions") rfl]

/-- A name that is not there, or a value that is no constant, says nothing. -/
theorem scanModValue_none (h : ∀ tag i t, p.2 = .const tag i → textAt c.texts p.1 ≠ some t) :
    scanModValue c.doc.cps ann (kept p) = ann := by
  obtain ⟨n, v⟩ := p
  rw [scanModValue, kept, utf8_cps]
  rcases ht : textAt c.texts n with _ | t
  · rfl
  · rcases v with ⟨tag, i⟩ | ⟨type, i⟩ | i | ⟨type, pairs⟩ | items
    · exact absurd ht (h tag i t rfl)
    all_goals rfl

/-- A part of what is known of a mod is set by the constants of a name and a kind. -/
theorem foldl_scanModValue {β : Type} (get : ModAnnotation → β) (name : String) (kind : UInt8)
    (value : UInt16 → β)
    (h : ∀ ann n tag i t, textAt c.texts n = some t →
      get (scanModValue c.doc.cps ann (kept (n, .const tag i))) =
        if t = .ofString name ∧ tag = kind then value i else get ann)
    (a : ClassDoc.Annotation) : get (a.read.2.foldl (scanModValue c.doc.cps) {}) =
      ((element c.texts a name (Value.constant kind)).map value).getD (get {}) := by
  have hone (ann : ModAnnotation) (p : UInt16 × Value) :
      get (scanModValue c.doc.cps ann (kept p)) =
        ((if textAt c.texts p.1 = some (.ofString name) then Value.constant kind p.2
          else none).map value).getD (get ann) := by
    obtain ⟨n, v⟩ := p
    by_cases hknown : ∃ tag i t, v = .const tag i ∧ textAt c.texts n = some t
    · obtain ⟨tag, i, t, rfl, ht⟩ := hknown
      rw [h ann n tag i t ht, ht, Value.constant, ← ite_and]
      simp only [Option.some_inj]
      split_ifs <;> rfl
    · rw [c.scanModValue_none fun tag i t hv ht => hknown ⟨tag, i, t, hv, ht⟩]
      by_cases ht : textAt c.texts n = some (.ofString name)
      · rw [if_pos ht]
        rcases v with ⟨tag, i⟩ | ⟨type, i⟩ | i | ⟨type, pairs⟩ | items
        · exact absurd ⟨tag, i, _, rfl, ht⟩ hknown
        all_goals rfl
      · rw [if_neg ht]
        rfl
  have hread : a.read.2 = a.pairs.map kept := rfl
  rw [hread, List.foldl_map, foldl_last get hone, element, ← List.getLast?_map, List.map_filterMap]

theorem modid_read (a : ClassDoc.Annotation) :
    (a.read.2.foldl (scanModValue c.doc.cps) {}).modid = (statedId c.texts a).map code := by
  rw [c.foldl_scanModValue ModAnnotation.modid "modid" 's'.toUInt8
    (fun i => nonEmpty c.doc.cps i.toNat), statedId]
  · rcases element c.texts a "modid" (Value.constant 's'.toUInt8) with _ | i
    · rfl
    · exact c.nonEmpty_cps i
  · intro ann n tag i t ht
    rw [c.scanModValue_const ht]
    by_cases h : t = .ofString "modid" ∧ tag = 's'.toUInt8
    · rw [if_pos h, if_pos h]
    · rw [if_neg h, if_neg h]
      split_ifs <;> rfl

theorem sides_read (a : ClassDoc.Annotation) :
    (a.read.2.foldl (scanModValue c.doc.cps) {}).sides = statedSides c.texts a := by
  have hflag (o : Option UInt16) :
      (o.map fun i => flag c.doc.cps i.toNat).getD false = o.any (flagAt c.texts) := by
    rcases o with _ | i
    · rfl
    · exact c.flag_cps i
  have hclient : (a.read.2.foldl (scanModValue c.doc.cps) {}).sides.1 =
      (statedSides c.texts a).1 := by
    rw [c.foldl_scanModValue (fun ann => ann.sides.1) "clientSideOnly" 'Z'.toUInt8
      (fun i => flag c.doc.cps i.toNat)]
    · exact hflag _
    · intro ann n tag i t ht
      rw [c.scanModValue_const ht]
      by_cases h : t = .ofString "clientSideOnly" ∧ tag = 'Z'.toUInt8
      · rw [if_neg fun hm => absurd (ofString_inj (h.1.symm.trans hm.1)) (by decide), if_pos h,
          if_pos h]
      · rw [if_neg h, if_neg h]
        split_ifs <;> rfl
  have hserver : (a.read.2.foldl (scanModValue c.doc.cps) {}).sides.2 =
      (statedSides c.texts a).2 := by
    rw [c.foldl_scanModValue (fun ann => ann.sides.2) "serverSideOnly" 'Z'.toUInt8
      (fun i => flag c.doc.cps i.toNat)]
    · exact hflag _
    · intro ann n tag i t ht
      rw [c.scanModValue_const ht]
      by_cases h : t = .ofString "serverSideOnly" ∧ tag = 'Z'.toUInt8
      · rw [if_neg fun hm => absurd (ofString_inj (h.1.symm.trans hm.1)) (by decide),
          if_neg fun hm => absurd (ofString_inj (h.1.symm.trans hm.1)) (by decide), if_pos h,
          if_pos h]
      · rw [if_neg h]
        split_ifs <;> rfl
  exact Prod.ext hclient hserver

end ModValues

/-- What the parser takes of an element of a mixin. -/
theorem scanMixinValue_kept (h : p.2.Fits) : scanMixinValue c.doc.cps (kept p) =
    (if textAt c.texts p.1 = some (.ofString "value") then
      p.2.classes.filterMap fun i => (textAt c.texts i).bind objectName
    else if textAt c.texts p.1 = some (.ofString "targets") then
      ((p.2.strings.filterMap (textAt c.texts)).filter fun t => t ≠ []).map fun t =>
        t.map fun x => if x = .char '.' then .char '/' else x
    else []).map code := by
  obtain ⟨n, v⟩ := p
  have hclasses : ((v.read.map classIndices).getD []).filterMap (fun i =>
      (utf8 c.doc.cps i).bind descriptorBinaryName) =
      (v.classes.filterMap fun i => (textAt c.texts i).bind objectName).map code := by
    have hone : (fun i : UInt16 => (utf8 c.doc.cps i.toNat).bind descriptorBinaryName) =
        fun i => ((textAt c.texts i).bind objectName).map code := by
      funext i
      rw [utf8_cps]
      rcases textAt c.texts i with _ | t
      · rfl
      · exact descriptorBinaryName_code t
    rw [classIndices_read h, List.filterMap_map, List.map_filterMap]
    exact congrArg (fun f => v.classes.filterMap f) hone
  have hstrings : (((v.read.map stringIndices).getD []).filterMap (nonEmpty c.doc.cps)).map
      (fun s => String.ofList (s.toList.map fun c => if c = '.' then '/' else c)) =
      (((v.strings.filterMap (textAt c.texts)).filter fun t => t ≠ []).map fun t =>
        t.map fun x => if x = .char '.' then .char '/' else x).map code := by
    have hone : nonEmpty c.doc.cps ∘ UInt16.toNat =
        fun i => ((textAt c.texts i).filter fun t => t ≠ []).map code := funext c.nonEmpty_cps
    rw [stringIndices_read h, List.filterMap_map, hone, ← List.map_filterMap, List.filter_filterMap,
      List.map_map, List.map_map]
    refine List.map_congr_left fun t _ => ?_
    refine congrArg String.ofList ?_
    rw [code, String.toList_ofList]
    exact (mangle_slashes t).symm
  have hkept : kept (n, v) = (n.toNat, v.read) := rfl
  rw [hkept, scanMixinValue, utf8_cps]
  rcases textAt c.texts n with _ | t
  · rfl
  rcases hv : v.read with _ | e
  all_goals
    rw [hv] at hclasses hstrings
    simp only [Option.map_some, Option.some_inj, code_eq_iff (s := "value") rfl,
      code_eq_iff (s := "targets") rfl]
    split_ifs
    · exact hclasses
    · exact hstrings
    · rfl

/-- The side that is read of an annotation is that of any enumerator in it. -/
theorem dist_read (a : ClassDoc.Annotation) :
    a.read.2.foldl (scanDistValue c.doc.cps) none = anySide c.texts a := by
  have hone (dist : Option Dist) (p : UInt16 × Value) :
      scanDistValue c.doc.cps dist (kept p) =
        (p.2.enumName.map fun i => (textAt c.texts i).bind sideNamed).getD dist := by
    obtain ⟨n, v⟩ := p
    rcases v with ⟨tag, i⟩ | ⟨type, i⟩ | i | ⟨type, pairs⟩ | items
    case enum =>
      have hkept : kept (n, .enum type i) = (n.toNat, some (.enum i.toNat)) := rfl
      rw [hkept, scanDistValue]
      dsimp only
      rw [utf8_cps]
      rcases ht : textAt c.texts i with _ | t
      · simp only [Value.enumName, Option.map_some, Option.map_none, ht]
        rfl
      · simp only [Value.enumName, Option.map_some, ht, code_eq_iff (s := "CLIENT") rfl,
          code_eq_iff (s := "SERVER") rfl, code_eq_iff (s := "DEDICATED_SERVER") rfl]
        rfl
    all_goals rfl
  have hside (o : Option UInt16) :
      (o.map fun i => (textAt c.texts i).bind sideNamed).getD none =
        (o.bind (textAt c.texts)).bind sideNamed := by
    rcases o with _ | i <;> rfl
  have hread : a.read.2 = a.pairs.map kept := rfl
  rw [hread, List.foldl_map, foldl_last (fun dist => dist) hone, ← List.map_filterMap,
    List.getLast?_map]
  exact hside _

/-! ## Attributes -/

section Kinds

variable {i : UInt16} {names names' : List String}

/-- A text is not one of these words and one of those. -/
theorem isOneOf_disjoint (h : ∀ s ∈ names, s ∉ names') (hi : isOneOf c.texts names i = true) :
    isOneOf c.texts names' i = false := by
  rw [isOneOf] at hi ⊢
  obtain ⟨t, ht, hmem⟩ := (Option.any_eq_true _ _).1 hi
  rw [ht, Option.any_some, decide_eq_false_iff_not]
  intro hmem'
  obtain ⟨s, hs, rfl⟩ := List.mem_map.1 (of_decide_eq_true hmem)
  obtain ⟨s', hs', heq⟩ := List.mem_map.1 hmem'
  exact h s hs (ofString_inj heq ▸ hs')

/-- What an annotation of each kind adds. -/
theorem scanOne_read (out : Scanned) (a : ClassDoc.Annotation) :
    scanOne c.doc.cps out a.read =
      if c.isMod a then
        { out with modAnnotation := some (a.read.2.foldl (scanModValue c.doc.cps) {}) }
      else if c.isMixin a then
        { out with mixinTargets := out.mixinTargets ++ a.read.2.flatMap (scanMixinValue c.doc.cps) }
      else if c.isDist a ∧ out.dist = none then
        { out with dist := a.read.2.foldl (scanDistValue c.doc.cps) out.dist }
      else out := by
  have htype : a.read.1 = a.type.toNat := rfl
  rw [scanOne, htype, utf8_cps, isMod, isMixin, isDist, isOneOf, isOneOf, isOneOf]
  rcases textAt c.texts a.type with _ | t
  · rfl
  · have hmixin : code t = mixinDescriptor ↔ t ∈ [mixinDescriptor].map Text.ofString := by
      rw [← code_mem_iff [mixinDescriptor] (by decide +kernel), List.mem_singleton]
    simp only [Option.map_some, Option.any_some, decide_eq_true_iff, hmixin,
      code_mem_iff modDescriptors (by decide +kernel),
      code_mem_iff distDescriptors (by decide +kernel)]

end Kinds

section Scanned

variable (l : List ClassDoc.Annotation)

/-- The last annotation of a mod is read. -/
theorem modAnnotation_scanned : Scanned.modAnnotation (scanned c.doc.cps l) =
    (c.modAnnotation l).map fun a => a.read.2.foldl (scanModValue c.doc.cps) {} := by
  have hone (out : Scanned) (a : ClassDoc.Annotation) :
      Scanned.modAnnotation (scanOne c.doc.cps out a.read) =
        ((if c.isMod a then some a else none).map fun a =>
          some (a.read.2.foldl (scanModValue c.doc.cps) {})).getD out.modAnnotation := by
    rw [scanOne_read]
    split_ifs <;> rfl
  have hsome (o : Option ClassDoc.Annotation) :
      (o.map fun a => some (a.read.2.foldl (scanModValue c.doc.cps) {})).getD none =
        o.map fun a => a.read.2.foldl (scanModValue c.doc.cps) {} := by
    rcases o with _ | a <;> rfl
  rw [scanned, List.foldl_map, foldl_last Scanned.modAnnotation hone, ← List.map_filterMap,
    List.getLast?_map, filterMap_ite]
  exact hsome _

/-- No annotation of a side is one of a mod or of a mixin. -/
theorem not_isDist {a : ClassDoc.Annotation} (h : c.isMod a = true ∨ c.isMixin a = true) :
    c.isDist a = false := by
  obtain h | h := h
  · exact c.isOneOf_disjoint (by decide +kernel) h
  · exact c.isOneOf_disjoint (by decide +kernel) h

theorem not_isMod {a : ClassDoc.Annotation} (h : c.isMixin a = true) : c.isMod a = false :=
  c.isOneOf_disjoint (by decide +kernel) h

/-- The first side that is named is read. -/
theorem dist_scanned : (scanned c.doc.cps l).dist =
    (l.filter c.isDist).findSome? (anySide c.texts) := by
  have hone (out : Scanned) (a : ClassDoc.Annotation) : (scanOne c.doc.cps out a.read).dist =
      out.dist.or (if c.isDist a then anySide c.texts a else none) := by
    rw [scanOne_read]
    by_cases hmod : c.isMod a = true
    · rw [if_pos hmod, c.not_isDist (.inl hmod), if_neg Bool.false_ne_true, Option.or_none]
    by_cases hmixin : c.isMixin a = true
    · rw [if_neg hmod, if_pos hmixin, c.not_isDist (.inr hmixin), if_neg Bool.false_ne_true,
        Option.or_none]
    rw [if_neg hmod, if_neg hmixin]
    by_cases hdist : c.isDist a = true
    · rw [if_pos hdist]
      rcases hout : out.dist with _ | side
      · rw [if_pos ⟨hdist, rfl⟩, Option.none_or]
        exact c.dist_read a
      · rw [if_neg fun h => Option.some_ne_none _ h.2, Option.some_or, hout]
    · rw [if_neg fun h => hdist h.1, if_neg hdist, Option.or_none]
  rw [scanned, List.foldl_map, foldl_first Scanned.dist hone, findSome?_filter]
  exact Option.none_or

theorem flatMap_scanMixinValue (a : ClassDoc.Annotation) :
    a.read.2.flatMap (scanMixinValue c.doc.cps) = (statedTargets c.texts a).map code := by
  have hread : a.read.2 = a.pairs.map kept := rfl
  rw [hread, List.flatMap_map, statedTargets, List.map_flatMap]
  exact List.flatMap_congr fun p hp => c.scanMixinValue_kept (a.fits p hp)

/-- All classes that mixins patch are read. -/
theorem mixinTargets_scanned : (scanned c.doc.cps l).mixinTargets =
    ((l.filter c.isMixin).flatMap (statedTargets c.texts)).map code := by
  have hone (out : Scanned) (a : ClassDoc.Annotation) :
      (scanOne c.doc.cps out a.read).mixinTargets =
        out.mixinTargets ++ if c.isMixin a then (statedTargets c.texts a).map code else [] := by
    rw [scanOne_read]
    by_cases hmixin : c.isMixin a = true
    · rw [if_neg (Bool.eq_false_iff.1 (c.not_isMod hmixin)), if_pos hmixin, if_pos hmixin,
        flatMap_scanMixinValue]
    · rw [if_neg hmixin, if_neg hmixin, List.append_nil]
      split_ifs <;> rfl
  rw [scanned, List.foldl_map, foldl_grows Scanned.mixinTargets hone, flatMap_filter,
    List.map_flatMap]
  rfl

end Scanned

/-! ## The annotations of the class -/

theorem facts_eq : c.doc.facts =
    c.annotations.foldl (fun f l => f.add (scanned c.doc.cps l)) {} := by
  have hone (f : Facts) (a : ClassAttribute) :
      attributeFacts c.doc.cps f a = f.add (scanned c.doc.cps a.list) := by
    rcases a with a | ⟨name, s, few⟩
    · have hnone : scanned c.doc.cps (ClassAttribute.other a).list = {} := rfl
      rw [hnone, Facts.add]
      simp only [Option.map_none, Option.bind_none, Option.none_or, Option.or_none,
        List.append_nil]
      rfl
    · rfl
  have heq : attributeFacts c.doc.cps = fun f a => f.add (scanned c.doc.cps a.list) := by
    funext f a
    exact hone f a
  rw [annotations, List.foldl_map, facts, heq]

theorem modSides_facts : c.doc.facts.modSides = c.modSides := by
  have hone (f : Facts) (l : List ClassDoc.Annotation) :
      (f.add (scanned c.doc.cps l)).modSides =
        (((c.modAnnotation l).map fun a => some (statedSides c.texts a)).getD f.modSides) := by
    rw [Facts.add, modAnnotation_scanned, Option.map_map]
    rcases c.modAnnotation l with _ | a
    · rfl
    · exact congrArg some (c.sides_read a)
  have hsome (o : Option ClassDoc.Annotation) :
      (o.map fun a => some (statedSides c.texts a)).getD none = o.map (statedSides c.texts) := by
    rcases o with _ | a <;> rfl
  rw [facts_eq, foldl_last Facts.modSides hone, ← List.map_filterMap, List.getLast?_map, modSides,
    modAnnotation, ← getLast?_parts]
  exact hsome _

theorem modId_facts : c.doc.facts.modId = c.modId.map code := by
  have hone (f : Facts) (l : List ClassDoc.Annotation) : (f.add (scanned c.doc.cps l)).modId =
      f.modId.or (((c.modAnnotation l).bind (statedId c.texts)).map code) := by
    rw [Facts.add, modAnnotation_scanned]
    rcases c.modAnnotation l with _ | a
    · rfl
    · exact congrArg (f.modId.or ·) (c.modid_read a)
  rw [facts_eq, foldl_first Facts.modId hone, modId, List.map_findSome?]
  exact Option.none_or

theorem dist_facts : c.doc.facts.dist =
    (c.annotations.flatten.filter c.isDist).findSome? (anySide c.texts) := by
  have hone (f : Facts) (l : List ClassDoc.Annotation) : (f.add (scanned c.doc.cps l)).dist =
      f.dist.or ((l.filter c.isDist).findSome? (anySide c.texts)) := by
    rw [Facts.add, dist_scanned]
  rw [facts_eq, foldl_first Facts.dist hone, findSome?_parts]
  exact Option.none_or

theorem mixinTargets_facts : c.doc.facts.mixinTargets = c.mixinTargets.map code := by
  have hone (f : Facts) (l : List ClassDoc.Annotation) :
      (f.add (scanned c.doc.cps l)).mixinTargets = f.mixinTargets ++
        (l.filter c.isMixin).flatMap fun a => (statedTargets c.texts a).map code := by
    rw [Facts.add, mixinTargets_scanned, List.map_flatMap]
  rw [facts_eq, foldl_grows Facts.mixinTargets hone, flatMap_parts, mixinTargets, List.map_flatMap]
  rfl

/-! ## The types of the class -/

section Types

variable {s : String} {x : Text}

theorem mem_typesAt (i : UInt16) : s ∈ typesAt c.doc.cps i.toNat ↔
    ∃ t, textAt c.texts i = some t ∧ s ∈ objectTypes (code t) := by
  rw [typesAt, utf8_cps]
  rcases textAt c.texts i with _ | t
  · exact iff_of_false (Finset.notMem_empty s) fun h => Option.some_ne_none _ h.choose_spec.1.symm
  · simp only [Option.map_some, Option.getD_some, List.mem_toFinset, Option.some.injEq,
      exists_eq_left']

/-- The types in a descriptor are those that are read of it. -/
theorem mem_typesAt_print {i : UInt16} {d : Descriptor} (h : textAt c.texts i = some d.print) :
    s ∈ typesAt c.doc.cps i.toNat ↔ ∃ x ∈ d.objects, s = code x := by
  rw [mem_typesAt, h]
  simp only [Option.some.injEq, exists_eq_left', objectTypes_print, List.mem_map]
  exact exists_congr fun x => and_congr_right fun _ => eq_comm

/-- What is kept of the constant in a slot. -/
def entry (slot : Option (Const Text)) : Cp := keep (slot.map (Const.map Text.write))

theorem cps_eq : c.doc.cps = (slots c.texts).map entry := by
  rw [cps, c.pool_eq, slots_map, List.map_map]
  rfl

/-- What a constant adds to the types. -/
theorem mem_entryFound (out : Finset String) (slot : Option (Const Text)) :
    s ∈ entryFound c.doc.cps out (entry slot) ↔ s ∈ out ∨
      ((∃ i t, slot = some (.cls i) ∧ textAt c.texts i = some t ∧ s ∈ pushType ∅ (code t)) ∨
        ∃ n i, slot = some (.nameAndType n i) ∧ s ∈ typesAt c.doc.cps i.toNat) := by
  rcases slot with _ | k
  · simp [entry, keep, entryFound]
  · rcases k
    case cls i =>
      have hentry : entry (some (.cls i)) = .cls i.toNat := rfl
      rw [hentry, entryFound, utf8_cps]
      rcases ht : textAt c.texts i with _ | t
      · simp [ht]
      · rw [Option.map_some, Option.map_some, Option.getD_some, mem_pushType]
        simp [ht, mem_pushType]
    case nameAndType n i =>
      have hentry : entry (some (.nameAndType n i)) = .nameAndType n.toNat i.toNat := rfl
      rw [hentry, entryFound, Finset.mem_union]
      simp
    all_goals simp [entry, keep, entryFound, Const.map]

theorem mem_memberTypes (l : List Member) (out : Finset String) :
    s ∈ memberTypes c.doc.cps l out ↔ s ∈ out ∨ ∃ m ∈ l, s ∈ typesAt c.doc.cps m.desc.toNat := by
  have hone (out : Finset String) (m : Member) :
      s ∈ out ∪ typesAt c.doc.cps m.desc.toNat ↔
        s ∈ out ∨ s ∈ typesAt c.doc.cps m.desc.toNat := Finset.mem_union
  rw [memberTypes]
  exact foldl_iff (Q := fun out => s ∈ out) hone l out

/-- The types that are read are those that constants name, but for letters, and those in
descriptors. -/
theorem mem_types : s ∈ c.doc.types ↔
    (∃ x, c.NamedByClass x ∧ s = code x ∧ 1 < s.utf8ByteSize) ∨
      ∃ x, c.NamedByDescriptor x ∧ s = code x := by
  have hpool : s ∈ c.doc.cps.foldl (entryFound c.doc.cps) ∅ ↔
      (∃ x, c.NamedByClass x ∧ s = code x ∧ 1 < s.utf8ByteSize) ∨
        ∃ n i, .nameAndType n i ∈ c.texts ∧ s ∈ typesAt c.doc.cps i.toNat := by
    rw [cps_eq, List.foldl_map, ← cps_eq,
      foldl_iff (Q := fun out => s ∈ out) (fun out slot => c.mem_entryFound out slot)]
    constructor
    · intro h
      obtain ⟨slot, hslot, ⟨i, t, rfl, ht, hs⟩ | ⟨n, i, rfl, hs⟩⟩ :=
        h.resolve_left (Finset.notMem_empty s)
      · obtain ⟨r, hr⟩ := c.classes i (some_mem_slots.1 hslot)
        obtain rfl := Option.some.inj (ht.symm.trans hr)
        rw [mem_pushType_print] at hs
        obtain ⟨x, hx, hsx, hlong⟩ := hs
        exact .inl ⟨x, ⟨i, r, some_mem_slots.1 hslot, hr, hx⟩, hsx, hlong⟩
      · exact .inr ⟨n, i, some_mem_slots.1 hslot, hs⟩
    · intro h
      obtain ⟨x, ⟨i, r, hi, hr, hx⟩, hsx, hlong⟩ | ⟨n, i, hi, hs⟩ := h
      · refine .inr ⟨_, some_mem_slots.2 hi, .inl ⟨i, _, rfl, hr, ?_⟩⟩
        rw [mem_pushType_print]
        exact ⟨x, hx, hsx, hlong⟩
      · exact .inr ⟨_, some_mem_slots.2 hi, .inr ⟨n, i, rfl, hs⟩⟩
  have hdesc : (∃ x, c.NamedByDescriptor x ∧ s = code x) ↔
      (∃ n i, .nameAndType n i ∈ c.texts ∧ s ∈ typesAt c.doc.cps i.toNat) ∨
        ∃ m ∈ c.doc.fields ++ c.doc.methods, s ∈ typesAt c.doc.cps m.desc.toNat := by
    constructor
    · intro h
      obtain ⟨x, ⟨i, d, ⟨n, hn⟩ | ⟨m, hm, rfl⟩, hd, hx⟩, hsx⟩ := h
      · exact .inl ⟨n, i, hn, (c.mem_typesAt_print hd).2 ⟨x, hx, hsx⟩⟩
      · exact .inr ⟨m, hm, (c.mem_typesAt_print hd).2 ⟨x, hx, hsx⟩⟩
    · intro h
      obtain ⟨n, i, hi, hs⟩ | ⟨m, hm, hs⟩ := h
      · obtain ⟨d, hd⟩ := c.signatures n i hi
        obtain ⟨x, hx, hsx⟩ := (c.mem_typesAt_print hd).1 hs
        exact ⟨x, ⟨i, d, .inl ⟨n, hi⟩, hd, hx⟩, hsx⟩
      · obtain ⟨d, hd⟩ := c.members m hm
        obtain ⟨x, hx, hsx⟩ := (c.mem_typesAt_print hd).1 hs
        exact ⟨x, ⟨m.desc, d, .inr ⟨m, hm, rfl⟩, hd, hx⟩, hsx⟩
  rw [types, mem_memberTypes, mem_memberTypes, hpool, hdesc, or_assoc, or_assoc]
  refine or_congr_right (or_congr_right ?_)
  simp only [List.mem_append, or_and_right, exists_or]

end Types

/-! ## What is read of the class -/

/-- What was read of a class is what it says. -/
structure Undone (info : ClassInfo) : Prop where
  name : c.name = some (.ofString info.thisClass)
  superName : info.superName.map Text.ofString = c.superName
  interfaces : info.interfaces.map Text.ofString = c.interfaces
  referenced : ∀ x, (∃ s ∈ info.referenced, Text.ofString s = x) ↔ c.Refers x
  modId : info.modId.map Text.ofString = c.modId
  modSides : info.modSides = c.modSides
  dist : info.dist = c.dist
  mixinTargets : info.mixinTargets.map Text.ofString = c.mixinTargets

/-- The texts that matter are plain, a type that only constants name is more than a letter, and
enumerators in the annotations of a side tell no other one. -/
structure Readable : Prop where
  name : ∀ t, c.name = some t → t.Plain
  superName : ∀ t, c.superName = some t → t.Plain
  interfaces : ∀ t ∈ c.interfaces, t.Plain
  referenced : ∀ x, c.Refers x → x.Plain
  named : ∀ x, c.Refers x → ¬ c.NamedByDescriptor x → ∀ d : Char, d.toNat < 128 → x ≠ [.char d]
  modId : ∀ t, c.modId = some t → t.Plain
  dist : (c.annotations.flatten.filter c.isDist).findSome? (anySide c.texts) = c.dist
  mixinTargets : ∀ t ∈ c.mixinTargets, t.Plain

theorem thisClass_info : some c.doc.info.thisClass = c.name.map code :=
  c.doc.className_thisClass.symm.trans (c.className_cps _)

theorem superName_info : c.doc.info.superName = c.superName.map code := by
  have hzero (h : ¬ c.doc.superClass.toNat ≠ 0) : classAt c.texts c.doc.superClass = none := by
    rw [classAt, not_not.1 h]
    rfl
  have hname : (if c.doc.superClass.toNat ≠ 0 then className c.doc.cps c.doc.superClass.toNat
      else none) = (classAt c.texts c.doc.superClass).map code := by
    split_ifs with h
    · exact c.className_cps _
    · rw [hzero h]
      rfl
  have hsuper : c.doc.info.superName = ((classAt c.texts c.doc.superClass).map code).filter
      fun s => s ≠ "java/lang/Object" := by
    rw [← hname]
    rfl
  rw [hsuper, superName]
  rcases classAt c.texts c.doc.superClass with _ | t
  · rfl
  · have hobject := code_eq_iff (t := t) (s := "java/lang/Object") rfl
    simp only [Option.map_some, Option.filter_some, ne_eq, hobject]
    split_ifs <;> rfl

theorem interfaces_info : c.doc.info.interfaces = c.interfaces.map code := by
  have hclass : className c.doc.cps ∘ UInt16.toNat = fun i => (classAt c.texts i).map code :=
    funext c.className_cps
  have hread : c.doc.info.interfaces =
      (c.doc.interfaces.map UInt16.toNat).filterMap (className c.doc.cps) := rfl
  rw [hread, List.filterMap_map, hclass, interfaces, List.map_filterMap]

section Plain

variable {o : Option Text} {l : List Text}

theorem map_code_eq_option : (o.map code).map Text.ofString = o ↔ ∀ t, o = some t → t.Plain := by
  rcases o with _ | t
  · exact iff_of_true rfl fun t h => absurd h.symm (Option.some_ne_none t)
  · simp [ofString_code_iff]

theorem map_code_eq_list : (l.map code).map Text.ofString = l ↔ ∀ t ∈ l, t.Plain := by
  induction l with
  | nil => exact iff_of_true rfl fun t h => absurd h List.not_mem_nil
  | cons t l ih =>
    rw [List.map_cons, List.map_cons, List.cons_eq_cons, ofString_code_iff, ih,
      List.forall_mem_cons]

end Plain

section Referenced

variable {x : Text} {n : Text} {s : String}

theorem ne_nil_of_namedByClass (h : c.NamedByClass x) : x ≠ [] := by
  have hobject (type : FieldType) (hx : x ∈ type.objects) : x ≠ [] := by
    induction type with
    | base letter known => exact absurd hx List.not_mem_nil
    | object name => exact List.mem_singleton.1 hx ▸ name.ne_nil
    | array item ih => exact ih hx
  obtain ⟨i, r, -, -, hx⟩ := h
  rcases r with name | item
  · exact List.mem_singleton.1 hx ▸ name.ne_nil
  · exact hobject item hx

/-- What is read of a text is more than a byte unless it is a letter of one. -/
theorem one_lt_size_iff (hx : x.Plain) (hne : x ≠ []) : 1 < (code x).utf8ByteSize ↔
    ∀ d : Char, d.toNat < 128 → x ≠ [.char d] := by
  rw [code, String.utf8ByteSize_ofList]
  rcases x with _ | ⟨y, x⟩
  · exact absurd rfl hne
  obtain ⟨hy, hx⟩ := Text.plain_cons.1 hx
  rcases y with a | n
  · have hpos := a.utf8Size_pos
    rw [mangle_char_cons hy, String.utf8Len_cons]
    rcases x with _ | ⟨z, x⟩
    · have hone : a.utf8Size = 1 ↔ a.toNat < 128 :=
        Char.utf8Size_eq_one_iff.trans Nat.lt_succ_iff.symm
      have hnil : Text.mangle [] = [] := rfl
      rw [hnil, String.utf8Len_nil]
      constructor
      · intro h d hd heq
        obtain rfl := Letter.char.inj (List.cons.inj heq).1
        have := hone.2 hd
        omega
      · intro h
        have := mt hone.1 fun ha => h a ha rfl
        omega
    · refine iff_of_true ?_ fun d _ h => List.cons_ne_nil _ _ (List.cons.inj h).2
      have hmore : Text.mangle (z :: x) ≠ [] := fun h =>
        List.cons_ne_nil _ _ (mangle_eq_nil_iff.1 h)
      obtain ⟨b, l, hl⟩ := List.exists_cons_of_ne_nil hmore
      have hb := b.utf8Size_pos
      rw [hl, String.utf8Len_cons]
      omega
  · exact hy.elim

/-- What is read of the types, where the name of the class is read. -/
theorem mem_referenced (hname : c.name = some n) : s ∈ c.doc.info.referenced ↔
    s ≠ code n ∧ ((∃ x, c.NamedByClass x ∧ s = code x ∧ 1 < s.utf8ByteSize) ∨
      ∃ x, c.NamedByDescriptor x ∧ s = code x) := by
  have hthis : c.doc.header.thisClass = code n := by
    have h := c.thisClass_info
    rw [hname] at h
    exact Option.some.inj h
  have hinfo : c.doc.info.referenced = c.doc.types.erase c.doc.header.thisClass := rfl
  rw [hinfo, hthis, Finset.mem_erase, mem_types]

/-- What is read of the types is what the class refers to. -/
theorem referenced_iff (hname : c.name = some n) (hn : n.Plain) :
    (∀ x, (∃ s ∈ c.doc.info.referenced, Text.ofString s = x) ↔ c.Refers x) ↔
      (∀ x, c.Refers x → x.Plain) ∧
        ∀ x, c.Refers x → ¬ c.NamedByDescriptor x → ∀ d : Char, d.toNat < 128 → x ≠ [.char d] := by
  constructor
  · intro h
    have hplain (x : Text) (hx : c.Refers x) : x.Plain := by
      obtain ⟨s, hs, rfl⟩ := (h x).2 hx
      obtain ⟨-, ⟨y, -, rfl, -⟩ | ⟨y, -, rfl⟩⟩ := (c.mem_referenced hname).1 hs
      · exact plain_ofString_code y
      · exact plain_ofString_code y
    refine ⟨hplain, fun x hx hno => ?_⟩
    have hclass := hx.1.resolve_right hno
    rw [← one_lt_size_iff (hplain x hx) (c.ne_nil_of_namedByClass hclass)]
    obtain ⟨s, hs, hsx⟩ := (h x).2 hx
    have hcode : s = code x := ofString_inj (hsx.trans (ofString_code_iff.2 (hplain x hx)).symm)
    obtain ⟨hne, ⟨y, -, -, hlong⟩ | ⟨y, hy, rfl⟩⟩ := (c.mem_referenced hname).1 hs
    · rwa [← hcode]
    · -- what a descriptor names is plain too, so that it is the same
      have hother : c.name ≠ some y := by
        rw [hname]
        rintro ⟨⟩
        exact hne rfl
      have hyx := ofString_code_iff.2 (hplain y ⟨.inr hy, hother⟩)
      exact absurd ((hyx.symm.trans hsx) ▸ hy) hno
  · rintro ⟨hplain, hlong⟩ x
    constructor
    · rintro ⟨s, hs, rfl⟩
      obtain ⟨hne, hs⟩ := (c.mem_referenced hname).1 hs
      have hrefers (y : Text) (hy : c.NamedByClass y ∨ c.NamedByDescriptor y) (hsy : s = code y) :
          c.Refers (Text.ofString s) := by
        have hother : c.name ≠ some y := by
          rw [hname]
          rintro ⟨⟩
          exact hne hsy
        rw [hsy, ofString_code_iff.2 (hplain y ⟨hy, hother⟩)]
        exact ⟨hy, hother⟩
      obtain ⟨y, hy, hsy, -⟩ | ⟨y, hy, hsy⟩ := hs
      · exact hrefers y (.inl hy) hsy
      · exact hrefers y (.inr hy) hsy
    · intro hx
      refine ⟨code x, (c.mem_referenced hname).2 ⟨fun h => ?_, ?_⟩,
        ofString_code_iff.2 (hplain x hx)⟩
      · exact hx.2 (hname.trans (congrArg some (code_inj hn (hplain x hx) h.symm)))
      · by_cases hdesc : c.NamedByDescriptor x
        · exact .inr ⟨x, hdesc, rfl⟩
        · have hclass := hx.1.resolve_right hdesc
          exact .inl ⟨x, hclass, rfl, (one_lt_size_iff (hplain x hx)
            (c.ne_nil_of_namedByClass hclass)).2 (hlong x hx hdesc)⟩

end Referenced

/-- Parsing a class undoes writing it exactly if the class is readable. -/
theorem undone_iff : (∃ info, (parseClass c.doc.write).1 = .ok info ∧ c.Undone info) ↔
    c.Readable := by
  have hread : (∃ info, (parseClass c.doc.write).1 = .ok info ∧ c.Undone info) ↔
      c.Undone c.doc.info := by
    rw [parseClass_write]
    constructor
    · rintro ⟨info, hinfo, h⟩
      exact Except.ok.inj hinfo ▸ h
    · exact fun h => ⟨_, rfl, h⟩
  obtain ⟨n, hn, hthis⟩ := Option.map_eq_some_iff.1 c.thisClass_info.symm
  have hname : c.name = some (.ofString c.doc.info.thisClass) ↔ ∀ t, c.name = some t → t.Plain := by
    rw [← hthis, hn]
    simp only [Option.some_inj, forall_eq', ← ofString_code_iff (t := n)]
    exact eq_comm
  have hsuper : c.doc.info.superName.map Text.ofString = c.superName ↔
      ∀ t, c.superName = some t → t.Plain := by
    rw [superName_info, map_code_eq_option]
  have hinterfaces : c.doc.info.interfaces.map Text.ofString = c.interfaces ↔
      ∀ t ∈ c.interfaces, t.Plain := by
    rw [interfaces_info, map_code_eq_list]
  have hmodId : c.doc.info.modId.map Text.ofString = c.modId ↔
      ∀ t, c.modId = some t → t.Plain := by
    rw [← map_code_eq_option, ← modId_facts]
    rfl
  have htargets : c.doc.info.mixinTargets.map Text.ofString = c.mixinTargets ↔
      ∀ t ∈ c.mixinTargets, t.Plain := by
    rw [← map_code_eq_list, ← mixinTargets_facts]
    rfl
  rw [hread]
  constructor
  · intro h
    have hplain := hname.1 h.name
    obtain ⟨hrefers, hnamed⟩ := (c.referenced_iff hn (hplain n hn)).1 h.referenced
    exact ⟨hplain, hsuper.1 h.superName, hinterfaces.1 h.interfaces, hrefers, hnamed,
      hmodId.1 h.modId, c.dist_facts.symm.trans h.dist, htargets.1 h.mixinTargets⟩
  · intro h
    exact ⟨hname.2 h.name, hsuper.2 h.superName, hinterfaces.2 h.interfaces,
      (c.referenced_iff hn (h.name n hn)).2 ⟨h.referenced, h.named⟩, hmodId.2 h.modId,
      c.modSides_facts, c.dist_facts.trans h.dist, htargets.2 h.mixinTargets⟩

/-- A class of one letter that only constants name is not read. -/
theorem not_undone_of_letter {n : Text} (hname : c.name = some n) (hn : n.Plain) {d : Char}
    (hd : d.toNat < 128) (hx : c.Refers [.char d]) (hno : ¬ c.NamedByDescriptor [.char d]) :
    ¬ ∃ info, (parseClass c.doc.write).1 = .ok info ∧ c.Undone info := by
  rw [parseClass_write]
  rintro ⟨info, hinfo, h⟩
  have hrefers := h.referenced
  rw [← Except.ok.inj hinfo] at hrefers
  exact ((c.referenced_iff hname hn).1 hrefers).2 _ hx hno d hd rfl

def letterTexts : List (Const Text) :=
  [.utf8 (.ofString "a/B"), .cls 1, .utf8 (.ofString "A"), .cls 3]

/-- A class that names one of a letter. -/
def namesLetter : JavaClass where
  texts := letterTexts
  doc :=
    { minor := 0
      major := 52
      pool := letterTexts.map (Const.map Text.write)
      access := 0
      thisClass := 2
      superClass := 0
      interfaces := []
      fields := []
      methods := []
      attributes := []
      texts_fit := by
        intro k hk
        simp only [letterTexts, List.map_cons, List.map_nil, Const.map, List.mem_cons,
          List.not_mem_nil, or_false] at hk
        rcases hk with rfl | rfl | rfl | rfl
        · exact (by decide : (Text.ofString "a/B").write.length < 2 ^ 16)
        · trivial
        · exact (by decide : (Text.ofString "A").write.length < 2 ^ 16)
        · trivial
      pool_few := by decide
      interfaces_few := by decide
      fields_few := by decide
      methods_few := by decide
      attributes_few := by decide
      attributes_named := fun _ h => absurd h List.not_mem_nil
      hasName := rfl }
  pool_eq := rfl
  classes := by
    intro i hi
    simp only [letterTexts, List.mem_cons, reduceCtorEq, false_or, Const.cls.injEq,
      List.not_mem_nil, or_false] at hi
    rcases hi with rfl | rfl
    · exact ⟨.name ⟨.ofString "a/B", by decide, by simp [Text.ofString]⟩, rfl⟩
    · exact ⟨.name ⟨.ofString "A", by decide, by simp [Text.ofString]⟩, rfl⟩
  signatures := by
    intro i j h
    simp [letterTexts] at h
  members := fun _ h => absurd h List.not_mem_nil
  whole := fun _ h => absurd h List.not_mem_nil

/-- It is not read that the class refers to another one. -/
theorem not_undone_namesLetter :
    ¬ ∃ info, (parseClass namesLetter.doc.write).1 = .ok info ∧ namesLetter.Undone info := by
  have hname : namesLetter.name = some (.ofString "a/B") := rfl
  have hplain : (Text.ofString "a/B").Plain := by
    rw [← ofString_code_iff, (code_eq_iff (s := "a/B") rfl).2 rfl]
  refine namesLetter.not_undone_of_letter (d := 'A') hname hplain (by decide) ⟨.inl ?_, ?_⟩ ?_
  · have hmem : .cls 3 ∈ namesLetter.texts := by simp [namesLetter, letterTexts]
    exact ⟨3, .name ⟨.ofString "A", by decide, by simp [Text.ofString]⟩, hmem, rfl,
      List.mem_singleton_self _⟩
  · rw [hname]
    decide
  · rintro ⟨i, e, ⟨n, hn⟩ | ⟨m, hm, -⟩, -⟩
    · simp [namesLetter, letterTexts] at hn
    · exact absurd hm List.not_mem_nil

end JavaClass

end Smrt
