import Smrt.Authoring.ClassDoc
import Smrt.Authoring.ClassTotal

/-!
# Classes that are written are read

The readers go over what was written exactly (`yields_readEntry`, `yields_readElementValue`), so
that a class that is written is read as the constants, members and annotations that it was made of
(`parseClass_write`). An attribute of annotations that is torn is read up to where it is.
-/

namespace Smrt

namespace ClassFile

open Bootstrap (Bytes)
open ByteReader ClassDoc

theorem yields_be2 (n : UInt16) : Yields (u2 : Reader ℕ) (be2 n) n.toNat :=
  yields_u2 n.toNat_lt

theorem yields_be4 (n : UInt32) : Yields (u4 : Reader ℕ) (be4 n) n.toNat :=
  yields_u4 n.toNat_lt

theorem eats_be2 : Eats (u2 : Reader ℕ) fun enc n => ∃ x : UInt16, enc = be2 x ∧ n = x.toNat :=
  eats_u2.mono fun _ n h => ⟨UInt16.ofNat n, by
    rw [be2, UInt16.toNat_ofNat', Nat.mod_eq_of_lt h.1]
    exact ⟨h.2, rfl⟩⟩

theorem eats_be4 : Eats (u4 : Reader ℕ) fun enc n => ∃ x : UInt32, enc = be4 x ∧ n = x.toNat :=
  eats_u4.mono fun _ n h => ⟨UInt32.ofNat n, by
    rw [be4, UInt32.toNat_ofNat', Nat.mod_eq_of_lt h.1]
    exact ⟨h.2, rfl⟩⟩

/-! ## The pool -/

section Pool

variable {k : Const Bytes} {pool : List (Const Bytes)} {cp : List Cp} {fuel count idx : ℕ}

theorem width_bounds (k : Const Bytes) : 1 ≤ k.width ∧ k.width ≤ 2 := by
  cases k <;> simp [Const.width]

/-- Every constant takes a slot. -/
theorem length_le_width (pool : List (Const Bytes)) : pool.length ≤ width pool := by
  induction pool with
  | nil => exact le_rfl
  | cons k pool ih =>
    have hpos := width_bounds k
    have hwidth : width (k :: pool) = k.width + width pool := List.sum_cons
    rw [List.length_cons]
    omega

theorem yields_readEntry (h : k.Fits) : Yields readEntry k.write (k.slots.map keep, k.width) := by
  cases k with
  | utf8 raw => exact (yields_u1 1).bind ((yields_u2 h).bind ((yields_bytes raw).map _))
  | integer n => exact (yields_u1 3).bind ((yields_be4 n).map _)
  | float n => exact (yields_u1 4).bind ((yields_be4 n).map _)
  | long hi lo => exact (yields_u1 5).bind ((yields_be4 hi).bind ((yields_be4 lo).map _))
  | double hi lo => exact (yields_u1 6).bind ((yields_be4 hi).bind ((yields_be4 lo).map _))
  | cls name => exact (yields_u1 7).bind ((yields_be2 name).map _)
  | string text => exact (yields_u1 8).bind ((yields_be2 text).map _)
  | fieldRef owner nt => exact (yields_u1 9).bind ((yields_be2 owner).bind ((yields_be2 nt).map _))
  | methodRef owner nt =>
    exact (yields_u1 10).bind ((yields_be2 owner).bind ((yields_be2 nt).map _))
  | interfaceMethodRef owner nt =>
    exact (yields_u1 11).bind ((yields_be2 owner).bind ((yields_be2 nt).map _))
  | nameAndType name desc =>
    exact (yields_u1 12).bind ((yields_be2 name).bind ((yields_be2 desc).map _))
  | methodHandle kind ref =>
    exact (yields_u1 15).bind ((yields_u1 kind).bind ((yields_be2 ref).map _))
  | methodType desc => exact (yields_u1 16).bind ((yields_be2 desc).map _)
  | dynamic bootstrap nt =>
    exact (yields_u1 17).bind ((yields_be2 bootstrap).bind ((yields_be2 nt).map _))
  | invokeDynamic bootstrap nt =>
    exact (yields_u1 18).bind ((yields_be2 bootstrap).bind ((yields_be2 nt).map _))
  | moduleInfo name => exact (yields_u1 19).bind ((yields_be2 name).map _)
  | packageInfo name => exact (yields_u1 20).bind ((yields_be2 name).map _)

/-- The bytes and the constant that they were. -/
def IsEntry (enc : Bytes) (r : List Cp × ℕ) : Prop :=
  ∃ k : Const Bytes, k.Fits ∧ enc = k.write ∧ r = (k.slots.map keep, k.width)

/-- A constant of one index, of two, or of a number. -/
theorem eats_index {tag : UInt8} {r : ℕ → List Cp × ℕ} {k : UInt16 → Const Bytes}
    (hk : ∀ x, (k x).Fits ∧ tag :: be2 x = (k x).write ∧
      r x.toNat = ((k x).slots.map keep, (k x).width)) :
    Eats (do let x ← u2; pure (r x) : Reader (List Cp × ℕ)) fun enc => IsEntry (tag :: enc) := by
  refine eats_be2.bind fun _ _ h => eats_pure ?_
  obtain ⟨x, rfl, rfl⟩ := h
  rw [List.append_nil]
  exact ⟨k x, hk x⟩

theorem eats_indices {tag : UInt8} {r : ℕ → ℕ → List Cp × ℕ} {k : UInt16 → UInt16 → Const Bytes}
    (hk : ∀ x y, (k x y).Fits ∧ tag :: (be2 x ++ be2 y) = (k x y).write ∧
      r x.toNat y.toNat = ((k x y).slots.map keep, (k x y).width)) :
    Eats (do let x ← u2; let y ← u2; pure (r x y) : Reader (List Cp × ℕ)) fun enc =>
      IsEntry (tag :: enc) := by
  refine eats_be2.bind fun _ _ h => eats_be2.bind fun _ _ h' => eats_pure ?_
  obtain ⟨x, rfl, rfl⟩ := h
  obtain ⟨y, rfl, rfl⟩ := h'
  rw [List.append_nil]
  exact ⟨k x y, hk x y⟩

theorem eats_number {tag : UInt8} {r : ℕ → List Cp × ℕ} {k : UInt32 → Const Bytes}
    (hk : ∀ x, (k x).Fits ∧ tag :: be4 x = (k x).write ∧
      r x.toNat = ((k x).slots.map keep, (k x).width)) :
    Eats (do let x ← u4; pure (r x) : Reader (List Cp × ℕ)) fun enc => IsEntry (tag :: enc) := by
  refine eats_be4.bind fun _ _ h => eats_pure ?_
  obtain ⟨x, rfl, rfl⟩ := h
  rw [List.append_nil]
  exact ⟨k x, hk x⟩

theorem eats_numbers {tag : UInt8} {r : List Cp × ℕ} {k : UInt32 → UInt32 → Const Bytes}
    (hk : ∀ x y, (k x y).Fits ∧ tag :: (be4 x ++ be4 y) = (k x y).write ∧
      r = ((k x y).slots.map keep, (k x y).width)) :
    Eats (do let _ ← u4; let _ ← u4; pure r : Reader (List Cp × ℕ)) fun enc =>
      IsEntry (tag :: enc) := by
  refine eats_be4.bind fun _ _ h => eats_be4.bind fun _ _ h' => eats_pure ?_
  obtain ⟨x, rfl, rfl⟩ := h
  obtain ⟨y, rfl, rfl⟩ := h'
  rw [List.append_nil]
  exact ⟨k x y, hk x y⟩

/-- What was read as a constant was written as one. -/
theorem eats_readEntry : Eats readEntry IsEntry := by
  refine eats_u1.bind fun enc tag htag => ?_
  subst htag
  refine eats_ite (fun h1 => ?_) fun _ => eats_ite (fun h7 => ?_) fun _ => eats_ite (fun h9 => ?_)
    fun _ => eats_ite (fun h12 => ?_) fun _ => eats_ite (fun h3 => ?_) fun _ => eats_ite
    (fun h5 => ?_) fun _ => eats_ite (fun h4 => ?_) fun _ => eats_ite (fun h15 => ?_) fun _ =>
    eats_ite (fun h8 => ?_) fun _ => eats_ite (fun h17 => ?_) fun _ => eats_fail
  · subst h1
    refine eats_u2.bind fun _ len hlen => eats_bytes.bind fun _ raw hraw => eats_pure ?_
    obtain ⟨hfits, rfl⟩ := hlen
    obtain ⟨rfl, rfl⟩ := hraw
    rw [List.append_nil]
    exact ⟨.utf8 _, hfits, rfl, rfl⟩
  · subst h7
    exact eats_index (k := .cls) fun _ => ⟨trivial, rfl, rfl⟩
  · rcases h9 with rfl | rfl | rfl
    · exact eats_indices (k := .fieldRef) fun _ _ => ⟨trivial, rfl, rfl⟩
    · exact eats_indices (k := .methodRef) fun _ _ => ⟨trivial, rfl, rfl⟩
    · exact eats_indices (k := .interfaceMethodRef) fun _ _ => ⟨trivial, rfl, rfl⟩
  · subst h12
    exact eats_indices (k := .nameAndType) fun _ _ => ⟨trivial, rfl, rfl⟩
  · subst h3
    exact eats_number (k := .integer) fun _ => ⟨trivial, rfl, rfl⟩
  · rcases h5 with rfl | rfl
    · exact eats_numbers (k := .long) fun _ _ => ⟨trivial, rfl, rfl⟩
    · exact eats_numbers (k := .double) fun _ _ => ⟨trivial, rfl, rfl⟩
  · subst h4
    exact eats_number (k := .float) fun _ => ⟨trivial, rfl, rfl⟩
  · subst h15
    refine eats_u1.bind fun _ kind hkind => eats_be2.bind fun _ _ h => eats_pure ?_
    obtain ⟨x, rfl, rfl⟩ := h
    subst hkind
    rw [List.append_nil]
    exact ⟨.methodHandle kind x, trivial, rfl, rfl⟩
  · rcases h8 with rfl | rfl | rfl | rfl
    · exact eats_index (k := .string) fun _ => ⟨trivial, rfl, rfl⟩
    · exact eats_index (k := .methodType) fun _ => ⟨trivial, rfl, rfl⟩
    · exact eats_index (k := .moduleInfo) fun _ => ⟨trivial, rfl, rfl⟩
    · exact eats_index (k := .packageInfo) fun _ => ⟨trivial, rfl, rfl⟩
  · rcases h17 with rfl | rfl
    · exact eats_indices (k := .dynamic) fun _ _ => ⟨trivial, rfl, rfl⟩
    · exact eats_indices (k := .invokeDynamic) fun _ _ => ⟨trivial, rfl, rfl⟩

theorem yields_advance {n : ℕ} (h : idx + n < 2 ^ 16) : Yields (advance idx n) [] (idx + n) := by
  rw [advance, if_pos h]
  exact yields_pure _

/-- A pool is read if the count is that of its slots. -/
theorem yields_readPool (hfits : ∀ k ∈ pool, k.Fits) (hcount : idx + width pool = count)
    (hlt : count < 2 ^ 16) (hfuel : pool.length ≤ fuel) :
    Yields (readPool fuel count idx cp) (pool.flatMap Const.write)
      (cp ++ (pool.flatMap Const.slots).map keep) := by
  induction pool generalizing fuel idx cp with
  | nil =>
    have hidx : ¬ idx < count := by
      have : width ([] : List (Const Bytes)) = 0 := rfl
      omega
    have hread : readPool fuel count idx cp = pure cp := by
      rcases fuel with _ | fuel <;> rw [readPool, if_neg hidx]
    rw [hread, List.flatMap_nil, List.flatMap_nil, List.map_nil, List.append_nil]
    exact yields_pure cp
  | cons k pool ih =>
    obtain ⟨hk, hpool⟩ := List.forall_mem_cons.1 hfits
    have hwidth : width (k :: pool) = k.width + width pool := List.sum_cons
    have hpos := width_bounds k
    obtain ⟨fuel, rfl⟩ : ∃ n, fuel = n + 1 := ⟨fuel - 1, by rw [List.length_cons] at hfuel; omega⟩
    have hrest : Yields (readPool fuel count (idx + k.width) (cp ++ k.slots.map keep))
        (pool.flatMap Const.write)
        (cp ++ k.slots.map keep ++ (pool.flatMap Const.slots).map keep) :=
      ih hpool (by omega) (Nat.le_of_succ_le_succ hfuel)
    rw [readPool, if_pos (by omega), List.flatMap_cons, List.flatMap_cons, List.map_append,
      ← List.append_assoc]
    exact (yields_readEntry hk).bind ((yields_advance (by omega)).bind hrest)

end Pool

/-! ## Annotations -/

section Annotations

variable {v : Value} {pairs : List (UInt16 × Value)} {items : List Value} {fuel : ℕ}

theorem writePairs_eq : writePairs pairs = pairs.flatMap fun p => be2 p.1 ++ p.2.write := by
  induction pairs with
  | nil => rfl
  | cons p pairs ih => rw [writePairs, ih, List.flatMap_cons]

theorem writeItems_eq : writeItems items = items.flatMap Value.write := by
  induction items with
  | nil => rfl
  | cons v items ih => rw [writeItems, ih, List.flatMap_cons]

theorem readItems_eq : readItems items = items.map Value.read := by
  induction items with
  | nil => rfl
  | cons v items ih => rw [readItems, ih, List.map_cons]

/-- Annotations are read if their values are. -/
theorem yields_readAnnotationWith {value : Reader (Option ElemValue)} (type : UInt16)
    (few : pairs.length < 2 ^ 16) (h : ∀ p ∈ pairs, Yields value p.2.write p.2.read) :
    Yields (readAnnotationWith value)
      (be2 type ++ (beBytes 2 pairs.length ++ writePairs pairs))
      (type.toNat, pairs.map fun p => (p.1.toNat, p.2.read)) := by
  rw [writePairs_eq]
  exact (yields_be2 type).bind ((yields_u2 few).bind ((yields_times fun p hp =>
    (yields_be2 p.1).bind ((h p hp).map fun value => (p.1.toNat, value))).map _))

theorem length_le_of_mem {α : Type} {l : List α} {x : α} (write : α → Bytes) (h : x ∈ l) :
    (write x).length ≤ (l.flatMap write).length := by
  obtain ⟨pre, post, rfl⟩ := List.append_of_mem h
  rw [List.flatMap_append, List.flatMap_cons, List.length_append, List.length_append]
  omega

/-- A value is read with more fuel than its bytes. -/
theorem yields_readElementValue (h : v.Fits) (hfuel : v.write.length < fuel) :
    Yields (readElementValue fuel) v.write v.read := by
  obtain ⟨fuel, rfl⟩ : ∃ n, fuel = n + 1 := ⟨fuel - 1, by omega⟩
  induction h generalizing fuel with
  | @const tag known index =>
    have hprim := (yields_be2 index).map fun i => some (ElemValue.prim tag i)
    refine (yields_u1 tag).bind ?_
    rw [if_pos known]
    exact hprim
  | enum type name =>
    exact (yields_u1 'e'.toUInt8).bind ((yields_be2 type).bind ((yields_be2 name).map _))
  | cls desc => exact (yields_u1 'c'.toUInt8).bind ((yields_be2 desc).map _)
  | @nested type pairs few _ ih =>
    rw [Value.write, List.length_cons] at hfuel
    have hpairs (p : UInt16 × Value) (hp : p ∈ pairs) :
        Yields (readElementValue fuel) p.2.write p.2.read := by
      have hle := length_le_of_mem (fun p => be2 p.1 ++ p.2.write) hp
      rw [← writePairs_eq, List.length_append] at hle
      rw [List.length_append, List.length_append] at hfuel
      obtain ⟨fuel, rfl⟩ : ∃ n, fuel = n + 1 := ⟨fuel - 1, by omega⟩
      exact ih p hp fuel (by omega)
    exact (yields_u1 '@'.toUInt8).bind ((yields_readAnnotationWith type few hpairs).map _)
  | @array items few _ ih =>
    rw [Value.write, List.length_cons] at hfuel
    have hitems (v : Value) (hv : v ∈ items) : Yields (readElementValue fuel) v.write v.read := by
      have hle := length_le_of_mem Value.write hv
      rw [← writeItems_eq] at hle
      rw [List.length_append] at hfuel
      obtain ⟨fuel, rfl⟩ : ∃ n, fuel = n + 1 := ⟨fuel - 1, by omega⟩
      exact ih v hv fuel (by omega)
    have hread := (yields_times hitems).map fun l => some (ElemValue.array l)
    rw [← readItems_eq, ← writeItems_eq] at hread
    exact (yields_u1 '['.toUInt8).bind ((yields_u2 few).bind hread)

/-- The values of an annotation are in its bytes. -/
theorem yields_readAnnotation (a : ClassDoc.Annotation) (hfuel : a.write.length < fuel) :
    Yields ( readAnnotation fuel) a.write a.read := by
  refine yields_readAnnotationWith a.type a.few fun p hp => ?_
  have hle := length_le_of_mem (fun p => be2 p.1 ++ p.2.write) hp
  rw [← writePairs_eq, List.length_append] at hle
  rw [ClassDoc.Annotation.write, List.length_append, List.length_append] at hfuel
  exact yields_readElementValue (a.fits p hp) (by omega)

/-- What was read as annotations was written as them, if it is so for values. -/
theorem eats_readAnnotationWith {value : Reader (Option ElemValue)}
    (h : Eats value fun enc r => ∃ v : Value, v.Fits ∧ enc = v.write ∧ r = v.read) :
    Eats (readAnnotationWith value) fun enc r => ∃ a : ClassDoc.Annotation,
      enc = a.write ∧ r = a.read := by
  refine eats_be2.bind fun _ _ htype => eats_u2.bind fun _ n hn => ?_
  obtain ⟨type, rfl, rfl⟩ := htype
  obtain ⟨few, rfl⟩ := hn
  have hpair : Eats (do let nameIndex ← u2; let value ← value; pure (nameIndex, value) :
      Reader (ℕ × Option ElemValue)) fun enc r => ∃ p : UInt16 × Value, p.2.Fits ∧
        enc = be2 p.1 ++ p.2.write ∧ r = (p.1.toNat, p.2.read) := by
    refine eats_be2.bind fun _ _ hname => h.bind fun _ _ hvalue => eats_pure ?_
    obtain ⟨name, rfl, rfl⟩ := hname
    obtain ⟨v, hv, rfl, rfl⟩ := hvalue
    exact ⟨(name, v), hv, by rw [List.append_nil], rfl⟩
  refine (eats_times hpair).bind fun _ _ hpairs => eats_pure ?_
  obtain ⟨pairs, rfl, hfits, rfl, rfl⟩ := hpairs
  refine ⟨⟨type, pairs, few, hfits⟩, ?_, rfl⟩
  rw [List.append_nil, ClassDoc.Annotation.write, writePairs_eq]

theorem eats_readElementValue : Eats (readElementValue fuel) fun enc r =>
    ∃ v : Value, v.Fits ∧ enc = v.write ∧ r = v.read := by
  induction fuel with
  | zero => exact fun _ _ _ h => nomatch h
  | succ fuel ih =>
    refine eats_u1.bind fun enc tag htag => ?_
    subst htag
    refine eats_ite (fun hprim => ?_) fun _ => eats_ite (fun he => ?_) fun _ => eats_ite
      (fun hc => ?_) fun _ => eats_ite (fun hat => ?_) fun _ => eats_ite (fun harr => ?_) fun _ =>
      eats_fail
    · refine eats_be2.bind fun _ _ h => eats_pure ?_
      obtain ⟨i, rfl, rfl⟩ := h
      exact ⟨.const tag i, .const hprim i, by rw [List.append_nil]; rfl, rfl⟩
    · subst he
      refine eats_be2.bind fun _ _ h => eats_be2.bind fun _ _ h' => eats_pure ?_
      obtain ⟨type, rfl, rfl⟩ := h
      obtain ⟨name, rfl, rfl⟩ := h'
      exact ⟨.enum type name, .enum type name, by rw [List.append_nil]; rfl, rfl⟩
    · subst hc
      refine eats_be2.bind fun _ _ h => eats_pure ?_
      obtain ⟨i, rfl, rfl⟩ := h
      exact ⟨.cls i, .cls i, by rw [List.append_nil]; rfl, rfl⟩
    · subst hat
      refine (eats_readAnnotationWith ih).bind fun _ _ h => eats_pure ?_
      obtain ⟨a, rfl, rfl⟩ := h
      exact ⟨.nested a.type a.pairs, .nested a.type a.few a.fits,
        by rw [List.append_nil]; rfl, rfl⟩
    · subst harr
      refine eats_u2.bind fun _ n hn => (eats_times ih).bind fun _ _ h => eats_pure ?_
      obtain ⟨few, rfl⟩ := hn
      obtain ⟨items, rfl, hfits, rfl, rfl⟩ := h
      refine ⟨.array items, .array few hfits, ?_, by rw [Value.read, readItems_eq]⟩
      rw [List.append_nil, Value.write, writeItems_eq]
      rfl

/-- What was read as an annotation was written as one. -/
theorem eats_readAnnotation : Eats ( readAnnotation fuel) fun enc r =>
    ∃ a : ClassDoc.Annotation, enc = a.write ∧ r = a.read :=
  eats_readAnnotationWith eats_readElementValue

/-- Bytes that do not begin with an annotation are not read as one. -/
theorem readAnnotation_of_malformed {tail : Bytes} (h : Malformed tail) (hfuel : tail.length < fuel)
    (pos : ℕ) (log : List ℕ) :
    ∃ c, readAnnotation fuel ⟨tail, pos, log⟩ = (.error none, c) := by
  rcases hread : readAnnotation fuel ⟨tail, pos, log⟩ with ⟨(_ | e) | a, c⟩
  · exact ⟨c, rfl⟩
  · have hcalm := calm_readAnnotation ⟨tail, pos, log⟩ e hfuel
    rw [hread] at hcalm
    exact absurd rfl hcalm
  · obtain ⟨_, htail, a, rfl, -⟩ := eats_readAnnotation _ _ _ hread
    exact absurd htail (h a c.rest)

variable {cp : List Cp}

/-- What the parser takes from annotations. -/
def scanned (cp : List Cp) (l : List ClassDoc.Annotation) : Scanned :=
  (l.map ClassDoc.Annotation.read).foldl (scanOne cp) {}

/-- Annotations are scanned up to where the attribute ends, or to what is not one. -/
theorem scanFrom_write {l : List ClassDoc.Annotation} {tail : Bytes} {n : ℕ} (out : Scanned)
    (hfuel : (l.flatMap ClassDoc.Annotation.write ++ tail).length < fuel)
    (hl : l.length = n ∨ l.length < n ∧ Malformed tail) (pos : ℕ) (log : List ℕ) :
    ∃ c, scanFrom cp fuel n out ⟨l.flatMap ClassDoc.Annotation.write ++ tail, pos, log⟩ =
      (.ok ((l.map ClassDoc.Annotation.read).foldl (scanOne cp) out), c) := by
  induction l generalizing n out pos log with
  | nil =>
    obtain rfl | ⟨hn, htail⟩ := hl
    · exact ⟨_, rfl⟩
    · obtain ⟨n, rfl⟩ : ∃ k, n = k + 1 := ⟨n - 1, by rw [List.length_nil] at hn; omega⟩
      obtain ⟨c, hc⟩ := readAnnotation_of_malformed htail hfuel pos log
      exact ⟨c, bind_of_ok (attempt_of_error hc)⟩
  | cons a l ih =>
    rw [List.length_cons] at hl
    rw [List.flatMap_cons, List.append_assoc] at hfuel ⊢
    obtain ⟨n, rfl⟩ : ∃ k, n = k + 1 := ⟨n - 1, by obtain h | ⟨h, -⟩ := hl <;> omega⟩
    rw [List.length_append] at hfuel
    have hone : Yields ( readAnnotation fuel) a.write a.read := yields_readAnnotation a (by omega)
    obtain ⟨log', hread⟩ := hone.attempt (l.flatMap ClassDoc.Annotation.write ++ tail) pos log
    obtain ⟨c, hc⟩ := ih (n := n) (scanOne cp out a.read) (by omega)
      (hl.imp Nat.succ.inj fun h => ⟨Nat.lt_of_succ_lt_succ h.1, h.2⟩) (pos + a.write.length) log'
    exact ⟨c, by rw [scanFrom, bind_of_ok hread]; exact hc⟩

theorem scanAnnotations_write (s : Annotations) (hfuel : s.write.length < fuel) (pos : ℕ)
    (log : List ℕ) :
    ∃ c, scanAnnotations cp fuel ⟨s.write, pos, log⟩ = (.ok (scanned cp s.list), c) := by
  obtain ⟨log', hread⟩ := (yields_u2 (ε := Fault) s.few).attempt
    (s.list.flatMap ClassDoc.Annotation.write ++ s.tail) pos log
  rw [Annotations.write, List.length_append] at hfuel
  have hlt : (s.list.flatMap ClassDoc.Annotation.write ++ s.tail).length < fuel := by omega
  obtain ⟨c, hc⟩ := scanFrom_write {} hlt s.whole (pos + (beBytes 2 s.num).length) log'
  exact ⟨c, by rw [scanAnnotations, Annotations.write, bind_of_ok hread]; exact hc⟩

end Annotations

/-! ## Members -/

section Members

variable {cp : List Cp} {out : Finset String} {f : Facts} {pool : List (Const Bytes)}

theorem yields_skipAttributes {l : List Attribute} (few : l.length < 2 ^ 16) :
    Yields skipAttributes (beBytes 2 l.length ++ l.flatMap Attribute.write) () := by
  have hone (a : Attribute) : Yields (do let _ ← u2; let len ← u4; skip len : Reader Unit)
      a.write () :=
    (yields_be2 a.name).bind ((yields_u4 a.few).bind (yields_skip a.body))
  have hall : Yields (times l.length (do let _ ← u2; let len ← u4; skip len : Reader Unit))
      (l.flatMap Attribute.write) (l.map fun _ => ()) := yields_times fun a _ => hone a
  exact (yields_u2 few).bind (hall.map _)

theorem yields_readMember (m : Member) :
    Yields (readMember cp out) m.write (out ∪ typesAt cp m.desc.toNat) := by
  have hrest : Yields (do
      let out ← ofExcept (descTypes cp out m.desc.toNat)
      skipAttributes
      pure out : Reader (Finset String))
      (beBytes 2 m.attributes.length ++ m.attributes.flatMap Attribute.write)
      (out ∪ typesAt cp m.desc.toNat) := by
    rw [descTypes_eq]
    exact (yields_pure (out ∪ typesAt cp m.desc.toNat)).bind ((yields_skipAttributes m.few).map _)
  exact (yields_be2 m.access).bind ((yields_be2 m.name).bind ((yields_be2 m.desc).bind hrest))

/-- With the types in the descriptors of members. -/
def memberTypes (cp : List Cp) (l : List Member) (out : Finset String) : Finset String :=
  l.foldl (fun out m => out ∪ typesAt cp m.desc.toNat) out

theorem yields_readMembers (l : List Member) :
    Yields (readMembers cp l.length out) (l.flatMap Member.write) (memberTypes cp l out) := by
  induction l generalizing out with
  | nil => exact yields_pure out
  | cons m l ih => exact (yields_readMember m).bind ih

/-! ## The attributes of the class -/

/-- With what an attribute of the class says. -/
def attributeFacts (cp : List Cp) (f : Facts) : ClassAttribute → Facts
  | .other _ => f
  | .annotations _ s _ => f.add (scanned cp s.list)

theorem utf8_keep (i : UInt16) :
    utf8 ((slots pool).map keep) i.toNat = (textAt pool i).map fromUtf8Lossy := by
  rw [utf8, textAt, List.getElem?_map]
  rcases (slots pool)[i.toNat]? with _ | _ | k
  · rfl
  · rfl
  · cases k <;> rfl

theorem className_keep (i : UInt16) :
    className ((slots pool).map keep) i.toNat = (classAt pool i).map fromUtf8Lossy := by
  rw [className, classAt, List.getElem?_map]
  rcases (slots pool)[i.toNat]? with _ | _ | k
  · rfl
  · rfl
  · cases k
    case cls name => exact utf8_keep name
    all_goals rfl

theorem namesAnnotations_iff (i : UInt16) :
    (utf8 ((slots pool).map keep) i.toNat).any (· ∈ annotationAttributes) ↔
      NamesAnnotations pool i := by
  have hmarks : ∀ s ∈ annotationAttributes, replacement ∉ s.toList := by
    have hall : (annotationAttributes.all fun s => s.toList.all fun c => c ≠ replacement) = true :=
      by decide +kernel
    intro s hs hmem
    exact of_decide_eq_true (List.all_eq_true.1 (List.all_eq_true.1 hall s hs) _ hmem) rfl
  rw [utf8_keep, NamesAnnotations]
  rcases textAt pool i with _ | raw
  · simp
  · simp only [Option.map_some, Option.any_some, decide_eq_true_eq, Option.some.injEq]
    refine ⟨fun h => ⟨_, h, ((fromUtf8Lossy_eq_iff (hmarks _ h)).1 rfl)⟩, fun ⟨s, hs, hraw⟩ => ?_⟩
    rw [(fromUtf8Lossy_eq_iff (hmarks s hs)).2 hraw]
    exact hs

theorem yields_readClassAttribute {a : ClassAttribute} (h : a.Named pool) :
    Yields (readClassAttribute ((slots pool).map keep) f) a.write
      (attributeFacts ((slots pool).map keep) f a) := by
  rcases a with a | ⟨name, s, few⟩
  · refine (yields_be2 a.name).bind ((yields_u4 a.few).bind ?_)
    rw [if_neg (mt (namesAnnotations_iff a.name).1 h)]
    have hskip := (yields_skip (ε := Fault) a.body).map fun _ => f
    exact hskip
  · refine (yields_be2 name).bind ((yields_u4 few).bind ?_)
    rw [if_pos ((namesAnnotations_iff name).2 h)]
    exact (yields_within (scanAnnotations_write s (Nat.lt_succ_self _))).map _

theorem yields_readClassAttributes {l : List ClassAttribute} (h : ∀ a ∈ l, a.Named pool) :
    Yields (readClassAttributes ((slots pool).map keep) l.length f)
      (l.flatMap ClassAttribute.write)
      (l.foldl (attributeFacts ((slots pool).map keep)) f) := by
  induction l generalizing f with
  | nil => exact yields_pure f
  | cons a l ih =>
    obtain ⟨ha, hl⟩ := List.forall_mem_cons.1 h
    exact (yields_readClassAttribute ha).bind (ih hl)

end Members

end ClassFile

/-! ## The class -/

namespace ClassDoc

open ByteReader ClassFile

variable (c : ClassDoc)

/-- What the parser keeps of the pool. -/
def cps : List Cp := (slots c.pool).map keep

def header : Header where
  thisClass := fromUtf8Lossy ((classAt c.pool c.thisClass).get c.hasName)
  superName := (if c.superClass.toNat ≠ 0 then className c.cps c.superClass.toNat else none).filter
    fun s => s ≠ "java/lang/Object"
  interfaces := (c.interfaces.map UInt16.toNat).filterMap (className c.cps)

/-- The types named in the pool, and by the fields and methods. -/
def types : Finset String :=
  memberTypes c.cps c.methods (memberTypes c.cps c.fields (c.cps.foldl (entryFound c.cps) ∅))

def facts : Facts := c.attributes.foldl (attributeFacts c.cps) {}

/-- What the parser makes of a class. -/
def info : ClassInfo where
  thisClass := c.header.thisClass
  superName := c.header.superName
  interfaces := c.header.interfaces
  referenced := c.types.erase c.header.thisClass
  conditional := isConditional c.cps
  modSides := c.facts.modSides
  modId := c.facts.modId
  acceptableRemoteVersions := c.facts.acceptableRemoteVersions
  dist := c.facts.dist
  sidedProxy := hasMarker c.cps sidedProxyDescriptors
  loadingPlugin := c.header.interfaces.any (· ∈ loadingPluginInterfaces)
  mixinTargets := c.facts.mixinTargets

theorem className_thisClass :
    className c.cps c.thisClass.toNat = some c.header.thisClass := by
  have hname : classAt c.pool c.thisClass = some ((classAt c.pool c.thisClass).get c.hasName) :=
    (Option.some_get _).symm
  rw [cps, className_keep, hname]
  rfl

theorem yields_readHeader : Yields (readHeader c.cps) c.writeHeader c.header := by
  refine (yields_be2 c.access).bind ((yields_be2 c.thisClass).bind ?_)
  rw [className_thisClass]
  exact (yields_be2 c.superClass).bind ((yields_u2 c.interfaces_few).bind
    ((yields_times fun i _ => yields_be2 i).map _))

theorem yields_readBody : Yields (readBody c.cps) c.writeBody c.info := by
  refine c.yields_readHeader.bind ?_
  rw [poolTypes_eq, writeMembers, writeMembers, List.append_assoc, List.append_assoc]
  exact (yields_pure _).bind ((yields_u2 c.fields_few).bind ((yields_readMembers c.fields).bind
    ((yields_u2 c.methods_few).bind ((yields_readMembers c.methods).bind
      ((yields_u2 c.attributes_few).bind
        ((yields_readClassAttributes c.attributes_named).map _))))))

theorem yields_readClass : Yields readClass c.write c.info := by
  refine (yields_u4 (by decide)).bind ?_
  rw [if_pos rfl, writePool, List.append_assoc]
  refine (yields_be2 c.minor).bind ((yields_be2 c.major).bind ((yields_u2 c.pool_few).bind ?_))
  have hfuel : c.pool.length ≤ 1 + width c.pool := (length_le_width c.pool).trans (by omega)
  exact (yields_readPool c.texts_fit rfl c.pool_few hfuel).bind c.yields_readBody

/-- What is not an annotation says nothing. -/
theorem info_cut : c.cut.info = c.info := by
  have hone (f : Facts) (a : ClassAttribute) :
      attributeFacts c.cps f a.cut = attributeFacts c.cps f a := by
    rcases a with a | ⟨name, s, few⟩ <;> rfl
  have hfacts : c.cut.facts = c.facts := by
    have hmap : c.cut.facts =
        (c.attributes.map ClassAttribute.cut).foldl (attributeFacts c.cps) {} := rfl
    rw [hmap, List.foldl_map, facts]
    simp only [hone]
  have hinfo : c.cut.info = { c.info with
    modSides := c.cut.facts.modSides
    modId := c.cut.facts.modId
    acceptableRemoteVersions := c.cut.facts.acceptableRemoteVersions
    dist := c.cut.facts.dist
    mixinTargets := c.cut.facts.mixinTargets } := rfl
  rw [hinfo, hfacts]
  rfl

end ClassDoc

namespace ClassFile

/-- A class that is written is read. -/
theorem parseClass_write (c : ClassDoc) : (parseClass c.write).1 = .ok c.info := by
  obtain ⟨log, hread⟩ := c.yields_readClass [] 0 []
  rw [List.append_nil] at hread
  rw [parseClass, hread]

end ClassFile

end Smrt
