import Smrt.Authoring.ClassRead

/-!
# Any bytes as a class

The reader of classes ends on any bytes, reads none of them twice, and takes nothing that is not
there. It has a fault in one case only (`parseClass_fault_iff`): where a pool of all the slots that
can be counted has a constant of two slots in its last one, the next slot is past the end of the
counter.

A class with an attribute of annotations that is torn is read as the class with what is before the
tear (`parseClass_cut`).
-/

namespace Smrt

namespace ClassFile

open Bootstrap (Bytes)
open ByteReader ClassDoc

/-! ## The counter of slots -/

section Overflow

variable {cp : List Cp} {fuel count idx : ℕ} {e : Fault} {bytes : Bytes}

/-- Constants fill the slots but one that can be counted last, where there is one that takes two. -/
def Overflows (count idx : ℕ) (rest : Bytes) : Prop :=
  count = 65535 ∧ ∃ (es : List (Const Bytes)) (k : Const Bytes) (post : Bytes),
    (∀ k ∈ es, k.Fits) ∧ k.width = 2 ∧ idx + width es = 65534 ∧
    rest = es.flatMap Const.write ++ (k.write ++ post)

theorem exact_readEntry :
    Exact readEntry Const.Fits Const.write fun k => (k.slots.map keep, k.width) :=
  ⟨fun _ => yields_readEntry, eats_readEntry⟩

theorem calm_readEntry (n : ℕ) : Calm n readEntry := by
  refine calm_u1.bind tracks_u1 fun tag => .ite ?_ (.ite ?_ (.ite ?_ (.ite ?_ (.ite ?_ (.ite ?_
    (.ite ?_ (.ite ?_ (.ite ?_ (.ite ?_ ?_)))))))))
  · exact calm_u2.bind tracks_u2 fun _ => calm_bytes.bind tracks_bytes fun _ => calm_pure _
  · exact calm_u2.bind tracks_u2 fun _ => calm_pure _
  · exact calm_u2.bind tracks_u2 fun _ => calm_u2.bind tracks_u2 fun _ => calm_pure _
  · exact calm_u2.bind tracks_u2 fun _ => calm_u2.bind tracks_u2 fun _ => calm_pure _
  · exact calm_u4.bind tracks_u4 fun _ => calm_pure _
  · exact calm_u4.bind tracks_u4 fun _ => calm_u4.bind tracks_u4 fun _ => calm_pure _
  · exact calm_u4.bind tracks_u4 fun _ => calm_pure _
  · exact calm_u1.bind tracks_u1 fun _ => calm_u2.bind tracks_u2 fun _ => calm_pure _
  · exact calm_u2.bind tracks_u2 fun _ => calm_pure _
  · exact calm_u2.bind tracks_u2 fun _ => calm_u2.bind tracks_u2 fun _ => calm_pure _
  · exact calm_fail

/-- A constant that takes two slots has no text. -/
theorem fits_of_width {k : Const Bytes} (h : k.width = 2) : k.Fits := by
  cases k
  case utf8 raw => exact absurd (show 1 = 2 from h) (by decide)
  all_goals trivial

theorem not_overflows (h : count ≤ idx) (rest : Bytes) : ¬ Overflows count idx rest := by
  rintro ⟨hcount, es, k, post, -, -, hwidth, -⟩
  omega

/-- A constant goes before the others, or it is the one that is too many. -/
theorem overflows_iff (hlt : count < 2 ^ 16) (hidx : idx < count) (rest : Bytes) :
    Overflows count idx rest ↔ ∃ (k : Const Bytes) (post : Bytes), k.Fits ∧
      rest = k.write ++ post ∧ (idx + k.width < 2 ^ 16 → Overflows count (idx + k.width) post) := by
  refine ⟨fun ⟨hcount, es, k, post, hes, hk, hwidth, hrest⟩ => ?_,
    fun ⟨k, post, hk, hrest, hbad⟩ => ?_⟩
  · rcases es with _ | ⟨k₁, es⟩
    · have hzero : width ([] : List (Const Bytes)) = 0 := rfl
      exact ⟨k, post, fits_of_width hk, hrest, fun h => absurd h (by omega)⟩
    · obtain ⟨hk₁, hes⟩ := List.forall_mem_cons.1 hes
      have hsum : width (k₁ :: es) = k₁.width + width es := List.sum_cons
      refine ⟨k₁, es.flatMap Const.write ++ (k.write ++ post), hk₁, ?_, fun _ =>
        ⟨hcount, es, k, post, hes, hk, by omega, rfl⟩⟩
      rw [hrest, List.flatMap_cons, List.append_assoc]
  · have hbounds := width_bounds k
    by_cases hnext : idx + k.width < 2 ^ 16
    · obtain ⟨hcount, es, k', post', hes, hk', hwidth, hpost⟩ := hbad hnext
      have hsum : width (k :: es) = k.width + width es := List.sum_cons
      refine ⟨hcount, k :: es, k', post', List.forall_mem_cons.2 ⟨hk, hes⟩, hk', by omega, ?_⟩
      rw [hrest, hpost, List.flatMap_cons, List.append_assoc]
    · have hzero : width ([] : List (Const Bytes)) = 0 := rfl
      exact ⟨by omega, [], k, post, fun _ h => absurd h List.not_mem_nil, by omega, by omega, hrest⟩

/-- To go on after a constant is a fault where the slot after it cannot be counted, or later. -/
theorem faults_advance {k : Const Bytes} {next : ℕ → Reader (List Cp)} {bad : Bytes → Prop}
    (h : idx + k.width < 2 ^ 16 → Faults (next (idx + k.width)) e fun rest =>
      e = .overflow ∧ bad rest) :
    Faults (advance idx k.width >>= next) e fun rest =>
      e = .overflow ∧ (idx + k.width < 2 ^ 16 → bad rest) := by
  rw [advance]
  by_cases hnext : idx + k.width < 2 ^ 16
  · rw [if_pos hnext]
    exact (h hnext).congr fun rest => and_congr_right fun _ => ⟨fun h _ => h, fun h => h hnext⟩
  · rw [if_neg hnext]
    exact (faults_fault (ε := Fault) (α := List Cp) .overflow).congr fun rest =>
      ⟨fun h => ⟨h, fun h' => absurd h' hnext⟩, fun h => h.1⟩

/-- A pool that is read has no fault any more. -/
theorem faults_pure (h : ¬ idx < count) : Faults (pure cp : Reader (List Cp)) e fun rest =>
    e = .overflow ∧ Overflows count idx rest :=
  (faults_of_calm fun _ => calm_pure cp).congr fun rest =>
    iff_of_false id fun h' => not_overflows (Nat.le_of_not_lt h) rest h'.2

/-- The pool has this fault where the counter cannot go on, and no other one. -/
theorem faults_readPool (hlt : count < 2 ^ 16) (hfuel : count ≤ idx + fuel) :
    Faults (readPool fuel count idx cp) e fun rest => e = .overflow ∧ Overflows count idx rest := by
  induction fuel generalizing idx cp with
  | zero =>
    rw [readPool, if_neg (by omega)]
    exact faults_pure (by omega)
  | succ fuel ih =>
    rw [readPool]
    by_cases hidx : idx < count
    · rw [if_pos hidx]
      refine (Faults.bind exact_readEntry calm_readEntry fun k _ => faults_advance fun _ =>
        ih (by have := width_bounds k; omega)).congr fun rest => ?_
      rw [overflows_iff hlt hidx]
      constructor
      · rintro ⟨k, post, hk, hrest, he, hbad⟩
        exact ⟨he, k, post, hk, hrest, hbad⟩
      · rintro ⟨he, k, post, hk, hrest, hbad⟩
        exact ⟨k, post, hk, hrest, he, hbad⟩
    · rw [if_neg hidx]
      exact faults_pure hidx

/-! ## Any bytes -/

/-- A class whose pool says that it has all the slots that can be counted, and has a constant of two
    slots in the last one. -/
def Overruns (bytes : Bytes) : Prop :=
  ∃ (minor major : ℕ) (es : List (Const Bytes)) (k : Const Bytes) (post : Bytes),
    minor < 2 ^ 16 ∧ major < 2 ^ 16 ∧ (∀ k ∈ es, k.Fits) ∧ k.width = 2 ∧ 1 + width es = 65534 ∧
    bytes = beBytes 4 magic ++ (beBytes 2 minor ++ (beBytes 2 major ++ (beBytes 2 65535 ++
      (es.flatMap Const.write ++ (k.write ++ post)))))

theorem parseClass_fault_iff :
    (parseClass bytes).1 = .error (some e) ↔ e = .overflow ∧ Overruns bytes := by
  have hpool (count : ℕ) (hlt : count < 2 ^ 16) :
      Faults (do let cp ← readPool count count 1 [.skip]; readBody cp) e fun rest =>
        e = .overflow ∧ Overflows count 1 rest :=
    (faults_readPool hlt (by omega)).bind_calm fun cp n => calm_readBody
  have hcount := Faults.bind exact_u2 (fun n => calm_u2) hpool
  have hmajor := Faults.bind exact_u2 (fun n => calm_u2) fun _ _ => hcount
  have hminor := Faults.bind exact_u2 (fun n => calm_u2) fun _ _ => hmajor
  have hclass := Faults.bind exact_u4 (fun n => calm_u4) fun first _ =>
    hminor.ite (p := first = magic) fun n => calm_fail
  refine (hclass ⟨bytes, 0, []⟩).trans ⟨fun h => ?_, fun h => ?_⟩
  · obtain ⟨_, _, _, rfl, rfl, minor, _, hmi, rfl, major, _, hma, rfl, _, _, _, rfl, he, rfl, es, k,
      post, hes, hk, hwidth, rfl⟩ := h
    exact ⟨he, minor, major, es, k, post, hmi, hma, hes, hk, hwidth, rfl⟩
  · obtain ⟨he, minor, major, es, k, post, hmi, hma, hes, hk, hwidth, rfl⟩ := h
    exact ⟨magic, _, by decide, rfl, rfl, minor, _, hmi, rfl, major, _, hma, rfl, 65535, _,
      by decide, rfl, he, rfl, es, k, post, hes, hk, hwidth, rfl⟩

end Overflow

/-! ## Annotations that are torn -/

/-- A class is read as what is left of it without what is not an annotation. -/
theorem parseClass_cut (c : ClassDoc) :
    (parseClass c.write).1 = (parseClass c.cut.write).1 := by
  rw [parseClass_write, parseClass_write, c.info_cut]

/-- What a parser of classes is to do with any bytes: to end without a fault, to read none of them
    twice, and, of a class with annotations before what is not one, to keep these. -/
structure Handles (bytes : Bytes) : Prop where
  returns : ∀ e, (parseClass bytes).1 ≠ .error (some e)
  once : (parseClass bytes).2.log.Pairwise (· < ·)
  kept : ∀ c : ClassDoc, c.write = bytes →
    ∃ info, (parseClass bytes).1 = .ok info ∧ (parseClass c.cut.write).1 = .ok info

theorem handles_iff (bytes : Bytes) : Handles bytes ↔ ¬ Overruns bytes := by
  refine ⟨fun h hover => h.returns .overflow (parseClass_fault_iff.2 ⟨rfl, hover⟩),
    fun h => ⟨fun e he => h (parseClass_fault_iff.1 he).2, ?_, fun c hc => ?_⟩⟩
  · exact (tracks_readClass.sound ⟨bytes, 0, []⟩
      ⟨List.Pairwise.nil, fun _ hp => absurd hp List.not_mem_nil⟩).increasing
  · refine ⟨c.info, ?_, ?_⟩
    · rw [← hc, parseClass_write]
    · rw [parseClass_write, c.info_cut]

/-- A class with 65533 constants that take a slot each, and then one that takes two. -/
def overrunning : Bytes :=
  beBytes 4 magic ++ (beBytes 2 0 ++ (beBytes 2 52 ++ (beBytes 2 65535 ++
    ((List.replicate 65533 (Const.cls 1)).flatMap Const.write ++ ((Const.long 0 0).write ++ [])))))

theorem overrunning_not_handled : ¬ Handles overrunning := by
  have hwidth : width (List.replicate 65533 (Const.cls 1 : Const Bytes)) = 65533 := by
    rw [width, List.map_replicate, List.sum_replicate]
    rfl
  have hfault : (parseClass overrunning).1 = .error (some .overflow) :=
    parseClass_fault_iff.2 ⟨rfl, 0, 52, List.replicate 65533 (Const.cls 1), .long 0 0, [],
      by decide, by decide, fun k hk => by rw [List.eq_of_mem_replicate hk]; trivial, rfl,
      by rw [hwidth], rfl⟩
  exact fun h => h.returns .overflow hfault

end ClassFile

end Smrt
