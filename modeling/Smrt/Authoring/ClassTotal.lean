import Smrt.Authoring.Descriptors

/-!
# Nothing is read twice, and nothing goes wrong

The readers of the parts of a class go over the bytes once (`tracks_readClass`), and after the pool
of constants they have no fault, whatever the bytes (`calm_readBody`): a value of an annotation that
is a part of another one has fewer bytes, and a part of a descriptor is never a part of a character.
-/

namespace Smrt

namespace ClassFile

open Bootstrap (Bytes)
open ByteReader

/-! ## Nothing is read twice -/

section Tracks

variable {cp : List Cp} {fuel n : ℕ}

theorem tracks_readEntry : Tracks readEntry := by
  refine tracks_u1.bind fun tag => .ite ?_ (.ite ?_ (.ite ?_ (.ite ?_ (.ite ?_ (.ite ?_ (.ite ?_
    (.ite ?_ (.ite ?_ (.ite ?_ ?_)))))))))
  · exact tracks_u2.bind fun _ => tracks_bytes.bind fun _ => tracks_pure _
  · exact tracks_u2.bind fun _ => tracks_pure _
  · exact tracks_u2.bind fun _ => tracks_u2.bind fun _ => tracks_pure _
  · exact tracks_u2.bind fun _ => tracks_u2.bind fun _ => tracks_pure _
  · exact tracks_u4.bind fun _ => tracks_pure _
  · exact tracks_u4.bind fun _ => tracks_u4.bind fun _ => tracks_pure _
  · exact tracks_u4.bind fun _ => tracks_pure _
  · exact tracks_u1.bind fun _ => tracks_u2.bind fun _ => tracks_pure _
  · exact tracks_u2.bind fun _ => tracks_pure _
  · exact tracks_u2.bind fun _ => tracks_u2.bind fun _ => tracks_pure _
  · exact tracks_fail

theorem tracks_advance (idx n : ℕ) : Tracks (advance idx n) := by
  rw [advance]
  split_ifs
  · exact tracks_pure _
  · exact tracks_fault _

theorem tracks_readPool (count idx : ℕ) : Tracks (readPool fuel count idx cp) := by
  induction fuel generalizing idx cp with
  | zero =>
    rw [readPool]
    split_ifs
    · exact tracks_fault _
    · exact tracks_pure _
  | succ fuel ih =>
    rw [readPool]
    split_ifs
    · exact tracks_readEntry.bind fun e => (tracks_advance _ _).bind fun idx => ih idx
    · exact tracks_pure _

theorem tracks_readAnnotationWith {value : Reader (Option ElemValue)} (h : Tracks value) :
    Tracks (readAnnotationWith value) :=
  tracks_u2.bind fun _ => tracks_u2.bind fun _ =>
    (tracks_u2.bind fun _ => h.bind fun _ => tracks_pure _).times.bind fun _ => tracks_pure _

theorem tracks_readElementValue : Tracks (readElementValue fuel) := by
  induction fuel with
  | zero => exact tracks_fault _
  | succ fuel ih =>
    refine tracks_u1.bind fun tag => .ite ?_ (.ite ?_ (.ite ?_ (.ite ?_ (.ite ?_ ?_))))
    · exact tracks_u2.bind fun _ => tracks_pure _
    · exact tracks_u2.bind fun _ => tracks_u2.bind fun _ => tracks_pure _
    · exact tracks_u2.bind fun _ => tracks_pure _
    · exact (tracks_readAnnotationWith ih).bind fun _ => tracks_pure _
    · exact tracks_u2.bind fun _ => ih.times.bind fun _ => tracks_pure _
    · exact tracks_fail

theorem tracks_readAnnotation : Tracks ( readAnnotation fuel) :=
  tracks_readAnnotationWith tracks_readElementValue

theorem tracks_scanFrom (out : Scanned) : Tracks (scanFrom cp fuel n out) := by
  induction n generalizing out with
  | zero => exact tracks_pure _
  | succ n ih =>
    refine tracks_readAnnotation.attempt.bind fun ann => ?_
    rcases ann with _ | ann
    · exact tracks_pure _
    · exact ih _

theorem tracks_scanAnnotations : Tracks (scanAnnotations cp fuel) := by
  refine tracks_u2.attempt.bind fun num => ?_
  rcases num with _ | num
  · exact tracks_pure _
  · exact tracks_scanFrom _

theorem tracks_skipAttributes : Tracks skipAttributes :=
  tracks_u2.bind fun _ =>
    (tracks_u2.bind fun _ => tracks_u4.bind fun _ => tracks_skip).times.bind fun _ => tracks_pure _

theorem tracks_readMember (out : Finset String) : Tracks (readMember cp out) :=
  tracks_u2.bind fun _ => tracks_u2.bind fun _ => tracks_u2.bind fun _ =>
    (tracks_ofExcept _).bind fun _ => tracks_skipAttributes.bind fun _ => tracks_pure _

theorem tracks_readMembers (out : Finset String) : Tracks (readMembers cp n out) := by
  induction n generalizing out with
  | zero => exact tracks_pure _
  | succ n ih => exact (tracks_readMember out).bind fun out => ih out

theorem tracks_readClassAttribute (f : Facts) : Tracks (readClassAttribute cp f) := by
  refine tracks_u2.bind fun _ => tracks_u4.bind fun _ => .ite ?_ ?_
  · exact tracks_scanAnnotations.within.bind fun _ => tracks_pure _
  · exact tracks_skip.bind fun _ => tracks_pure _

theorem tracks_readClassAttributes (f : Facts) : Tracks (readClassAttributes cp n f) := by
  induction n generalizing f with
  | zero => exact tracks_pure _
  | succ n ih => exact (tracks_readClassAttribute f).bind fun f => ih f

theorem tracks_readHeader : Tracks (readHeader cp) := by
  refine tracks_u2.bind fun _ => tracks_u2.bind fun thisIndex => ?_
  rcases className cp thisIndex with _ | thisClass
  · exact tracks_fail
  · exact tracks_u2.bind fun _ => tracks_u2.bind fun _ => tracks_u2.times.bind fun _ =>
      tracks_pure _

theorem tracks_readBody : Tracks (readBody cp) :=
  tracks_readHeader.bind fun _ => (tracks_ofExcept _).bind fun _ => tracks_u2.bind fun _ =>
    (tracks_readMembers _).bind fun _ => tracks_u2.bind fun _ =>
      (tracks_readMembers _).bind fun _ => tracks_u2.bind fun _ =>
        (tracks_readClassAttributes _).bind fun _ => tracks_pure _

theorem tracks_readClass : Tracks readClass := by
  refine tracks_u4.bind fun first => .ite ?_ ?_
  · exact tracks_u2.bind fun _ => tracks_u2.bind fun _ => tracks_u2.bind fun _ =>
      (tracks_readPool _ _).bind fun _ => tracks_readBody
  · exact tracks_fail

end Tracks

/-! ## Nothing goes wrong -/

section Calm

variable {cp : List Cp} {fuel n k : ℕ}

theorem calm_readAnnotationWith {value : Reader (Option ElemValue)} (h : Calm n value)
    (ht : Tracks value) : Calm n (readAnnotationWith value) :=
  calm_u2.bind tracks_u2 fun _ => calm_u2.bind tracks_u2 fun _ =>
    ((calm_u2.bind tracks_u2 fun _ => h.bind ht fun _ => calm_pure _).times
      (tracks_u2.bind fun _ => ht.bind fun _ => tracks_pure _)).bind
      (tracks_u2.bind fun _ => ht.bind fun _ => tracks_pure _).times fun _ => calm_pure _

/-- A value is in fewer bytes than what it is a part of: it ends where these do. -/
theorem calm_readElementValue : Calm fuel (readElementValue fuel) := by
  induction fuel with
  | zero => exact fun c e h => absurd h (Nat.not_lt_zero _)
  | succ fuel ih =>
    refine Calm.u1_bind fun tag => .ite ?_ (.ite ?_ (.ite ?_ (.ite ?_ (.ite ?_ ?_))))
    · exact calm_u2.bind tracks_u2 fun _ => calm_pure _
    · exact calm_u2.bind tracks_u2 fun _ => calm_u2.bind tracks_u2 fun _ => calm_pure _
    · exact calm_u2.bind tracks_u2 fun _ => calm_pure _
    · exact (calm_readAnnotationWith ih tracks_readElementValue).bind
        (tracks_readAnnotationWith tracks_readElementValue) fun _ => calm_pure _
    · exact calm_u2.bind tracks_u2 fun _ =>
        (ih.times tracks_readElementValue).bind tracks_readElementValue.times fun _ => calm_pure _
    · exact calm_fail

theorem calm_readAnnotation : Calm fuel ( readAnnotation fuel) :=
  calm_readAnnotationWith calm_readElementValue tracks_readElementValue

theorem calm_scanFrom (out : Scanned) : Calm fuel (scanFrom cp fuel n out) := by
  induction n generalizing out with
  | zero => exact calm_pure _
  | succ n ih =>
    refine calm_readAnnotation.attempt.bind tracks_readAnnotation.attempt fun ann => ?_
    rcases ann with _ | ann
    · exact calm_pure _
    · exact ih _

theorem calm_scanAnnotations : Calm fuel (scanAnnotations cp fuel) := by
  refine calm_u2.attempt.bind tracks_u2.attempt fun num => ?_
  rcases num with _ | num
  · exact calm_pure _
  · exact calm_scanFrom _

theorem calm_skipAttributes : Calm n skipAttributes :=
  calm_u2.bind tracks_u2 fun _ =>
    ((calm_u2.bind tracks_u2 fun _ => calm_u4.bind tracks_u4 fun _ => calm_skip).times
      (tracks_u2.bind fun _ => tracks_u4.bind fun _ => tracks_skip)).bind
      (tracks_u2.bind fun _ => tracks_u4.bind fun _ => tracks_skip).times fun _ => calm_pure _

theorem calm_readMember (out : Finset String) : Calm n (readMember cp out) := by
  refine calm_u2.bind tracks_u2 fun _ => calm_u2.bind tracks_u2 fun _ => calm_u2.bind tracks_u2
    fun i => ?_
  rw [descTypes_eq]
  exact (calm_ofExcept_ok _).bind (tracks_ofExcept _) fun _ =>
    calm_skipAttributes.bind tracks_skipAttributes fun _ => calm_pure _

theorem calm_readMembers (out : Finset String) : Calm n (readMembers cp k out) := by
  induction k generalizing out with
  | zero => exact calm_pure _
  | succ k ih => exact (calm_readMember out).bind (tracks_readMember out) fun out => ih out

theorem calm_readClassAttribute (f : Facts) : Calm n (readClassAttribute cp f) := by
  refine calm_u2.bind tracks_u2 fun _ => calm_u4.bind tracks_u4 fun _ => .ite ?_ ?_
  · exact calm_scanAnnotations.within.bind tracks_scanAnnotations.within fun _ => calm_pure _
  · exact calm_skip.bind tracks_skip fun _ => calm_pure _

theorem calm_readClassAttributes (f : Facts) : Calm n (readClassAttributes cp k f) := by
  induction k generalizing f with
  | zero => exact calm_pure _
  | succ k ih =>
    exact (calm_readClassAttribute f).bind (tracks_readClassAttribute f) fun f => ih f

theorem calm_readHeader : Calm n (readHeader cp) := by
  refine calm_u2.bind tracks_u2 fun _ => calm_u2.bind tracks_u2 fun thisIndex => ?_
  rcases className cp thisIndex with _ | thisClass
  · exact calm_fail
  · exact calm_u2.bind tracks_u2 fun _ => calm_u2.bind tracks_u2 fun _ =>
      (calm_u2.times tracks_u2).bind tracks_u2.times fun _ => calm_pure _

/-- After the pool nothing goes wrong. -/
theorem calm_readBody : Calm n (readBody cp) := by
  rw [readBody, poolTypes_eq]
  exact calm_readHeader.bind tracks_readHeader fun _ => (calm_ofExcept_ok _).bind
    (tracks_ofExcept _) fun _ => calm_u2.bind tracks_u2 fun _ => (calm_readMembers _).bind
      (tracks_readMembers _) fun _ => calm_u2.bind tracks_u2 fun _ => (calm_readMembers _).bind
        (tracks_readMembers _) fun _ => calm_u2.bind tracks_u2 fun _ =>
          (calm_readClassAttributes _).bind (tracks_readClassAttributes _) fun _ => calm_pure _

end Calm

end ClassFile

end Smrt
