import Smrt.Lib.Records
import Smrt.Lib.Rows
import Smrt.Registry.Shelf

/-!
# The classes of a file, as they are stored

The hashes of the classes of a file are stored as one blob, a record of eight bytes for each, in
increasing order (`digestBlob`), and whether a class is in a file is a search among the records
(`artifactHasClass`), which reads none that is not there and comes to an end.

What is stored of a file is the names that were stored last (`stored`), and the answer says whether
the class is one of them, by its hash: `artifactHasClass_run`. A blob without records is taken for
none, so a file without classes is one that nothing was stored of (`answers_noClasses`).
-/

namespace Smrt

namespace Registry

/-- The column `class_digest`: of each file that there is, what is stored. -/
abbrev Digests := ℕ → Option (Option (List UInt8))

/-- The hashes of the names in increasing order, each once, as records. -/
def digestBlob (classNames : List String) : List UInt8 :=
  (((classNames.map classHash).insertionSort (· ≤ ·)).destutter (· ≠ ·)).flatMap (beBytes 8)

def setClassDigest (t : Digests) (versionId : ℕ) (classNames : List String) : Digests :=
  fun id => if id = versionId then (t id).map fun _ => some (digestBlob classNames) else t id

/-- A file is put down, without a digest unless it is there already. -/
def Digests.putVersion (t : Digests) (versionId : ℕ) : Digests :=
  fun id => if id = versionId then some ((t id).getD none) else t id

/-- Whether a file has a class; unknown without a blob of records. -/
def artifactHasClass (t : Digests) (versionId : ℕ) (binaryName : String) : Option Found :=
  ((t versionId).join.filter fun blob => blob ≠ [] ∧ blob.length % 8 = 0).map fun blob =>
    searchRecords 8 blob (beBytes 8 (classHash binaryName)) (blob.length / 8) 0 (blob.length / 8)

/-! ## What is stored -/

/-- What is done to the column. -/
inductive DigestOp
  | version (id : ℕ)
  | digest (id : ℕ) (classNames : List String)

def DigestOp.run (t : Digests) : DigestOp → Digests
  | .version id => t.putVersion id
  | .digest id classNames => setClassDigest t id classNames

/-- The names that were stored of each file that there is, if any were. -/
def DigestOp.note (names : ℕ → Option (Option (List String))) :
    DigestOp → ℕ → Option (Option (List String))
  | .version id => fun k => if k = id then some ((names k).getD none) else names k
  | .digest id classNames => fun k =>
      if k = id then (names k).map fun _ => some classNames else names k

/-- The column after what was done. -/
def digests (ops : List DigestOp) : Digests := ops.foldl DigestOp.run fun _ => none

/-- The names that were stored of a file last. -/
def stored (ops : List DigestOp) (versionId : ℕ) : Option (List String) :=
  (ops.foldl DigestOp.note (fun _ => none) versionId).join

/-- The column holds the names that were stored. -/
theorem digests_eq (ops : List DigestOp) (versionId : ℕ) :
    (digests ops versionId).join = (stored ops versionId).map digestBlob := by
  have hstep : ∀ (t : Digests) (names : ℕ → Option (Option (List String))) (op : DigestOp),
      (∀ id, t id = (names id).map fun n => n.map digestBlob) →
      ∀ id, op.run t id = (op.note names id).map fun n => n.map digestBlob := by
    intro t names op h id
    rcases op with k | ⟨k, classNames⟩
    · simp only [DigestOp.run, DigestOp.note, Digests.putVersion, h]
      split_ifs
      · rcases names id with _ | n <;> rfl
      · rfl
    · simp only [DigestOp.run, DigestOp.note, setClassDigest, h]
      split_ifs
      · rcases names id with _ | n <;> rfl
      · rfl
  have hrun : ∀ (t : Digests) (names : ℕ → Option (Option (List String))),
      (∀ id, t id = (names id).map fun n => n.map digestBlob) →
      ∀ id, ops.foldl DigestOp.run t id =
        (ops.foldl DigestOp.note names id).map fun n => n.map digestBlob := by
    induction ops with
    | nil => exact fun _ _ h => h
    | cons op ops ih => exact fun t names h => ih _ _ (hstep t names op h)
  rw [digests, stored, hrun (fun _ => none) (fun _ => none) (fun _ => rfl)]
  rcases ops.foldl DigestOp.note (fun _ => none) versionId with _ | _ | n <;> rfl

/-! ## Answers -/

section Answers

theorem classHash_lt (name : String) : classHash name < 256 ^ 8 := UInt64.toNat_lt _

/-- The hashes that are stored are those of the names, in increasing order. -/
theorem destutter_hashes (classNames : List String) :
    ((classNames.map classHash).insertionSort (· ≤ ·)).destutter (· ≠ ·) =
      (ClassDigest.ofNames classNames).hashes := by
  refine List.Pairwise.eq_of_mem_iff (pairwise_destutter_lt (List.pairwise_insertionSort _ _))
    (ClassDigest.ofNames classNames).increasing fun h => ?_
  rw [mem_destutter_ne, List.mem_insertionSort, ClassDigest.ofNames, List.mem_insertionSort,
    List.mem_dedup]

theorem mem_hashes {classNames : List String} {h : ℕ} :
    h ∈ (ClassDigest.ofNames classNames).hashes ↔ h ∈ classNames.map classHash := by
  rw [ClassDigest.ofNames, List.mem_insertionSort, List.mem_dedup]

/-- The search among the records of a blob says whether the class is one of the names. -/
theorem searchRecords_digestBlob (classNames : List String) (name : String) :
    searchRecords 8 (digestBlob classNames) (beBytes 8 (classHash name))
        ((digestBlob classNames).length / 8) 0 ((digestBlob classNames).length / 8) =
      .answer (classHash name ∈ classNames.map classHash) := by
  have hfits : ∀ h ∈ (ClassDigest.ofNames classNames).hashes, h < 256 ^ 8 := by
    intro h hh
    obtain ⟨n, -, rfl⟩ := List.mem_map.1 (mem_hashes.1 hh)
    exact classHash_lt n
  rw [digestBlob, destutter_hashes, length_records, Nat.mul_div_cancel _ (by omega),
    searchRecords_eq hfits (classHash_lt name) (Nat.sub_zero _).le le_rfl]
  refine congrArg Found.answer ?_
  rw [Bool.eq_iff_iff, ClassDigest.search_hashes, mem_hashes, decide_eq_true_iff]

/-- A blob has no records only if it was made of no names. -/
theorem digestBlob_eq_nil {classNames : List String} : digestBlob classNames = [] ↔
    classNames = [] := by
  rw [← List.length_eq_zero_iff, digestBlob, length_records, Nat.mul_eq_zero,
    or_iff_left (by omega), List.length_eq_zero_iff, List.destutter_eq_nil,
    ← List.length_eq_zero_iff, List.length_insertionSort, List.length_map,
    List.length_eq_zero_iff]

/-- The answer is about the names that were stored last, if there are any. -/
theorem artifactHasClass_run (ops : List DigestOp) (versionId : ℕ) (name : String) :
    artifactHasClass (digests ops) versionId name =
      ((stored ops versionId).filter fun classNames => classNames ≠ []).map fun classNames =>
        .answer (classHash name ∈ classNames.map classHash) := by
  rw [artifactHasClass, digests_eq]
  rcases stored ops versionId with _ | classNames
  · rfl
  · have hmod : (digestBlob classNames).length % 8 = 0 := by
      rw [digestBlob, length_records]
      exact Nat.mul_mod_left _ 8
    rw [Option.map_some]
    by_cases hnil : classNames = []
    · rw [hnil]
      rfl
    · have hblob : digestBlob classNames ≠ [] ∧ (digestBlob classNames).length % 8 = 0 :=
        ⟨mt digestBlob_eq_nil.1 hnil, hmod⟩
      rw [Option.filter_some, Option.filter_some, if_pos (decide_eq_true hblob),
        if_pos (decide_eq_true hnil), Option.map_some, Option.map_some, searchRecords_digestBlob]

/-- As it would be if a file without classes had an answer too. -/
structure Answers (ops : List DigestOp) (versionId : ℕ) (name : String) : Prop where
  yes : artifactHasClass (digests ops) versionId name = some (.answer true) ↔
    ∃ classNames, stored ops versionId = some classNames ∧
      classHash name ∈ classNames.map classHash
  no : artifactHasClass (digests ops) versionId name = some (.answer false) ↔
    ∃ classNames, stored ops versionId = some classNames ∧
      classHash name ∉ classNames.map classHash
  unknown : artifactHasClass (digests ops) versionId name = none ↔ stored ops versionId = none

/-- Of a file without classes it is not known that it has not a class. -/
theorem not_answers_noClasses : ¬ Answers [.version 1, .digest 1 []] 1 "net/author/Machine" := by
  intro h
  have hunknown : artifactHasClass (digests [.version 1, .digest 1 []]) 1 "net/author/Machine" =
      none := by decide
  exact absurd (h.unknown.1 hunknown) (by decide)

end Answers

end Registry

end Smrt
