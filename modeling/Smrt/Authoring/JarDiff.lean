import Mathlib.Data.Finset.Card
import Smrt.Authoring.Bytecode
import Smrt.Lib.Keyed

/-!
# What was changed of a jar

A jar of the mirror is compared with the genuine one, file by file (`diffJars`). What an archive
says of its files is read, and not the files: two of them are taken for the same if their declared
checksums are (`diffTables`). The author of a jar writes these.

* `mem_changed`, `mem_added`, `mem_removed`: what is reported, by the checksums;
* `diffJars_exact_iff`: the report is right about the bytes (`Exact`) if and only if for the files
  that both jars have, the checksums agree exactly where the bytes do. Nothing is reported of a jar
  and itself.
-/

namespace Smrt

structure JarDiff where
  changedClasses : List String
  changedResources : List String
  /-- The files that only the jar of the mirror has. -/
  added : List String
  removed : List String
  /-- The number of the files that are the same. -/
  identical : ℕ
  deriving DecidableEq

namespace JarDiff

open Bootstrap (Bytes)
open Bytecode (isClassName)

/-- An entry of a jar: what its archive says of it, why it cannot be opened, if it cannot, and what
    is in it. -/
structure CrcEntry where
  name : String
  isDir : Bool
  crc32 : UInt32
  fault : Option String
  content : Bytes

/-- The checksums of files, by their names. -/
abbrev Index := List (String × UInt32)

/-- The checksums of more entries; of two files of a name it is the last one. -/
def indexEntries : List CrcEntry → Index → Except String Index
  | [], out => .ok out
  | e :: entries, out =>
    match e.fault with
    | some why => .error ("reading zip entry: " ++ why)
    | none => indexEntries entries (if e.isDir then out else put e.name e.crc32 out)

def crcIndex : Except String (List CrcEntry) → Except String Index
  | .error why => .error ("opening jar as zip: " ++ why)
  | .ok entries => indexEntries entries []

section Tables

variable (a b : Index)

/-- A file of the first table has another checksum in the second one. -/
def isChanged (p : String × UInt32) : Bool := (b.lookup p.1).any fun other => other ≠ p.2

def sortedNames (l : Index) : List String := (l.map Prod.fst).insertionSort (· ≤ ·)

def diffTables : JarDiff where
  changedClasses := sortedNames (a.filter fun p => isChanged b p && isClassName p.1)
  changedResources := sortedNames (a.filter fun p => isChanged b p && !isClassName p.1)
  added := sortedNames (a.filter fun p => (b.lookup p.1).isNone)
  removed := sortedNames (b.filter fun p => (a.lookup p.1).isNone)
  identical := (a.filter fun p => b.lookup p.1 = some p.2).length

end Tables

/-- What is different of a repackaged jar and the genuine one. -/
def diffJars (repack genuine : Except String (List CrcEntry)) : Except String JarDiff := do
  let a ← crcIndex repack
  let b ← crcIndex genuine
  .ok (diffTables a b)

/-! ## What a report has to be -/

/-- The file of a name. -/
def fileOf (entries : List CrcEntry) (n : String) : Option CrcEntry :=
  entries.reverse.find? fun e => e.name = n ∧ e.isDir = false

/-- The names of the files. -/
def fileNames (entries : List CrcEntry) : Finset String :=
  ((entries.filter fun e => !e.isDir).map CrcEntry.name).toFinset

/-- All entries can be opened. -/
def Readable (entries : List CrcEntry) : Prop := ∀ e ∈ entries, e.fault = none

/-- A report is right about the files of two jars: each name is in one place, and what is said of it
    is true of the bytes. -/
structure Exact (x y : List CrcEntry) (d : JarDiff) : Prop where
  once : (d.changedClasses ++ d.changedResources ++ d.added ++ d.removed).Nodup
  added : ∀ n, n ∈ d.added ↔ n ∈ fileNames x ∧ n ∉ fileNames y
  removed : ∀ n, n ∈ d.removed ↔ n ∈ fileNames y ∧ n ∉ fileNames x
  both : ∀ n ∈ d.changedClasses ++ d.changedResources, n ∈ fileNames x ∧ n ∈ fileNames y
  counted : d.identical = ((fileNames x ∩ fileNames y).filter fun n =>
    n ∉ d.changedClasses ++ d.changedResources).card
  classes : ∀ n ∈ d.changedClasses, isClassName n = true
  resources : ∀ n ∈ d.changedResources, isClassName n = false
  identical : ∀ n f g, fileOf x n = some f → fileOf y n = some g →
    n ∉ d.changedClasses ++ d.changedResources → f.content = g.content
  changed : ∀ n f g, fileOf x n = some f → fileOf y n = some g →
    n ∈ d.changedClasses ++ d.changedResources → f.content ≠ g.content

/-- The checksums tell the files apart that both jars have. -/
def Telling (x y : List CrcEntry) : Prop :=
  ∀ n f g, fileOf x n = some f → fileOf y n = some g →
    (f.crc32 = g.crc32 ↔ f.content = g.content)

section Index

variable {entries : List CrcEntry} {out a : Index} {n : String}

/-- A jar is indexed if all of it can be opened. -/
theorem indexEntries_isOk (h : Readable entries) : ∃ a, indexEntries entries out = .ok a := by
  induction entries generalizing out with
  | nil => exact ⟨out, rfl⟩
  | cons e entries ih =>
    obtain ⟨he, h⟩ := List.forall_mem_cons.1 h
    rw [indexEntries, he]
    exact ih h

theorem indexEntries_cons_eq_ok {e : CrcEntry} : indexEntries (e :: entries) out = .ok a ↔
    e.fault = none ∧
      indexEntries entries (if e.isDir then out else put e.name e.crc32 out) = .ok a := by
  rw [indexEntries]
  rcases e.fault with _ | why
  · exact (and_iff_right rfl).symm
  · exact iff_of_false nofun fun h => nomatch h.1

theorem increasing_indexEntries (ho : Increasing out) (h : indexEntries entries out = .ok a) :
    Increasing a := by
  induction entries generalizing out with
  | nil => exact Except.ok.inj h ▸ ho
  | cons e entries ih =>
    refine ih ?_ (indexEntries_cons_eq_ok.1 h).2
    split_ifs
    · exact ho
    · exact ho.put

/-- A later file of the name goes before an earlier one. -/
theorem fileOf_cons {e : CrcEntry} : fileOf (e :: entries) n =
    (fileOf entries n).or (if e.name = n ∧ e.isDir = false then some e else none) := by
  rw [fileOf, List.reverse_cons, List.find?_append, List.find?_singleton, ← fileOf]
  simp only [decide_eq_true_eq]

/-- The checksum of a name is the one of its file. -/
theorem lookup_indexEntries (h : indexEntries entries out = .ok a) :
    a.lookup n = ((fileOf entries n).map CrcEntry.crc32).or (out.lookup n) := by
  induction entries generalizing out with
  | nil =>
    obtain rfl := Except.ok.inj h
    rfl
  | cons e entries ih =>
    rw [ih (indexEntries_cons_eq_ok.1 h).2, fileOf_cons]
    rcases fileOf entries n with _ | f
    · rcases hd : e.isDir with _ | _
      · by_cases hn : n = e.name
        · simp [hn, lookup_put]
        · simp [hn, lookup_put, Ne.symm hn]
      · simp
    · rfl

theorem fileOf_isSome : (fileOf entries n).isSome ↔ n ∈ fileNames entries := by
  simp only [fileOf, fileNames, List.find?_isSome, List.mem_toFinset, List.mem_map, List.mem_filter,
    List.mem_reverse, decide_eq_true_eq, Bool.not_eq_true']
  constructor
  · rintro ⟨e, he, hn, hd⟩
    exact ⟨e, ⟨he, hd⟩, hn⟩
  · rintro ⟨e, ⟨he, hd⟩, hn⟩
    exact ⟨e, he, hn, hd⟩

end Index

section Tables

variable {x y : List CrcEntry} {a b : Index} {n : String}

theorem mem_sortedNames {l : Index} : n ∈ sortedNames l ↔ ∃ c, (n, c) ∈ l := by
  simp [sortedNames]

theorem nodup_sortedNames {l : Index} (h : Increasing l) : (sortedNames l).Nodup :=
  (List.perm_insertionSort _ _).nodup_iff.2 ((List.pairwise_map.2 h).imp ne_of_lt)

theorem mem_iff_lookup {c : UInt32} (ha : Increasing a) : (n, c) ∈ a ↔ a.lookup n = some c :=
  ⟨ha.lookup, mem_of_lookup⟩

/-- A file is changed if its checksums are not the same. -/
theorem mem_changed (ha : Increasing a) :
    n ∈ (diffTables a b).changedClasses ++ (diffTables a b).changedResources ↔
      ∃ c c', a.lookup n = some c ∧ b.lookup n = some c' ∧ c ≠ c' := by
  simp only [List.mem_append, diffTables, mem_sortedNames, List.mem_filter, mem_iff_lookup ha,
    isChanged, Bool.and_eq_true, Bool.not_eq_true', Option.any_eq_true, decide_eq_true_eq]
  constructor
  · rintro (⟨c, hc, ⟨c', hc', hne⟩, -⟩ | ⟨c, hc, ⟨c', hc', hne⟩, -⟩)
    · exact ⟨c, c', hc, hc', hne.symm⟩
    · exact ⟨c, c', hc, hc', hne.symm⟩
  · rintro ⟨c, c', hc, hc', hne⟩
    by_cases hclass : isClassName n = true
    · exact .inl ⟨c, hc, ⟨c', hc', hne.symm⟩, hclass⟩
    · exact .inr ⟨c, hc, ⟨c', hc', hne.symm⟩, Bool.not_eq_true _ ▸ hclass⟩

theorem class_of_changed (h : n ∈ (diffTables a b).changedClasses) : isClassName n = true := by
  obtain ⟨c, hc⟩ := mem_sortedNames.1 h
  exact (Bool.and_eq_true_iff.1 (List.mem_filter.1 hc).2).2

theorem resource_of_changed (h : n ∈ (diffTables a b).changedResources) :
    isClassName n = false := by
  obtain ⟨c, hc⟩ := mem_sortedNames.1 h
  simpa using (Bool.and_eq_true_iff.1 (List.mem_filter.1 hc).2).2

theorem mem_added (ha : Increasing a) :
    n ∈ (diffTables a b).added ↔ (a.lookup n).isSome ∧ b.lookup n = none := by
  simp only [diffTables, mem_sortedNames, List.mem_filter, mem_iff_lookup ha,
    Option.isNone_iff_eq_none, Option.isSome_iff_exists, exists_and_right]

theorem mem_removed (hb : Increasing b) :
    n ∈ (diffTables a b).removed ↔ (b.lookup n).isSome ∧ a.lookup n = none :=
  mem_added hb

/-- A name is reported once. -/
theorem nodup_diffTables (ha : Increasing a) (hb : Increasing b) :
    ((diffTables a b).changedClasses ++ (diffTables a b).changedResources ++
      (diffTables a b).added ++ (diffTables a b).removed).Nodup := by
  have hnodup : ∀ (l : Index) (p : String × UInt32 → Bool), Increasing l →
      (sortedNames (l.filter p)).Nodup := fun l p hl =>
    nodup_sortedNames (List.Pairwise.filter p hl)
  have hchanged : ((diffTables a b).changedClasses ++ (diffTables a b).changedResources).Nodup := by
    refine List.Nodup.append (hnodup a _ ha) (hnodup a _ ha) fun n hc hr => ?_
    exact absurd ((class_of_changed hc).symm.trans (resource_of_changed hr)) nofun
  refine List.Nodup.append (List.Nodup.append hchanged (hnodup a _ ha) fun n hc hn => ?_)
    (hnodup b _ hb) fun n hn hr => ?_
  · obtain ⟨c, c', -, hc', -⟩ := (mem_changed ha).1 hc
    exact absurd (hc'.symm.trans ((mem_added ha).1 hn).2) nofun
  · have hgone := ((mem_removed hb).1 hr).2
    rcases List.mem_append.1 hn with hc | hn
    · obtain ⟨c, c', hc, -, -⟩ := (mem_changed ha).1 hc
      exact absurd (hc.symm.trans hgone) nofun
    · have hthere := ((mem_added ha).1 hn).1
      rw [hgone] at hthere
      exact absurd hthere nofun

/-- The other files that both tables have are counted. -/
theorem identical_diffTables (ha : Increasing a) {names : Finset String}
    (hnames : ∀ n, n ∈ names ↔ (a.lookup n).isSome ∧ (b.lookup n).isSome) :
    (diffTables a b).identical = (names.filter fun n =>
      n ∉ (diffTables a b).changedClasses ++ (diffTables a b).changedResources).card := by
  have hnodup : ((a.filter fun p => b.lookup p.1 = some p.2).map Prod.fst).Nodup :=
    (List.pairwise_map.2 (List.Pairwise.filter _ ha)).imp ne_of_lt
  have hcount : (diffTables a b).identical =
      ((a.filter fun p => b.lookup p.1 = some p.2).map Prod.fst).toFinset.card := by
    rw [List.toFinset_card_of_nodup hnodup, List.length_map]
    rfl
  rw [hcount]
  refine congrArg Finset.card (Finset.ext fun n => ?_)
  rw [List.mem_toFinset, Finset.mem_filter, hnames, mem_changed ha, List.mem_map]
  constructor
  · rintro ⟨⟨n, c⟩, hp, rfl⟩
    obtain ⟨hmem, hsame⟩ := List.mem_filter.1 hp
    have hc := ha.lookup hmem
    have hc' : b.lookup n = some c := of_decide_eq_true hsame
    refine ⟨⟨by rw [hc]; rfl, by rw [hc']; rfl⟩, ?_⟩
    rintro ⟨d, d', hd, hd', hne⟩
    exact hne ((Option.some.inj (hc.symm.trans hd)).symm.trans
      (Option.some.inj (hc'.symm.trans hd')))
  · rintro ⟨⟨hx, hy⟩, hsame⟩
    obtain ⟨c, hc⟩ := Option.isSome_iff_exists.1 hx
    obtain ⟨c', hc'⟩ := Option.isSome_iff_exists.1 hy
    obtain rfl : c = c' := by
      by_contra hne
      exact hsame ⟨c, c', hc, hc', hne⟩
    exact ⟨(n, c), List.mem_filter.2 ⟨mem_of_lookup hc, decide_eq_true hc'⟩, rfl⟩

end Tables

section Exactness

variable {x y : List CrcEntry} {a b : Index} {n : String}

/-- A table has the files of its jar. -/
theorem lookup_crcIndex (h : crcIndex (.ok x) = .ok a) :
    a.lookup n = (fileOf x n).map CrcEntry.crc32 := by
  rw [lookup_indexEntries h]
  exact Option.or_none

theorem lookup_isSome (h : crcIndex (.ok x) = .ok a) : (a.lookup n).isSome ↔ n ∈ fileNames x := by
  rw [lookup_crcIndex h, Option.isSome_map, fileOf_isSome]

theorem lookup_eq_none (h : crcIndex (.ok x) = .ok a) : a.lookup n = none ↔ n ∉ fileNames x := by
  rw [← lookup_isSome h, Option.not_isSome_iff_eq_none]

/-- A report is right if and only if the checksums tell the files apart. -/
theorem exact_iff (hx : crcIndex (.ok x) = .ok a) (hy : crcIndex (.ok y) = .ok b) :
    Exact x y (diffTables a b) ↔ Telling x y := by
  have ha : Increasing a := increasing_indexEntries .nil hx
  have hb : Increasing b := increasing_indexEntries .nil hy
  -- What is reported of a file that both jars have.
  have hchanged : ∀ {n f g}, fileOf x n = some f → fileOf y n = some g →
      (n ∈ (diffTables a b).changedClasses ++ (diffTables a b).changedResources ↔
        f.crc32 ≠ g.crc32) := by
    intro n f g hf hg
    rw [mem_changed ha, lookup_crcIndex hx, lookup_crcIndex hy, hf, hg]
    simp
  constructor
  · intro h n f g hf hg
    by_cases hn : n ∈ (diffTables a b).changedClasses ++ (diffTables a b).changedResources
    · exact iff_of_false ((hchanged hf hg).1 hn) (h.changed n f g hf hg hn)
    · exact iff_of_true (not_not.1 (mt (hchanged hf hg).2 hn)) (h.identical n f g hf hg hn)
  · intro h
    refine
      { once := nodup_diffTables ha hb
        added := fun n => by rw [mem_added ha, lookup_isSome hx, lookup_eq_none hy]
        removed := fun n => by rw [mem_removed hb, lookup_isSome hy, lookup_eq_none hx]
        both := fun n hn => ?_
        counted := identical_diffTables ha fun n => by
          rw [Finset.mem_inter, lookup_isSome hx, lookup_isSome hy]
        classes := fun n hn => class_of_changed hn
        resources := fun n hn => resource_of_changed hn
        identical := fun n f g hf hg hn => ?_
        changed := fun n f g hf hg hn => ?_ }
    · obtain ⟨c, c', hc, hc', -⟩ := (mem_changed ha).1 hn
      rw [← lookup_isSome hx, ← lookup_isSome hy, hc, hc']
      exact ⟨rfl, rfl⟩
    · exact (h n f g hf hg).1 (not_not.1 (mt (hchanged hf hg).2 hn))
    · exact mt (h n f g hf hg).2 ((hchanged hf hg).1 hn)

/-- Nothing is reported of a jar and itself. -/
theorem diffTables_self (ha : Increasing a) :
    diffTables a a = ⟨[], [], [], [], a.length⟩ := by
  have hsame : ∀ p ∈ a, a.lookup p.1 = some p.2 := fun p hp => ha.lookup hp
  have hnone : ∀ q : String × UInt32 → Bool, (∀ p ∈ a, q p = false) → a.filter q = [] :=
    fun q hq => List.filter_eq_nil_iff.2 fun p hp => by simp [hq p hp]
  rw [diffTables, hnone _ fun p hp => by simp [isChanged, hsame p hp],
    hnone _ fun p hp => by simp [isChanged, hsame p hp], hnone _ fun p hp => by simp [hsame p hp],
    List.filter_eq_self.2 fun p hp => decide_eq_true (hsame p hp)]
  rfl

end Exactness

/-- What is reported of two jars that can be read is right if and only if the declared checksums
    tell their files apart. Nothing is reported of a jar and itself. -/
theorem diffJars_exact_iff {x y : List CrcEntry} (hx : Readable x) (hy : Readable y) :
    (∃ d, diffJars (.ok x) (.ok y) = .ok d ∧ (Exact x y d ↔ Telling x y)) ∧
      ∃ n, diffJars (.ok x) (.ok x) = .ok ⟨[], [], [], [], n⟩ := by
  obtain ⟨a, ha⟩ : ∃ a, crcIndex (.ok x) = .ok a := indexEntries_isOk hx
  obtain ⟨b, hb⟩ : ∃ b, crcIndex (.ok y) = .ok b := indexEntries_isOk hy
  constructor
  · refine ⟨diffTables a b, ?_, exact_iff ha hb⟩
    rw [diffJars, ha, hb]
    rfl
  · refine ⟨a.length, ?_⟩
    rw [diffJars, ha]
    exact congrArg _ (diffTables_self (increasing_indexEntries .nil ha))

/-- A jar with one class. -/
def oneClass (crc32 : UInt32) (content : Bytes) : List CrcEntry :=
  [⟨"a/Foo.class", false, crc32, none, content⟩]

/-- A class that was changed, with a checksum of its own. -/
theorem diffJars_exact_changed :
    (∃ d, diffJars (.ok (oneClass 1 [1])) (.ok (oneClass 2 [2])) = .ok d ∧
        (Exact (oneClass 1 [1]) (oneClass 2 [2]) d ↔ Telling (oneClass 1 [1]) (oneClass 2 [2]))) ∧
      ∃ n, diffJars (.ok (oneClass 1 [1])) (.ok (oneClass 1 [1])) = .ok ⟨[], [], [], [], n⟩ :=
  diffJars_exact_iff (List.forall_mem_singleton.2 rfl) (List.forall_mem_singleton.2 rfl)

/-- A class that was changed, and declares the checksum of the genuine one: it is counted as the
    same. -/
theorem diffJars_not_exact : ∃ d,
    diffJars (.ok (oneClass 0xD87F7E0C [0])) (.ok (oneClass 0xD87F7E0C [116, 101, 115, 116])) =
        .ok d ∧
      ¬ Exact (oneClass 0xD87F7E0C [0]) (oneClass 0xD87F7E0C [116, 101, 115, 116]) d := by
  refine ⟨⟨[], [], [], [], 1⟩, by decide +kernel, fun h => ?_⟩
  have hsame := h.identical "a/Foo.class" _ _ rfl rfl List.not_mem_nil
  exact absurd hsame (by decide)

end JarDiff

end Smrt
