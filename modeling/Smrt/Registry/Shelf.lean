import Mathlib.Data.List.GetD
import Smrt.Lib.Search
import Smrt.Registry.Browse
import Smrt.Registry.Semver

/-!
# What a pack is resolved against

The registry with the classes that its files define (`Shelf`). Of the classes of a file their hashes
are stored (`ClassDigest`), in order, so that one is found by halving; a file that nothing is stored
of has no answer.

* `ClassDigest.has_eq_false`: the answer is no if something is stored, and the hash is not in it.
-/

namespace Smrt

namespace Registry

/-! ## Classes -/

/-- The hash of the name of a class (FNV-1a), as a number of 64 bits. -/
def classHash (name : String) : ℕ :=
  ((name.toList.flatMap String.utf8EncodeChar).foldl
    (fun h b => (h ^^^ b.toUInt64) * 0x00000100000001b3) (0xcbf29ce484222325 : UInt64)).toNat

/-- The hashes of the classes of a file in increasing order, or none if nothing is stored. -/
structure ClassDigest where
  hashes : List ℕ
  increasing : hashes.Pairwise (· < ·)

namespace ClassDigest

/-- Nothing is stored. -/
def absent : ClassDigest := ⟨[], .nil⟩

/-- What is stored of the classes of a file (`set_class_digest`). -/
def ofNames (classNames : List String) : ClassDigest where
  hashes := ((classNames.map classHash).dedup).insertionSort (· ≤ ·)
  increasing := by
    have hn := (List.perm_insertionSort (· ≤ ·) (classNames.map classHash).dedup).nodup_iff.2
      (List.nodup_dedup _)
    refine (List.Pairwise.and (List.pairwise_insertionSort (· ≤ ·) _) hn).imp ?_
    rintro a b ⟨hle, hne⟩
    exact lt_of_le_of_ne hle hne

/-- Whether a class is in a file; unknown if nothing is stored of it. -/
def has (d : ClassDigest) (name : String) : Option Bool :=
  if d.hashes = [] then none
  else some (search (fun i => d.hashes.getD i 0) (classHash name) d.hashes.length 0 d.hashes.length)

/-- Something is stored, and the class is not in it. -/
def Lacks (d : ClassDigest) (name : String) : Prop := d.hashes ≠ [] ∧ classHash name ∉ d.hashes

/-- The search finds the hashes that are stored. -/
theorem search_hashes {d : ClassDigest} {h : ℕ} :
    search (fun i => d.hashes.getD i 0) h d.hashes.length 0 d.hashes.length = true ↔
      h ∈ d.hashes := by
  have hs : ∀ i j, i < j → j < d.hashes.length → d.hashes.getD i 0 < d.hashes.getD j 0 := by
    intro i j hij hj
    rw [List.getD_eq_getElem _ _ hj, List.getD_eq_getElem _ _ (hij.trans hj)]
    exact List.pairwise_iff_getElem.1 d.increasing i j _ hj hij
  rw [search_iff hs (Nat.sub_zero _).le le_rfl]
  constructor
  · rintro ⟨i, -, hi, he⟩
    exact he ▸ List.getD_eq_getElem d.hashes 0 hi ▸ List.getElem_mem hi
  · intro hm
    obtain ⟨i, hi, he⟩ := List.getElem_of_mem hm
    exact ⟨i, Nat.zero_le i, hi, (List.getD_eq_getElem _ _ hi).trans he⟩

theorem has_eq_false {d : ClassDigest} {name : String} : d.has name = some false ↔ d.Lacks name := by
  rw [has, Lacks]
  by_cases h : d.hashes = []
  · rw [if_pos h]
    exact iff_of_false (Option.some_ne_none false).symm fun hno => hno.1 h
  · rw [if_neg h, Option.some_inj, ← Bool.not_eq_true, search_hashes, and_iff_right h]

end ClassDigest

/-- The first segments of packages that are too broad to tell a mod. -/
def commonRoots : List String :=
  ["com", "net", "org", "io", "me", "dev", "gnu", "cpw", "cn", "ru", "pl", "fr", "de", "eu", "co",
    "uk", "tv", "xyz", "info", "mod", "mods", "cc", "gg", "app", "team", "site", "moe", "su"]

/-- What belongs to the platform, or to a library that anyone ships. -/
def stopPrefixes : List String :=
  ["java", "javax", "jdk", "sun", "com/sun", "kotlin", "scala", "groovy", "net/minecraft",
    "net/minecraftforge", "cpw/mods/fml", "cpw/mods/modlauncher", "net/neoforged", "net/fabricmc",
    "org/quiltmc", "com/mojang", "org/lwjgl", "org/lwjglx", "com/ibm/icu", "org/apache", "org/slf4j",
    "org/objectweb/asm", "org/ow2/asm", "org/spongepowered", "com/google", "io/netty",
    "it/unimi/dsi", "gnu/trove", "org/joml", "com/typesafe", "oshi", "org/jline", "joptsimple",
    "org/checkerframework", "org/intellij", "org/jetbrains", "javassist", "paulscode", "com/jcraft"]

/-- A name is this one, or below it. -/
def startsWithSegment (name start : String) : Bool :=
  (stripPrefix name start).any fun rest => rest = "" ∨ rest.toList.head? = some '/'

def isPlatform (binary : String) : Bool := stopPrefixes.any (startsWithSegment binary)

/-- The beginning of the package of a class that tells who owns it. -/
def packagePrefix (binary : String) : Option String :=
  let segs := binary.toList.splitOnP fun c => c = '/'
  let pkg := segs.dropLast
  -- A class of the default package has no slash, or nothing before it.
  if pkg = [] ∨ pkg = [[]] then none
  else
    let depth := if String.ofList (pkg.headD []) ∈ commonRoots then 3 else 2
    some (String.ofList (['/'].intercalate (pkg.take depth)))

example : packagePrefix "appeng/core/AppEng" = some "appeng/core" := by decide +kernel

example : packagePrefix "com/author/coolmod/Main" = some "com/author/coolmod" := by decide +kernel

example : isPlatform "net/minecraft/block/Block" = true := by decide +kernel

example : isPlatform "javaxtra/Foo" = false := by decide +kernel

/-! ## What is read -/

/-- The registry with what else a pack is resolved against. -/
structure Shelf extends Catalog where
  /-- What a loader ships itself. -/
  loaderProvides : List (String × String)
  /-- The version of a project that a file was published as. -/
  modrinthVersionId : ℕ → Option String
  classDigest : ℕ → ClassDigest

namespace Shelf

variable (s : Shelf)

def jarClassForSha1 (sha1 : String) : Option JarClassRow := s.jarClasses.find? fun c => c.sha1 = sha1

def versionForModrinthVersionId (versionId : String) : Option (ℕ × VersionRow) :=
  s.versions.rows.find? fun v => s.modrinthVersionId v.1 = some versionId

def newestSha1ForMod (modId : ℕ) : Option String :=
  (s.versions.rows.reverse.find? fun v => v.2.modId = modId).map fun v => v.2.sha1

/-- What a file depends on, with what its mod does in any version, the most trusted first. -/
def relationsForArtifact (versionId : Option ℕ) (modId : ℕ) : List RelationRow :=
  (s.relations.filter fun r =>
    if r.fromVersionId.isSome then r.fromVersionId = versionId else r.fromModId = modId).insertionSort
    fun r r' => r'.confidence ≤ r.confidence

def loaderProvidedCapabilities (loader : String) : List String :=
  (s.loaderProvides.filter fun p => p.1 = lower loader).map Prod.snd

/-- The classes that the mixins of a file need, with their configs. -/
def mixinNeeds (versionId : ℕ) : List (String × String) :=
  ((s.needs.filter fun n => n.1 = versionId).map Prod.snd).insertionSort
    fun n n' => n.1 < n'.1 ∨ n.1 = n'.1 ∧ n.2 ≤ n'.2

def artifactHasClass (versionId : ℕ) (name : String) : Option Bool := (s.classDigest versionId).has name

end Shelf

end Registry

end Smrt
