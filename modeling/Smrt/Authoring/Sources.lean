import Smrt.Domain.Pack
import Smrt.Lib.Except
import Smrt.Lib.Percent
import Smrt.Lib.Split
import Mathlib.Data.List.DropRight

/-!
# Sources

A declared file is resolved at build: a pinned version is asked of Modrinth, and of the registry
when Modrinth cannot answer; a cached jar and a static file are looked up in the store
(`resolveMod`, `resolveAsset`). What is outside, and what the store holds, is a parameter
(`Upstream`).

A static file is served under an address that ends in its path, percent-encoded
segment by segment (`staticUrl`).
-/

namespace Smrt

/-! ## Names of files -/

/-- Hexadecimal digits, and not none. -/
def isHex (text : String) : Bool :=
  text ≠ "" ∧ text.toList.all fun c =>
    c.isDigit ∨ ('a' ≤ c ∧ c ≤ 'f') ∨ ('A' ≤ c ∧ c ≤ 'F')

/-- A hexadecimal digit is no white space. -/
theorem not_isWhiteSpace_of_hex {c : Char}
    (h : c.isDigit = true ∨ ('a' ≤ c ∧ c ≤ 'f') ∨ ('A' ≤ c ∧ c ≤ 'F')) :
    isWhiteSpace c = false := by
  have hrange : 48 ≤ c.val.toNat ∧ c.val.toNat ≤ 102 := by
    rcases h with h | ⟨h₁, h₂⟩ | ⟨h₁, h₂⟩
    · obtain ⟨h₁, h₂⟩ := Bool.and_eq_true_iff.1 h
      have h₁ := UInt32.le_iff_toNat_le.1 (of_decide_eq_true h₁)
      have h₂ := UInt32.le_iff_toNat_le.1 (of_decide_eq_true h₂)
      exact ⟨h₁, Nat.le_trans h₂ (by decide)⟩
    · have h₁ := UInt32.le_iff_toNat_le.1 h₁
      have h₂ := UInt32.le_iff_toNat_le.1 h₂
      exact ⟨Nat.le_trans (by decide) h₁, h₂⟩
    · have h₁ := UInt32.le_iff_toNat_le.1 h₁
      have h₂ := UInt32.le_iff_toNat_le.1 h₂
      exact ⟨Nat.le_trans (by decide) h₁, Nat.le_trans h₂ (by decide)⟩
  rw [isWhiteSpace, decide_eq_false_iff_not]
  simp only [UInt32.le_iff_toNat_le, ← UInt32.toNat_inj, UInt32.toNat_ofNat]
  omega

def isSha1 (sha1 : String) : Bool := isHex sha1 ∧ sha1.utf8ByteSize = 40

/-- A segment of the path of a pack's own file: not empty, no hidden file, plain letters only. -/
def isSafeSegment (segment : String) : Bool :=
  segment ≠ "" ∧ segment.toList.head? ≠ some '.' ∧
    segment.toList.all fun c => c.isAlphanum ∨ c ∈ ['-', '_', '.', ' ', '(', ')', '+', ',', '[', ']']

/-- A path that does not lead out of where it is placed. -/
def isSafeRelPath (rel : String) : Bool :=
  rel ≠ "" ∧ rel.utf8ByteSize ≤ 512 ∧ rel.toList.head? ≠ some '/' ∧ '\\' ∉ rel.toList ∧
    (rel.splitOn "/").all isSafeSegment

/-- A name that a launcher may write into `mods/`. -/
def isSafeFilename (filename : String) : Bool :=
  filename ≠ "" ∧ filename.toList.head? ≠ some '.' ∧ '/' ∉ filename.toList ∧
    '\\' ∉ filename.toList

/-! ## Addresses -/

/-- The ASCII letters that are escaped in a segment. -/
def escaped (c : Char) : Bool :=
  c.toNat < 32 ∨ c.toNat = 127 ∨ c ∈ [' ', '"', '#', '%', '<', '>', '?', '[', '\\', ']', '^',
    Char.ofNat 96, '\x7b', '|', '\x7d', '/', '&', '=', '+']

def urlEncodeSegment (s : String) : String := percentEncode escaped s

/-- The address without the slashes at its end. -/
def trimEndSlashes (base : String) : String :=
  String.ofList (base.toList.rdropWhile fun c => c = '/')

/-- The cache shard of a hash: its first two letters. -/
def sha1Shard (sha1 : String) : String := String.ofList (sha1.toList.take 2)

def cacheUrl (base sha1 : String) : String :=
  trimEndSlashes base ++ "/v1/cache/" ++ sha1Shard sha1 ++ "/" ++ sha1 ++ ".jar"

def staticUrl (base packId relPath : String) : String :=
  trimEndSlashes base ++ "/v1/packs/" ++ urlEncodeSegment packId ++ "/static/" ++
    String.intercalate "/" ((relPath.splitOn "/").map urlEncodeSegment)

/-! ## Resolving -/

/-- A file of a Modrinth version. -/
structure VersionFile where
  sha1 : String
  size : UInt64
  primary : Bool

/-- The file that is flagged primary; if none is, the first one. -/
def primaryFile (files : List VersionFile) : Option VersionFile :=
  (files.find? fun f => f.primary).or files.head?

/-- What a build asks of others: the files of a version, of Modrinth; what the registry has
    recorded of a version; the size of a cached jar; and the bytes of a static file. An answer
    that is none says why. The store is in the directory `storage`. -/
structure Upstream where
  storage : String
  modrinth (projectId versionId : String) : Except String (List VersionFile)
  registry (versionId : String) : Option (String × UInt64)
  cacheJar (sha1 : String) : Except String UInt64
  staticFile (packId relPath : String) : Except String (List UInt8)
  sha1Hex : List UInt8 → String

/-- Where a cached jar is. -/
def Upstream.cacheJarPath (X : Upstream) (sha1 : String) : String :=
  X.storage ++ "/cache/" ++ sha1Shard sha1 ++ "/" ++ sha1 ++ ".jar"

/-- Where a static file is. -/
def Upstream.staticAssetPath (X : Upstream) (packId relPath : String) : String :=
  X.storage ++ "/packs/" ++ packId ++ "/static/" ++ relPath

/-- An error with what was being done. -/
def context {α : Type} (text : String) (r : Except String α) : Except String α :=
  r.mapError fun e => text ++ ": " ++ e

section Resolve

variable (X : Upstream) (debug : String → String) (mirrorBase : String)

def shipsNoFile (projectId versionId : String) : String :=
  "Modrinth version " ++ projectId ++ "/" ++ versionId ++ " ships no file -- upstream " ++
    "published the version without a jar; pin another one"

/-- The hash and the size of what a mod is built from, where it comes from, and whether the
    registry had to answer. -/
def resolveModSource (decl : DeclaredMod) : Except String (String × UInt64 × Source × Bool) :=
  match decl.source with
  | .modrinth projectId versionId =>
    match X.modrinth projectId versionId with
    | .ok files =>
      match primaryFile files with
      | some f => .ok (f.sha1, f.size, .modrinth projectId versionId, false)
      | none => .error (shipsNoFile projectId versionId)
    | .error upstream =>
      match X.registry versionId with
      | some (sha1, size) => .ok (sha1, size, .modrinth projectId versionId, true)
      | none => context ("resolving Modrinth mod " ++ decl.filename ++ " -- and the registry " ++
          "has no record of version " ++ versionId ++ ", so there is nothing to build it from")
          (.error upstream)
  | .smrtCache sha1 => do
    refuseIf (¬ isSha1 sha1) ("invalid sha1: " ++ sha1)
    let size ← context ("cache jar " ++ X.cacheJarPath sha1 ++ " not found for mod " ++
      decl.filename) (X.cacheJar sha1)
    .ok (sha1, size, .smrtCache (cacheUrl mirrorBase sha1), false)
  | .smrtStatic _ => .error ("mod " ++ decl.filename ++ " uses smrt_static source -- mods must " ++
      "be modrinth or smrt_cache")

def resolveMod (decl : DeclaredMod) : Except String (ModEntry × Bool) := do
  refuseIf (¬ isSafeFilename decl.filename)
    ("mod filename " ++ debug decl.filename ++ " is not a safe filename")
  let (sha1, sizeBytes, source, fellBack) ← resolveModSource X mirrorBase decl
  .ok ({ filename := decl.filename, sha1, sizeBytes, required := false,
         defaultEnabled := decl.defaultEnabled, source, display := decl.display,
         slug := decl.slug }, fellBack)

/-- The hash and the size of what an asset is built from, and where it comes from. -/
def resolveAssetSource (packId : String) (decl : DeclaredAsset) :
    Except String (String × UInt64 × Source) :=
  match decl.source with
  | .modrinth projectId versionId => do
    let files ← context ("resolving Modrinth asset " ++ decl.dest)
      (X.modrinth projectId versionId)
    match primaryFile files with
    | some f => .ok (f.sha1, f.size, .modrinth projectId versionId)
    | none => .error (shipsNoFile projectId versionId)
  | .smrtStatic relPath => do
    refuseIf (¬ isSafeRelPath relPath) ("invalid static rel_path: " ++ relPath)
    let bytes ← context ("static asset " ++ X.staticAssetPath packId relPath ++ " not found for " ++
      decl.dest) (X.staticFile packId relPath)
    .ok (X.sha1Hex bytes, UInt64.ofNat bytes.length,
      .smrtStatic (staticUrl mirrorBase packId relPath))
  | .smrtCache _ => .error ("asset " ++ decl.dest ++ " uses smrt_cache source -- assets must " ++
      "be modrinth or smrt_static")

def resolveAsset (packId : String) (decl : DeclaredAsset) : Except String AssetEntry := do
  refuseIf (¬ isSafeRelPath decl.dest)
    ("asset dest " ++ debug decl.dest ++ " is not a safe relative path")
  let (sha1, sizeBytes, source) ← resolveAssetSource X mirrorBase packId decl
  .ok { dest := decl.dest, sha1, sizeBytes, required := decl.required, source,
        display := decl.display }

end Resolve

end Smrt
