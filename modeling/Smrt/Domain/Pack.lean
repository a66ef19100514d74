import Mathlib.Data.List.Nodup
import Smrt.Domain.Manifest

/-!
# Packs

The card of a pack (`PackSummary`), and the config its authors edit (`PackConfig`),
from which a build resolves the manifest. Four fields of a config are
*server-owned* (`PackConfig.serverOwned`): an edit of the content must never move
them. The rest is authored, but for the `pulled` mods, which the dependency fill
appends and the server manages.

* `duplicateDeclaration`: the check that every row is declared once. It finds nothing
  exactly when the rows are `Distinct` (`duplicateDeclaration_eq_none`);
* `withAuthoredFrom`: a config wearing the authored content of another one.

A message quotes what a client wrote as the language prints a string for debugging;
how it does is a parameter (`debug`) of the texts.
-/

namespace Smrt

/-- The curation tier of a pack. -/
inductive PackTier
  | official
  | community
  deriving DecidableEq

/-- Whether a pack is published. -/
inductive Visibility
  | draft
  | unlisted
  | published
  deriving DecidableEq

/-- The card of a pack, as the listings show it. -/
structure PackSummary where
  packId : String
  displayName : String
  tagline : String
  minecraftVersion : String
  latestPackVersion : String
  tags : List String
  featured : Bool
  iconUrl : Option String
  bannerUrl : Option String
  galleryUrls : List String
  descriptionMd : Option String
  owner : Int64
  tier : PackTier
  visibility : Visibility
  forkOf : Option String
  deriving DecidableEq

/-- What a declared file is built from. -/
inductive SourceDecl
  | modrinth (projectId versionId : String)
  | smrtCache (sha1 : String)
  | smrtStatic (relPath : String)
  deriving DecidableEq

/-- A mod of a config. -/
structure DeclaredMod where
  filename : String
  defaultEnabled : Bool
  source : SourceDecl
  display : Option Display
  slug : Option String
  /-- Whether the dependency fill appended it. -/
  pulled : Bool
  deriving DecidableEq

/-- An asset of a config. -/
structure DeclaredAsset where
  dest : String
  required : Bool
  source : SourceDecl
  display : Option Display
  deriving DecidableEq

/-- The metadata of the card that a build copies to the summary. -/
structure PackMeta where
  iconUrl : Option String
  bannerUrl : Option String
  galleryUrls : List String
  descriptionMd : Option String
  deriving DecidableEq

/-- No metadata (`PackMeta::default`). -/
def PackMeta.default : PackMeta where
  iconUrl := none
  bannerUrl := none
  galleryUrls := []
  descriptionMd := none

/-- What the authors of a pack declare, from which a build resolves the manifest. -/
structure PackConfig where
  packId : String
  displayName : String
  tagline : String
  minecraftVersion : String
  loader : LoaderSpec
  javaMajor : UInt32
  version : Option String
  tags : List String
  featured : Bool
  mods : List DeclaredMod
  assets : List DeclaredAsset
  auth : Option AuthSpec
  packMeta : PackMeta
  owner : Int64
  tier : PackTier
  visibility : Visibility
  forkOf : Option String
  deriving DecidableEq

/-- A pack with nothing in it, an official one of nobody. -/
def PackConfig.empty (packId : String) : PackConfig where
  packId
  displayName := packId
  tagline := ""
  minecraftVersion := "1.12.2"
  loader := { name := "forge", version := "14.23.5.2922" }
  javaMajor := 8
  version := none
  tags := []
  featured := false
  mods := []
  assets := []
  auth := none
  packMeta := .default
  owner := 0
  tier := .official
  visibility := .published
  forkOf := none

/-- The fields of a config that no edit may move. -/
structure ServerOwned where
  owner : Int64
  tier : PackTier
  visibility : Visibility
  forkOf : Option String
  deriving DecidableEq

namespace PackConfig

variable (c other : PackConfig)

/-- Its server-owned fields. -/
def serverOwned : ServerOwned where
  owner := c.owner
  tier := c.tier
  visibility := c.visibility
  forkOf := c.forkOf

/-- The config with other server-owned fields. -/
def withServerOwned (s : ServerOwned) : PackConfig :=
  { c with owner := s.owner, tier := s.tier, visibility := s.visibility, forkOf := s.forkOf }

/-- What a client authors in a config: no server-owned field, no pulled mod. The
    revision of a config (`edit_rev`) is a digest of it. -/
def projected : PackConfig :=
  { c with
    owner := 0
    tier := .official
    visibility := .published
    forkOf := none
    mods := c.mods.filter fun m => !m.pulled }

/-- The identity and the server-owned fields of `c`, with everything else of `other`. -/
def withAuthoredFrom : PackConfig :=
  { other with
    packId := c.packId
    owner := c.owner
    tier := c.tier
    visibility := c.visibility
    forkOf := c.forkOf }

@[simp] theorem serverOwned_withServerOwned (s : ServerOwned) :
    (c.withServerOwned s).serverOwned = s := rfl

@[simp] theorem withServerOwned_serverOwned : c.withServerOwned c.serverOwned = c := rfl

@[simp] theorem withServerOwned_withServerOwned (s t : ServerOwned) :
    (c.withServerOwned s).withServerOwned t = c.withServerOwned t := rfl

@[simp] theorem packId_withAuthoredFrom : (c.withAuthoredFrom other).packId = c.packId := rfl

@[simp] theorem serverOwned_withAuthoredFrom :
    (c.withAuthoredFrom other).serverOwned = c.serverOwned := rfl

end PackConfig

/-! ## Duplicate declarations -/

/-- What identifies an artifact: not the pinned version, so that the same project at
    two versions is one mod declared twice. -/
def SourceDecl.identity : SourceDecl → String
  | .modrinth projectId _ => "modrinth project " ++ projectId
  | .smrtCache sha1 => "cache jar " ++ sha1
  | .smrtStatic relPath => "static file " ++ relPath

/-- An artifact: what a declaration is about, whatever the version. -/
inductive Artifact
  | project (projectId : String)
  | jar (sha1 : String)
  | file (relPath : String)
  deriving DecidableEq

/-- The artifact of a source. -/
def SourceDecl.artifact : SourceDecl → Artifact
  | .modrinth projectId _ => .project projectId
  | .smrtCache sha1 => .jar sha1
  | .smrtStatic relPath => .file relPath

/-- Strings with beginnings neither of which begins the other are different. -/
theorem append_ne_append {p q : String} (h : ¬ (p.toList <+: q.toList ∨ q.toList <+: p.toList))
    (s t : String) : p ++ s ≠ q ++ t := fun he => by
  have he : p.toList ++ s.toList = q.toList ++ t.toList := by
    rw [← String.toList_append, he, String.toList_append]
  exact h (List.prefix_or_prefix_of_prefix (he ▸ List.prefix_append p.toList s.toList)
    (List.prefix_append _ _))

/-- Names of artifacts that begin with the kind of the artifact tell them apart. -/
theorem artifact_eq_iff {name : SourceDecl → String} {project jar file : String}
    (hp : ∀ p v, name (.modrinth p v) = project ++ p) (hj : ∀ s, name (.smrtCache s) = jar ++ s)
    (hf : ∀ r, name (.smrtStatic r) = file ++ r)
    (hpj : ¬ (project.toList <+: jar.toList ∨ jar.toList <+: project.toList))
    (hpf : ¬ (project.toList <+: file.toList ∨ file.toList <+: project.toList))
    (hjf : ¬ (jar.toList <+: file.toList ∨ file.toList <+: jar.toList)) (s t : SourceDecl) :
    name s = name t ↔ s.artifact = t.artifact := by
  cases s <;> cases t <;>
    simp [hp, hj, hf, SourceDecl.artifact, append_ne_append hpj, append_ne_append hpf,
      append_ne_append hjf, (append_ne_append hpj _ _).symm, (append_ne_append hpf _ _).symm,
      (append_ne_append hjf _ _).symm]

/-- The identity is a name of the artifact. -/
theorem SourceDecl.identity_eq_iff (s t : SourceDecl) :
    s.identity = t.identity ↔ s.artifact = t.artifact :=
  artifact_eq_iff (fun _ _ => rfl) (fun _ => rfl) (fun _ => rfl) (by decide) (by decide)
    (by decide) s t

/-- A declaration made twice. -/
inductive Duplicate
  | identity (artifact filename : String)
  | filename (filename : String)
  | dest (dest : String)
  deriving DecidableEq

/-- The text of a duplicate, given how a string is printed for debugging. -/
def Duplicate.text (debug : String → String) : Duplicate → String
  | .identity artifact name => artifact ++ " is declared twice (second row: " ++ debug name ++ ")"
  | .filename name => "filename " ++ debug name ++ " is declared twice"
  | .dest path => "asset dest " ++ debug path ++ " is declared twice"

/-- The first mod that repeats an identity or a filename of the ones before it, whose
    identities and filenames are given. -/
def duplicateMod (identities filenames : List String) : List DeclaredMod → Option Duplicate
  | [] => none
  | m :: mods =>
    if m.source.identity ∈ identities then some (.identity m.source.identity m.filename)
    else if m.filename ∈ filenames then some (.filename m.filename)
    else duplicateMod (m.source.identity :: identities) (m.filename :: filenames) mods

/-- The first asset that repeats a destination of the ones before it. -/
def duplicateAsset (dests : List String) : List DeclaredAsset → Option Duplicate
  | [] => none
  | a :: assets =>
    if a.dest ∈ dests then some (.dest a.dest) else duplicateAsset (a.dest :: dests) assets

/-- The first duplicate declaration of a config, the mods' before the assets'. -/
def PackConfig.duplicateDeclaration (c : PackConfig) : Option Duplicate :=
  (duplicateMod [] [] c.mods).or (duplicateAsset [] c.assets)

/-- No two mods have one identity or one filename. -/
def DistinctMods (mods : List DeclaredMod) : Prop :=
  (mods.map fun m => m.source.identity).Nodup ∧ (mods.map fun m => m.filename).Nodup

/-- No two rows of a config declare the same thing. -/
def PackConfig.Distinct (c : PackConfig) : Prop :=
  DistinctMods c.mods ∧ (c.assets.map fun a => a.dest).Nodup

instance (mods : List DeclaredMod) : Decidable (DistinctMods mods) :=
  inferInstanceAs (Decidable (_ ∧ _))

instance (c : PackConfig) : Decidable c.Distinct := inferInstanceAs (Decidable (_ ∧ _))

theorem duplicateMod_eq_none {identities filenames : List String} {mods : List DeclaredMod} :
    duplicateMod identities filenames mods = none ↔
      DistinctMods mods ∧ (∀ m ∈ mods, m.source.identity ∉ identities) ∧
        ∀ m ∈ mods, m.filename ∉ filenames := by
  induction mods generalizing identities filenames with
  | nil => simp [duplicateMod, DistinctMods]
  | cons m mods ih =>
    rw [duplicateMod]
    by_cases hi : m.source.identity ∈ identities
    · simp [hi]
    by_cases hf : m.filename ∈ filenames
    · simp [hi, hf]
    rw [if_neg hi, if_neg hf, ih]
    simp only [DistinctMods, List.map_cons, List.nodup_cons, List.mem_map, List.mem_cons,
      not_or, not_exists, not_and, forall_eq_or_imp]
    constructor
    · rintro ⟨⟨hni, hnf⟩, him, hfm⟩
      exact ⟨⟨⟨fun n hn => (him n hn).1, hni⟩, fun n hn => (hfm n hn).1, hnf⟩,
        ⟨hi, fun n hn => (him n hn).2⟩, hf, fun n hn => (hfm n hn).2⟩
    · rintro ⟨⟨⟨hmi, hni⟩, hmf, hnf⟩, ⟨_, him⟩, _, hfm⟩
      exact ⟨⟨hni, hnf⟩, fun n hn => ⟨hmi n hn, him n hn⟩, fun n hn => ⟨hmf n hn, hfm n hn⟩⟩

theorem duplicateAsset_eq_none {dests : List String} {assets : List DeclaredAsset} :
    duplicateAsset dests assets = none ↔
      (assets.map fun a => a.dest).Nodup ∧ ∀ a ∈ assets, a.dest ∉ dests := by
  induction assets generalizing dests with
  | nil => simp [duplicateAsset]
  | cons a assets ih =>
    rw [duplicateAsset]
    by_cases hd : a.dest ∈ dests
    · simp [hd]
    rw [if_neg hd, ih]
    simp only [List.map_cons, List.nodup_cons, List.mem_map, List.mem_cons, not_or, not_exists,
      not_and, forall_eq_or_imp]
    constructor
    · rintro ⟨hn, hm⟩
      exact ⟨⟨fun b hb => (hm b hb).1, hn⟩, hd, fun b hb => (hm b hb).2⟩
    · rintro ⟨⟨ha, hn⟩, _, hm⟩
      exact ⟨hn, fun b hb => ⟨ha b hb, hm b hb⟩⟩

/-- The check passes exactly when the rows are distinct. -/
theorem PackConfig.duplicateDeclaration_eq_none {c : PackConfig} :
    c.duplicateDeclaration = none ↔ c.Distinct := by
  rw [duplicateDeclaration, Option.or_eq_none_iff, duplicateMod_eq_none, duplicateAsset_eq_none,
    Distinct]
  simp

/-! ## Distinct mods -/

/-- Fewer rows are still distinct. -/
theorem DistinctMods.sublist {mods mods' : List DeclaredMod} (h : DistinctMods mods)
    (hs : mods'.Sublist mods) : DistinctMods mods' :=
  ⟨h.1.sublist (hs.map _), h.2.sublist (hs.map _)⟩

/-- Changing rows in what is neither their artifact nor their filename. -/
theorem DistinctMods.map {mods : List DeclaredMod} (h : DistinctMods mods)
    {f : DeclaredMod → DeclaredMod} (hf : ∀ m, (f m).filename = m.filename)
    (hs : ∀ m, (f m).source = m.source) : DistinctMods (mods.map f) := by
  simpa [DistinctMods, Function.comp_def, hf, hs] using h

/-- One more row of a new artifact under a new filename. -/
theorem DistinctMods.concat {mods : List DeclaredMod} (h : DistinctMods mods) {m : DeclaredMod}
    (hi : ∀ n ∈ mods, n.source.identity ≠ m.source.identity)
    (hf : ∀ n ∈ mods, n.filename ≠ m.filename) : DistinctMods (mods ++ [m]) := by
  rw [DistinctMods, List.map_append, List.map_append, List.nodup_append, List.nodup_append]
  refine ⟨⟨h.1, List.nodup_singleton _, ?_⟩, h.2, List.nodup_singleton _, ?_⟩
  · simpa using hi
  · simpa using hf

end Smrt
