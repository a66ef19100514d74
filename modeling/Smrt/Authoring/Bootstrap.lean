import Mathlib.Data.List.DropRight
import Mathlib.Data.List.Sort
import Smrt.Authoring.Manifest
import Smrt.Http.Ownership
import Smrt.Lib.Rows

/-!
# Bootstrapping a pack from an archive

An instance archive has the jars of a pack under `mods/`, and its other files in an archive of its
own, `extra.zip`. A bootstrap reads both (`extract_mods`, `extract_extra_assets`), asks Modrinth
about the jars by their hashes, and makes a config of what it has found: a jar that Modrinth has for
the version and the loader of the pack is pinned there, every other one goes to the cache, and the
files of `extra.zip` to the static files of the pack (`bootstrap`).

The reader takes the last segment of a path for the name of a jar, whatever the folder, and nothing
looks at the names and the jars together. So the config of an archive can be one that no editor
would be let store, and that no build resolves (`bootstrap_sameName`). When it can be edited and
built is said exactly (`bootstrap_usable_iff`).
-/

namespace Smrt

namespace Bootstrap

open Ownership (BootstrapArgs)

/-- The bytes of a file. -/
abbrev Bytes := List UInt8

/-! ## Archives -/

/-- An entry of an archive, as it is read: what it is called, whether it is a file, the size it
    declares, why it cannot be opened, if it cannot, and what reading it gives. -/
structure Entry where
  name : String
  isFile : Bool
  size : ℕ
  fault : Option String
  content : Except String Bytes

/-- An archive, as it is read. -/
abbrev Archive := Except String (List Entry)

structure DiscoveredMod where
  sha1 : String
  filename : String
  bytes : Bytes
  deriving DecidableEq

structure DiscoveredAsset where
  relPath : String
  bytes : Bytes
  deriving DecidableEq

/-- A version that Modrinth has of a jar. -/
structure Hit where
  projectId : String
  id : String
  gameVersions : List String
  loaders : List String

/-- What a bootstrap has from outside: the mirror's own, archives, hashes, Modrinth's answer to
    a list of them, the paths that the file system does not write, and the numbers of the process
    and of its temporary files. -/
structure World where
  outside : Outside
  openZip : Bytes → Archive
  sha1Hex : Bytes → String
  versionFiles : List String → Except String (String → Option Hit)
  refuses : String → Option String
  pid : ℕ
  seq : ℕ → ℕ

def maxEntryBytes : ℕ := 512 * 1024 * 1024

/-- The bytes of an entry, if they are not too many. -/
def readZipEntry (declared : ℕ) (content : Except String Bytes) (name : String) :
    Except String Bytes := do
  refuseIf (maxEntryBytes < declared) ("zip entry " ++ name ++ " declares " ++ toString declared ++
    " bytes (over the " ++ toString maxEntryBytes ++ " cap)")
  let bytes ← context ("reading zip entry " ++ name) content
  refuseIf (maxEntryBytes < bytes.length)
    ("zip entry " ++ name ++ " exceeds the " ++ toString maxEntryBytes ++ " byte cap")
  .ok bytes

/-- The first segment of a path. -/
def firstSegment (name : String) : List Char := name.toList.takeWhile fun c => c ≠ '/'

/-- The last segment of a path. -/
def baseName (name : String) : String := String.ofList (name.toList.rtakeWhile fun c => c ≠ '/')

/-- A jar under `mods/`. -/
def isModName (name : String) : Bool :=
  firstSegment name = "mods".toList ∧ ".jar".toList <:+ name.toList ∧ baseName name ≠ ""

/-- An entry of `extra.zip` that may lead out of where it is placed. -/
def suspicious (name : String) : Bool :=
  ['.', '.'] <:+: name.toList ∨ name.toList.head? = some '/'

section Reading

variable (W : World)

def extractMods : List Entry → Except String (List DiscoveredMod)
  | [] => .ok []
  | e :: entries =>
    match e.fault with
    | some why => .error ("reading zip entry: " ++ why)
    | none =>
      if e.isFile ∧ isModName e.name then do
        let bytes ← readZipEntry e.size e.content e.name
        let mods ← extractMods entries
        .ok (⟨W.sha1Hex bytes, baseName e.name, bytes⟩ :: mods)
      else extractMods entries

/-- The files of `extra.zip`. -/
def extractInner : List Entry → Except String (List DiscoveredAsset)
  | [] => .ok []
  | e :: entries =>
    match e.fault with
    | some why => .error ("reading extra.zip entry: " ++ why)
    | none =>
      if e.isFile ∧ ¬ suspicious e.name then do
        let bytes ← readZipEntry e.size e.content e.name
        let assets ← extractInner entries
        .ok (⟨e.name, bytes⟩ :: assets)
      else extractInner entries

/-- The entry with `extra.zip`, if it can be opened. -/
def extraZip (entries : List Entry) : Option Entry :=
  (entries.find? fun e => e.name = "extra.zip").filter fun e => e.fault = none

def extractExtraAssets (entries : List Entry) : Except String (List DiscoveredAsset) :=
  match extraZip entries with
  | none => .ok []
  | some e => do
    let bytes ← readZipEntry e.size e.content "extra.zip"
    let inner ← context "opening extra.zip" (W.openZip bytes)
    extractInner inner

/-! ## Staging -/

/-- Where things are staged: the cached jars by their hashes, the hashes that may not come back,
    and the static files of the pack by their paths. -/
structure Store where
  cache : String → Option Bytes
  removed : List String
  static : String → Option Bytes

/-- What is wrong with a path, when the file system does not write it. -/
def written (path : String) : Except String Unit :=
  match W.refuses path with
  | some why => .error why
  | none => .ok ()

/-- A jar is written where its hash says, unless there is one already. -/
def writeToCache (store : Store) (sha1 : String) (bytes : Bytes) : Except String Store := do
  refuseIf (¬ isSha1 sha1) ("invalid sha1: " ++ sha1)
  refuseIf (sha1 ∈ store.removed)
    ("sha1 " ++ sha1 ++ " is on the removed-list (takedown) and cannot be re-ingested")
  match store.cache sha1 with
  | some _ => .ok store
  | none => do
    written W ("cache/" ++ sha1Shard sha1 ++ "/" ++ sha1 ++ ".jar")
    .ok { store with cache := Function.update store.cache sha1 (some bytes) }

/-- The name of a file without what is after its last dot. -/
def fileStem (name : List Char) : List Char :=
  match name.reverse.dropWhile fun c => c ≠ '.' with
  | '.' :: before => if before = [] then name else before.reverse
  | _ => name

/-- A path with another extension. -/
def withExtension (path extension : String) : String :=
  String.ofList (path.toList.rdropWhile (fun c => c ≠ '/') ++
    fileStem (path.toList.rtakeWhile fun c => c ≠ '/') ++ '.' :: extension.toList)

/-- The temporary file of the `n`-th write. -/
def tmpPath (n : ℕ) (relPath : String) : String :=
  withExtension relPath ("tmp." ++ toString W.pid ++ "." ++ toString (W.seq n))

/-- A file is written into a temporary one, which takes its place. -/
def writeToStatic (n : ℕ) (static : String → Option Bytes) (relPath : String) (bytes : Bytes) :
    Except String (String → Option Bytes) := do
  refuseIf (¬ isSafeRelPath relPath) ("unsafe static rel_path: " ++ relPath)
  written W (tmpPath W n relPath)
  written W relPath
  .ok (Function.update (Function.update static (tmpPath W n relPath) none) relPath (some bytes))

variable (args : BootstrapArgs) (hits : String → Option Hit)

/-- What Modrinth has of a jar for the version and the loader of the pack. -/
def matched (m : DiscoveredMod) : Option Hit :=
  (hits m.sha1).filter fun hit =>
    hit.gameVersions.any (fun v => v = args.minecraftVersion) ∧
      hit.loaders.any fun l => l.toList.map Char.toLower = args.loader.name.toList.map Char.toLower

/-- The row of a jar. -/
def declaredMod (m : DiscoveredMod) : DeclaredMod where
  filename := m.filename
  defaultEnabled := true
  source := match matched args hits m with
    | some hit => .modrinth hit.projectId hit.id
    | none => .smrtCache m.sha1
  display := none
  slug := none
  pulled := false

/-- The row of a file. -/
def declaredAsset (a : DiscoveredAsset) : DeclaredAsset where
  dest := a.relPath
  required := true
  source := .smrtStatic a.relPath
  display := none

/-- A jar that is not pinned goes to the cache. -/
def stageMod (m : DiscoveredMod) (store : Store) : Except String Store :=
  if (matched args hits m).isSome then .ok store else writeToCache W store m.sha1 m.bytes

def stageMods : List DiscoveredMod → Store → Except String Store
  | [], store => .ok store
  | m :: mods, store => do
    let store ← stageMod W args hits m store
    stageMods mods store

/-- The files go to the static files of the pack. -/
def stageExtras : ℕ → List DiscoveredAsset → (String → Option Bytes) →
    Except String (String → Option Bytes)
  | _, [], static => .ok static
  | n, a :: extras, static => do
    let static ← writeToStatic W n static a.relPath a.bytes
    stageExtras (n + 1) extras static

/-- What is found in an archive, and what Modrinth has of it. -/
structure Found where
  mods : List DiscoveredMod
  extras : List DiscoveredAsset
  hits : String → Option Hit

def discover (archive : Archive) : Except String Found := do
  let entries ← context "opening the instance archive as zip" archive
  let mods ← extractMods W entries
  let extras ← extractExtraAssets W entries
  refuseIf (mods = []) "no mods/*.jar in archive -- wrong archive layout?"
  let hits ← W.versionFiles (mods.map fun m => m.sha1)
  .ok ⟨mods, extras, hits⟩

/-- The config of an archive, and where its files are then. -/
def bootstrap (archive : Archive) (store : Store) : Except String (PackConfig × Store) := do
  refuseIf (¬ isSafeId args.packId) ("invalid pack id " ++ W.outside.debug args.packId)
  let found ← discover W archive
  let staged ← stageMods W args found.hits found.mods store
  let static ← stageExtras W 0 found.extras staged.static
  let mods := (found.mods.map (declaredMod args found.hits)).insertionSort
    fun a b => a.filename ≤ b.filename
  let assets := (found.extras.map declaredAsset).insertionSort fun a b => a.dest ≤ b.dest
  .ok (Ownership.bootstrap W.outside args mods assets, { staged with static })

end Reading

/-! ## What a config is good for -/

/-- A jar under `mods/` of the archive. -/
def Jar (archive : Archive) (e : Entry) (bytes : Bytes) : Prop :=
  ∃ entries, archive = .ok entries ∧ e ∈ entries ∧ e.isFile = true ∧
    isModName e.name = true ∧ e.content = .ok bytes

section Usable

variable (W : World) (args : BootstrapArgs)

/-- A file of `extra.zip` that is not skipped as unsafe. -/
def Extra (archive : Archive) (e : Entry) (bytes : Bytes) : Prop :=
  ∃ entries x zipped inner, archive = .ok entries ∧ extraZip entries = some x ∧
    x.content = .ok zipped ∧ W.openZip zipped = .ok inner ∧ e ∈ inner ∧ e.isFile = true ∧
    suspicious e.name = false ∧ e.content = .ok bytes

/-- What a build reads: the staged files, and the rest from outside. -/
def reading (store : Store) (X : Upstream) : Upstream where
  storage := X.storage
  modrinth := X.modrinth
  registry := X.registry
  cacheJar sha1 := match store.cache sha1 with
    | some bytes => .ok (UInt64.ofNat bytes.length)
    | none => .error "no such file"
  staticFile _ relPath := match store.static relPath with
    | some bytes => .ok bytes
    | none => .error "no such file"
  sha1Hex := W.sha1Hex

/-- A config that can be edited and built: no row is declared twice, the names and the destinations
    pass the checks of the build, what the rows name is staged with the bytes of the archive, every
    jar and every file of the archive has a row, and what is staged is resolved. -/
structure Usable (archive : Archive) (cfg : PackConfig) (store : Store) : Prop where
  distinct : cfg.duplicateDeclaration = none
  filenames : ∀ m ∈ cfg.mods, isSafeFilename m.filename = true
  dests : ∀ a ∈ cfg.assets, isSafeRelPath a.dest = true
  cached : ∀ m ∈ cfg.mods, ∀ sha1, m.source = .smrtCache sha1 → ∃ e bytes, Jar archive e bytes ∧
    baseName e.name = m.filename ∧ W.sha1Hex bytes = sha1 ∧ store.cache sha1 = some bytes
  static : ∀ a ∈ cfg.assets, ∀ relPath, a.source = .smrtStatic relPath → ∃ e bytes,
    Extra W archive e bytes ∧ e.name = a.dest ∧ store.static relPath = some bytes
  jars : ∀ e bytes, Jar archive e bytes → ∃ m ∈ cfg.mods, m.filename = baseName e.name ∧
    ∀ sha1, m.source = .smrtCache sha1 → store.cache sha1 = some bytes
  files : ∀ e bytes, Extra W archive e bytes → ∃ a ∈ cfg.assets, a.dest = e.name ∧
    a.source = .smrtStatic e.name ∧ store.static e.name = some bytes
  builds : ∀ X debug mirrorBase,
    (∀ m ∈ cfg.mods, ∀ sha1, m.source = .smrtCache sha1 →
      ∃ p, resolveMod (reading W store X) debug mirrorBase m = .ok p) ∧
    ∀ a ∈ cfg.assets, ∃ e, resolveAsset (reading W store X) debug mirrorBase cfg.packId a = .ok e

/-- Two jars that are one artifact: of one project, if Modrinth has both of them, and with one hash
    if it has none of them. -/
def SameJar (hits : String → Option Hit) (m n : DiscoveredMod) : Prop :=
  match matched args hits m, matched args hits n with
  | some hit, some hit' => hit.projectId = hit'.projectId
  | none, none => m.sha1 = n.sha1
  | _, _ => False

/-- An archive whose config can be edited and built: the jars have names of their own, plain ones,
    and are artifacts of their own; the files have paths of their own; the cache has no other jar of
    the same hash; and no temporary file of a write is a file that was written before. -/
structure Fits (found : Found) (store : Store) : Prop where
  names : (found.mods.map fun m => m.filename).Nodup
  plain : ∀ m ∈ found.mods, m.filename.toList.head? ≠ some '.' ∧ '\\' ∉ m.filename.toList
  jars : found.mods.Pairwise fun m n => ¬ SameJar args found.hits m n
  files : (found.extras.map fun a => a.relPath).Nodup
  cache : ∀ m ∈ found.mods, matched args found.hits m = none →
    ∀ bytes ∈ store.cache m.sha1, bytes = m.bytes
  temporary : found.extras.zipIdx.Pairwise fun a b => tmpPath W b.2 b.1.relPath ≠ a.1.relPath

end Usable

/-! ## What is read -/

section Read

variable {W : World} {args : BootstrapArgs} {hits : String → Option Hit}

theorem readZipEntry_eq_ok {declared : ℕ} {content : Except String Bytes} {name : String}
    {bytes : Bytes} (h : readZipEntry declared content name = .ok bytes) : content = .ok bytes := by
  simp only [readZipEntry, bind_eq_ok, refuseIf_eq_ok] at h
  obtain ⟨_, _, x, hx, _, _, h⟩ := h
  exact Except.ok.inj h ▸ mapError_eq_ok.1 hx

/-- The jars that are found are those of the archive, in order. -/
theorem forall₂_extractMods {entries : List Entry} {mods : List DiscoveredMod}
    (h : extractMods W entries = .ok mods) :
    List.Forall₂ (fun e m => e.content = .ok m.bytes ∧ m.filename = baseName e.name ∧
      m.sha1 = W.sha1Hex m.bytes) (entries.filter fun e => e.isFile ∧ isModName e.name) mods := by
  induction entries generalizing mods with
  | nil => exact Except.ok.inj h ▸ .nil
  | cons e entries ih =>
    rw [extractMods] at h
    split at h
    · exact absurd h nofun
    · split_ifs at h with hmod
      · obtain ⟨bytes, hbytes, h⟩ := bind_eq_ok.1 h
        obtain ⟨mods', hmods, h⟩ := bind_eq_ok.1 h
        rw [← Except.ok.inj h, List.filter_cons, if_pos (decide_eq_true hmod)]
        exact .cons ⟨readZipEntry_eq_ok hbytes, rfl, rfl⟩ (ih hmods)
      · rw [List.filter_cons, if_neg fun ht => hmod (of_decide_eq_true ht)]
        exact ih h

/-- The files that are found are those of `extra.zip`, in order. -/
theorem forall₂_extractInner {entries : List Entry} {extras : List DiscoveredAsset}
    (h : extractInner entries = .ok extras) :
    List.Forall₂ (fun e a => e.content = .ok a.bytes ∧ a.relPath = e.name)
      (entries.filter fun e => e.isFile ∧ ¬ suspicious e.name) extras := by
  induction entries generalizing extras with
  | nil => exact Except.ok.inj h ▸ .nil
  | cons e entries ih =>
    rw [extractInner] at h
    split at h
    · exact absurd h nofun
    · split_ifs at h with hfile
      · obtain ⟨bytes, hbytes, h⟩ := bind_eq_ok.1 h
        obtain ⟨extras', hextras, h⟩ := bind_eq_ok.1 h
        rw [← Except.ok.inj h, List.filter_cons, if_pos (decide_eq_true hfile)]
        exact .cons ⟨readZipEntry_eq_ok hbytes, rfl⟩ (ih hextras)
      · rw [List.filter_cons, if_neg fun ht => hfile (of_decide_eq_true ht)]
        exact ih h

/-- The base name of a jar is one a launcher may write, if it is plain. -/
theorem isSafeFilename_baseName {name : String} (h : isModName name = true) :
    isSafeFilename (baseName name) = true ↔
      (baseName name).toList.head? ≠ some '.' ∧ '\\' ∉ (baseName name).toList := by
  obtain ⟨_, _, hne⟩ := of_decide_eq_true h
  have hslash : '/' ∉ (baseName name).toList := fun hmem => by
    rw [baseName, String.toList_ofList] at hmem
    have hne := List.mem_rtakeWhile_imp (p := fun c => decide (c ≠ '/')) hmem
    exact absurd hne nofun
  rw [isSafeFilename, decide_eq_true_iff]
  exact ⟨fun ⟨_, hdot, _, hback⟩ => ⟨hdot, hback⟩, fun ⟨hdot, hback⟩ => ⟨hne, hdot, hslash, hback⟩⟩

/-- What is found is what is in the archive. -/
theorem discover_eq_ok {archive : Archive} {found : Found} (h : discover W archive = .ok found) :
    (∀ e bytes, Jar archive e bytes → ∃ m ∈ found.mods, m.filename = baseName e.name ∧
      m.bytes = bytes ∧ m.sha1 = W.sha1Hex bytes) ∧
    (∀ m ∈ found.mods, ∃ e, Jar archive e m.bytes ∧ m.filename = baseName e.name ∧
      m.sha1 = W.sha1Hex m.bytes) ∧
    (∀ e bytes, Extra W archive e bytes → ∃ a ∈ found.extras, a.relPath = e.name ∧
      a.bytes = bytes) ∧
    ∀ a ∈ found.extras, ∃ e, Extra W archive e a.bytes ∧ a.relPath = e.name := by
  simp only [discover, bind_eq_ok, refuseIf_eq_ok] at h
  obtain ⟨entries, hentries, mods, hmods, extras, hextras, _, _, hits, _, h⟩ := h
  obtain rfl := Except.ok.inj h
  have hopen := mapError_eq_ok.1 hentries
  have hjars := forall₂_extractMods hmods
  refine ⟨?_, fun m hm => ?_, ?_, fun a ha => ?_⟩
  · rintro e bytes ⟨entries', hopen', he, hfile, hmod, hcontent⟩
    obtain rfl := Except.ok.inj (hopen.symm.trans hopen')
    have hmem : e ∈ entries.filter fun e => e.isFile ∧ isModName e.name :=
      List.mem_filter.2 ⟨he, decide_eq_true ⟨hfile, hmod⟩⟩
    obtain ⟨m, hm, hbytes, hname, hsha1⟩ := exists_mem_of_mem_left hjars hmem
    obtain rfl := Except.ok.inj (hcontent.symm.trans hbytes)
    exact ⟨m, hm, hname, rfl, hsha1⟩
  · obtain ⟨e, hmem, hbytes, hname, hsha1⟩ := exists_mem_of_mem_right hjars hm
    obtain ⟨he, hmod⟩ := List.mem_filter.1 hmem
    obtain ⟨hfile, hmod⟩ := of_decide_eq_true hmod
    exact ⟨e, ⟨entries, hopen, he, hfile, hmod, hbytes⟩, hname, hsha1⟩
  · rintro e bytes ⟨entries', x, zipped, inner, hopen', hx, hzipped, hinner, he, hfile, hsus,
      hcontent⟩
    obtain rfl := Except.ok.inj (hopen.symm.trans hopen')
    rw [extractExtraAssets, hx] at hextras
    simp only [bind_eq_ok] at hextras
    obtain ⟨zipped', hread, inner', hopened, hextras⟩ := hextras
    obtain rfl := Except.ok.inj (hzipped.symm.trans (readZipEntry_eq_ok hread))
    obtain rfl := Except.ok.inj (hinner.symm.trans (mapError_eq_ok.1 hopened))
    have hmem : e ∈ inner.filter fun e => e.isFile ∧ ¬ suspicious e.name :=
      List.mem_filter.2 ⟨he, decide_eq_true ⟨hfile, Bool.eq_false_iff.1 hsus⟩⟩
    obtain ⟨a, ha, hbytes, hname⟩ := exists_mem_of_mem_left (forall₂_extractInner hextras) hmem
    obtain rfl := Except.ok.inj (hcontent.symm.trans hbytes)
    exact ⟨a, ha, hname, rfl⟩
  · rw [extractExtraAssets] at hextras
    split at hextras
    · obtain rfl := Except.ok.inj hextras
      exact absurd ha List.not_mem_nil
    · rename_i x hx
      simp only [bind_eq_ok] at hextras
      obtain ⟨zipped, hread, inner, hopened, hextras⟩ := hextras
      obtain ⟨e, hmem, hbytes, hname⟩ := exists_mem_of_mem_right (forall₂_extractInner hextras) ha
      obtain ⟨he, hfile⟩ := List.mem_filter.1 hmem
      obtain ⟨hfile, hsus⟩ := of_decide_eq_true hfile
      exact ⟨e, ⟨entries, x, zipped, inner, hopen, hx, readZipEntry_eq_ok hread,
        mapError_eq_ok.1 hopened, he, hfile, eq_false_of_ne_true hsus, hbytes⟩, hname⟩

/-! ## What is staged -/

theorem writeToCache_eq_ok {store store' : Store} {sha1 : String} {bytes : Bytes}
    (h : writeToCache W store sha1 bytes = .ok store') : isSha1 sha1 = true ∧
      store'.cache sha1 = some ((store.cache sha1).getD bytes) ∧
      ∀ key, key ≠ sha1 → store'.cache key = store.cache key := by
  simp only [writeToCache, bind_eq_ok, refuseIf_eq_ok, not_not] at h
  obtain ⟨_, hsha1, _, _, h⟩ := h
  rcases hthere : store.cache sha1 with _ | there
  · rw [hthere] at h
    obtain ⟨_, _, h⟩ := bind_eq_ok.1 h
    obtain rfl := Except.ok.inj h
    exact ⟨hsha1, Function.update_self .., fun key hne => Function.update_of_ne hne ..⟩
  · rw [hthere] at h
    obtain rfl := Except.ok.inj h
    exact ⟨hsha1, hthere, fun _ _ => rfl⟩

/-- The cache is left alone where no jar goes. -/
theorem cache_stageMods {mods : List DiscoveredMod} {store store' : Store} {key : String}
    (h : stageMods W args hits mods store = .ok store')
    (hkey : ∀ m ∈ mods, matched args hits m = none → m.sha1 ≠ key) :
    store'.cache key = store.cache key := by
  induction mods generalizing store with
  | nil => exact Except.ok.inj h ▸ rfl
  | cons m mods ih =>
    rw [stageMods] at h
    obtain ⟨staged, hstaged, h⟩ := bind_eq_ok.1 h
    refine (ih h fun n hn => hkey n (List.mem_cons_of_mem _ hn)).trans ?_
    rw [stageMod] at hstaged
    split_ifs at hstaged with hm
    · exact Except.ok.inj hstaged ▸ rfl
    · have hnone := Option.not_isSome_iff_eq_none.1 hm
      exact (writeToCache_eq_ok hstaged).2.2 key (hkey m List.mem_cons_self hnone).symm

/-- Where a jar goes, the cache has it, or what was there before. -/
theorem cache_staged {mods : List DiscoveredMod} {store store' : Store}
    (h : stageMods W args hits mods store = .ok store')
    (hjars : mods.Pairwise fun m n => ¬ SameJar args hits m n) :
    ∀ m ∈ mods, matched args hits m = none → isSha1 m.sha1 = true ∧
      store'.cache m.sha1 = some ((store.cache m.sha1).getD m.bytes) := by
  induction mods generalizing store with
  | nil => exact fun _ hm => absurd hm List.not_mem_nil
  | cons m mods ih =>
    rw [stageMods] at h
    obtain ⟨staged, hstaged, hrest⟩ := bind_eq_ok.1 h
    rw [stageMod] at hstaged
    obtain ⟨hm, hmods⟩ := List.pairwise_cons.1 hjars
    -- No two jars that go to the cache have one hash.
    have hne {n k : DiscoveredMod} (hnk : ¬ SameJar args hits n k)
        (hn : matched args hits n = none) (hk : matched args hits k = none) : k.sha1 ≠ n.sha1 :=
      fun he => hnk (by rw [SameJar, hn, hk]; exact he.symm)
    intro n hn hnone
    rcases List.mem_cons.1 hn with rfl | hn
    · rw [hnone, Option.isSome_none, if_neg Bool.false_ne_true] at hstaged
      obtain ⟨hsha1, hcache, _⟩ := writeToCache_eq_ok hstaged
      exact ⟨hsha1, (cache_stageMods hrest fun k hk => hne (hm k hk) hnone).trans hcache⟩
    · obtain ⟨hsha1, hcache⟩ := ih hrest hmods n hn hnone
      refine ⟨hsha1, ?_⟩
      split_ifs at hstaged with hmatched
      · exact Except.ok.inj hstaged ▸ hcache
      · rw [hcache, (writeToCache_eq_ok hstaged).2.2 _
          (hne (hm n hn) (Option.not_isSome_iff_eq_none.1 hmatched) hnone)]

theorem writeToStatic_eq_ok {n : ℕ} {static static' : String → Option Bytes} {relPath : String}
    {bytes : Bytes} (h : writeToStatic W n static relPath bytes = .ok static') :
    isSafeRelPath relPath = true ∧
      static' = Function.update (Function.update static (tmpPath W n relPath) none) relPath
        (some bytes) := by
  simp only [writeToStatic, bind_eq_ok, refuseIf_eq_ok, not_not] at h
  obtain ⟨_, hrel, _, _, _, _, h⟩ := h
  exact ⟨hrel, (Except.ok.inj h).symm⟩

theorem isSafeRelPath_of_stageExtras {n : ℕ} {extras : List DiscoveredAsset}
    {static static' : String → Option Bytes} (h : stageExtras W n extras static = .ok static') :
    ∀ a ∈ extras, isSafeRelPath a.relPath = true := by
  induction extras generalizing n static with
  | nil => exact fun _ ha => absurd ha List.not_mem_nil
  | cons a extras ih =>
    rw [stageExtras] at h
    obtain ⟨staged, hstaged, h⟩ := bind_eq_ok.1 h
    exact List.forall_mem_cons.2 ⟨(writeToStatic_eq_ok hstaged).1, ih h⟩

/-- A file that nothing is written over is there still, unless it was a temporary file. -/
theorem stageExtras_eq_some_iff {n : ℕ} {extras : List DiscoveredAsset}
    {static static' : String → Option Bytes} {key : String} {bytes : Bytes}
    (h : stageExtras W n extras static = .ok static') (hkey : ∀ a ∈ extras, a.relPath ≠ key) :
    static' key = some bytes ↔
      static key = some bytes ∧ ∀ b ∈ extras.zipIdx n, tmpPath W b.2 b.1.relPath ≠ key := by
  induction extras generalizing n static with
  | nil =>
    obtain rfl := Except.ok.inj h
    exact ⟨fun hs => ⟨hs, fun _ hb => absurd hb List.not_mem_nil⟩, And.left⟩
  | cons a extras ih =>
    rw [stageExtras] at h
    obtain ⟨staged, hstaged, h⟩ := bind_eq_ok.1 h
    obtain ⟨ha, hextras⟩ := List.forall_mem_cons.1 hkey
    obtain ⟨_, rfl⟩ := writeToStatic_eq_ok hstaged
    rw [ih h hextras, Function.update_of_ne ha.symm, List.zipIdx_cons, List.forall_mem_cons]
    by_cases htmp : tmpPath W n a.relPath = key
    · rw [htmp, Function.update_self]
      exact ⟨fun ⟨hs, _⟩ => absurd hs nofun, fun ⟨_, hne, _⟩ => absurd rfl hne⟩
    · rw [Function.update_of_ne (Ne.symm htmp)]
      exact and_congr_right fun _ => ⟨fun hb => ⟨htmp, hb⟩, And.right⟩

/-- The files are all there at the end if and only if none of them was a temporary file of a write
    that came later. -/
theorem static_staged_iff {n : ℕ} {extras : List DiscoveredAsset}
    {static static' : String → Option Bytes} (h : stageExtras W n extras static = .ok static')
    (hfiles : (extras.map fun a => a.relPath).Nodup) :
    (∀ a ∈ extras, static' a.relPath = some a.bytes) ↔
      (extras.zipIdx n).Pairwise fun a b => tmpPath W b.2 b.1.relPath ≠ a.1.relPath := by
  induction extras generalizing n static with
  | nil => exact ⟨fun _ => .nil, fun _ _ ha => absurd ha List.not_mem_nil⟩
  | cons a extras ih =>
    rw [stageExtras] at h
    obtain ⟨staged, hstaged, h⟩ := bind_eq_ok.1 h
    rw [List.map_cons, List.nodup_cons] at hfiles
    obtain ⟨ha, hfiles⟩ := hfiles
    have hkey : ∀ b ∈ extras, b.relPath ≠ a.relPath := fun b hb he =>
      ha (List.mem_map.2 ⟨b, hb, he⟩)
    obtain ⟨_, rfl⟩ := writeToStatic_eq_ok hstaged
    rw [List.forall_mem_cons, stageExtras_eq_some_iff h hkey, ih h hfiles, Function.update_self,
      List.zipIdx_cons, List.pairwise_cons]
    exact and_congr_left fun _ => ⟨fun hb => hb.2, fun hb => ⟨rfl, hb⟩⟩

/-! ## Rows -/

theorem source_declaredMod_of_none {m : DiscoveredMod} (h : matched args hits m = none) :
    (declaredMod args hits m).source = .smrtCache m.sha1 := by
  rw [declaredMod, h]

/-- A row of the cache is that of a jar that goes there. -/
theorem source_declaredMod_eq {m : DiscoveredMod} {sha1 : String}
    (h : (declaredMod args hits m).source = .smrtCache sha1) :
    matched args hits m = none ∧ sha1 = m.sha1 := by
  rcases hm : matched args hits m with _ | hit
  · rw [source_declaredMod_of_none hm] at h
    exact ⟨rfl, (SourceDecl.smrtCache.inj h).symm⟩
  · rw [declaredMod, hm] at h
    exact absurd h nofun

/-- The rows of two jars are of one artifact if and only if the jars are. -/
theorem identity_declaredMod_eq_iff {m n : DiscoveredMod} :
    (declaredMod args hits m).source.identity = (declaredMod args hits n).source.identity ↔
      SameJar args hits m n := by
  rw [SourceDecl.identity_eq_iff, SameJar, declaredMod, declaredMod]
  rcases matched args hits m with _ | hit <;> rcases matched args hits n with _ | hit'
  · exact ⟨Artifact.jar.inj, congrArg Artifact.jar⟩
  · exact ⟨nofun, False.elim⟩
  · exact ⟨nofun, False.elim⟩
  · exact ⟨Artifact.project.inj, congrArg Artifact.project⟩

/-- What a bootstrap went through. -/
theorem bootstrap_eq_ok {archive : Archive} {store store' : Store} {cfg : PackConfig}
    (h : bootstrap W args archive store = .ok (cfg, store')) : ∃ found staged,
      discover W archive = .ok found ∧ stageMods W args found.hits found.mods store = .ok staged ∧
      store'.cache = staged.cache ∧
      stageExtras W 0 found.extras staged.static = .ok store'.static ∧
      cfg.mods.Perm (found.mods.map (declaredMod args found.hits)) ∧
      cfg.assets.Perm (found.extras.map declaredAsset) := by
  simp only [bootstrap, bind_eq_ok] at h
  obtain ⟨_, _, found, hfound, staged, hstaged, static, hstatic, h⟩ := h
  obtain ⟨rfl, rfl⟩ := Prod.mk.inj (Except.ok.inj h)
  exact ⟨found, staged, hfound, hstaged, rfl, hstatic, List.perm_insertionSort _ _,
    List.perm_insertionSort _ _⟩

/-- The rows are distinct if and only if the names, the artifacts and the paths are. -/
theorem distinct_iff {cfg : PackConfig} {found : Found}
    (hmods : cfg.mods.Perm (found.mods.map (declaredMod args found.hits)))
    (hassets : cfg.assets.Perm (found.extras.map declaredAsset)) :
    cfg.duplicateDeclaration = none ↔ (found.mods.map fun m => m.filename).Nodup ∧
      (found.mods.Pairwise fun m n => ¬ SameJar args found.hits m n) ∧
      (found.extras.map fun a => a.relPath).Nodup := by
  rw [PackConfig.duplicateDeclaration_eq_none, PackConfig.Distinct, DistinctMods,
    (hmods.map _).nodup_iff, (hmods.map _).nodup_iff, (hassets.map _).nodup_iff, List.map_map,
    List.map_map, List.map_map, and_comm (a := (List.map _ _).Nodup), and_assoc]
  refine and_congr_right fun _ => and_congr_left fun _ => ?_
  rw [List.Nodup, List.pairwise_map]
  exact List.Pairwise.iff fun _ _ => not_congr identity_declaredMod_eq_iff

theorem eq_of_map_eq {α β : Type} {f : α → β} {l : List α} (h : (l.map f).Nodup) {a b : α}
    (ha : a ∈ l) (hb : b ∈ l) (he : f a = f b) : a = b :=
  List.inj_on_of_nodup_map h ha hb he

/-- What is staged of a config that fits can be resolved. -/
theorem exists_resolveMod {m : DiscoveredMod} {store : Store} {X : Upstream}
    {debug : String → String} {mirrorBase : String} (hsha1 : isSha1 m.sha1 = true)
    (hname : isSafeFilename m.filename = true) (hm : matched args hits m = none)
    (hcache : store.cache m.sha1 = some m.bytes) : ∃ p,
      resolveMod (reading W store X) debug mirrorBase (declaredMod args hits m) = .ok p := by
  have hsize : (reading W store X).cacheJar m.sha1 = .ok (UInt64.ofNat m.bytes.length) := by
    simp only [reading, hcache]
  have hsource : ∃ r, resolveModSource (reading W store X) mirrorBase (declaredMod args hits m) =
      .ok r := by
    rw [resolveModSource.eq_def, source_declaredMod_of_none hm]
    simp only [bind_eq_ok, refuseIf_eq_ok, not_not]
    exact ⟨_, (), hsha1, _, mapError_eq_ok.2 hsize, rfl⟩
  obtain ⟨⟨sha1, size, source, fellBack⟩, hr⟩ := hsource
  exact ⟨_, resolveMod_eq_ok.2 ⟨hname, sha1, size, source, fellBack, hr, rfl⟩⟩

theorem exists_resolveAsset {a : DiscoveredAsset} {store : Store} {X : Upstream}
    {debug : String → String} {mirrorBase packId : String} (hrel : isSafeRelPath a.relPath = true)
    (hstatic : store.static a.relPath = some a.bytes) : ∃ e,
      resolveAsset (reading W store X) debug mirrorBase packId (declaredAsset a) = .ok e := by
  have hbytes : (reading W store X).staticFile packId a.relPath = .ok a.bytes := by
    simp only [reading, hstatic]
  have hsource : ∃ r, resolveAssetSource (reading W store X) mirrorBase packId (declaredAsset a) =
      .ok r := by
    rw [resolveAssetSource, declaredAsset]
    simp only [bind_eq_ok, refuseIf_eq_ok, not_not]
    exact ⟨_, (), hrel, _, mapError_eq_ok.2 hbytes, rfl⟩
  obtain ⟨⟨sha1, size, source⟩, hr⟩ := hsource
  exact ⟨_, resolveAsset_eq_ok.2 ⟨hrel, sha1, size, source, hr, rfl⟩⟩

/-- The config of an archive can be edited and built if and only if the archive fits. -/
theorem bootstrap_usable_iff {archive : Archive} {store store' : Store} {cfg : PackConfig}
    (h : bootstrap W args archive store = .ok (cfg, store')) : ∃ found,
      discover W archive = .ok found ∧
        (Usable W archive cfg store' ↔ Fits W args found store) := by
  obtain ⟨found, staged, hfound, hstaged, hcache, hstatic, hmods, hassets⟩ := bootstrap_eq_ok h
  obtain ⟨hjar, hmod, hextra, hasset⟩ := discover_eq_ok hfound
  refine ⟨found, hfound, ?_⟩
  have hmem (m : DeclaredMod) : m ∈ cfg.mods ↔
      ∃ d ∈ found.mods, declaredMod args found.hits d = m := hmods.mem_iff.trans List.mem_map
  have hmemAsset (a : DeclaredAsset) : a ∈ cfg.assets ↔
      ∃ d ∈ found.extras, declaredAsset d = a := hassets.mem_iff.trans List.mem_map
  have hsafe (m : DiscoveredMod) (hm : m ∈ found.mods) : isSafeFilename m.filename = true ↔
      m.filename.toList.head? ≠ some '.' ∧ '\\' ∉ m.filename.toList := by
    obtain ⟨e, ⟨_, _, _, _, hname, _⟩, he, _⟩ := hmod m hm
    exact he ▸ isSafeFilename_baseName hname
  constructor
  · intro hu
    obtain ⟨hnames, hjars, hfiles⟩ := (distinct_iff hmods hassets).1 hu.distinct
    refine ⟨hnames, fun m hm => (hsafe m hm).1 (hu.filenames _ ((hmem _).2 ⟨m, hm, rfl⟩)), hjars,
      hfiles, fun m hm hnone bytes hbytes => ?_,
      (static_staged_iff hstatic hfiles).1 fun a ha => ?_⟩
    · -- The row of the jar is that of no other one.
      obtain ⟨e, there, hin, hname, _, hthere⟩ := hu.cached _ ((hmem _).2 ⟨m, hm, rfl⟩) _
        (source_declaredMod_of_none hnone)
      obtain ⟨n, hn, hfile, rfl, _⟩ := hjar e there hin
      obtain rfl := eq_of_map_eq hnames hn hm (hfile.trans hname)
      obtain ⟨_, hcached⟩ := cache_staged hstaged hjars n hn hnone
      rw [hcache, hcached, hbytes] at hthere
      exact Option.some.inj hthere
    · obtain ⟨e, bytes, hin, hname, hthere⟩ := hu.static _ ((hmemAsset _).2 ⟨a, ha, rfl⟩) _ rfl
      obtain ⟨b, hb, hpath, rfl⟩ := hextra e bytes hin
      obtain rfl := eq_of_map_eq hfiles hb ha (hpath.trans hname)
      exact hthere
  · intro hf
    have hcached (m : DiscoveredMod) (hm : m ∈ found.mods)
        (hnone : matched args found.hits m = none) :
        isSha1 m.sha1 = true ∧ store'.cache m.sha1 = some m.bytes := by
      obtain ⟨hsha1, hthere⟩ := cache_staged hstaged hf.jars m hm hnone
      refine ⟨hsha1, hcache ▸ hthere.trans (congrArg some ?_)⟩
      rcases hbefore : store.cache m.sha1 with _ | bytes
      · rfl
      · exact hf.cache m hm hnone bytes hbefore
    have hstaticAll := (static_staged_iff hstatic hf.files).2 hf.temporary
    have hrel := isSafeRelPath_of_stageExtras hstatic
    refine ⟨(distinct_iff hmods hassets).2 ⟨hf.names, hf.jars, hf.files⟩, ?_, ?_, ?_, ?_, ?_, ?_,
      fun X debug mirrorBase => ⟨?_, ?_⟩⟩
    · intro m hm
      obtain ⟨d, hd, rfl⟩ := (hmem m).1 hm
      exact (hsafe d hd).2 (hf.plain d hd)
    · intro a ha
      obtain ⟨d, hd, rfl⟩ := (hmemAsset a).1 ha
      exact hrel d hd
    · intro m hm sha1 hsource
      obtain ⟨d, hd, rfl⟩ := (hmem m).1 hm
      obtain ⟨hnone, rfl⟩ := source_declaredMod_eq hsource
      obtain ⟨e, hin, hname, hsha1⟩ := hmod d hd
      exact ⟨e, d.bytes, hin, hname.symm, hsha1.symm, (hcached d hd hnone).2⟩
    · intro a ha relPath hsource
      obtain ⟨d, hd, rfl⟩ := (hmemAsset a).1 ha
      obtain rfl := SourceDecl.smrtStatic.inj hsource
      obtain ⟨e, hin, hname⟩ := hasset d hd
      exact ⟨e, d.bytes, hin, hname.symm, hstaticAll d hd⟩
    · intro e bytes hin
      obtain ⟨d, hd, hname, rfl, _⟩ := hjar e bytes hin
      refine ⟨_, (hmem _).2 ⟨d, hd, rfl⟩, hname, fun sha1 hsource => ?_⟩
      obtain ⟨hnone, rfl⟩ := source_declaredMod_eq hsource
      exact (hcached d hd hnone).2
    · intro e bytes hin
      obtain ⟨d, hd, hname, rfl⟩ := hextra e bytes hin
      exact ⟨_, (hmemAsset _).2 ⟨d, hd, rfl⟩, hname, congrArg _ hname, hname ▸ hstaticAll d hd⟩
    · intro m hm sha1 hsource
      obtain ⟨d, hd, rfl⟩ := (hmem m).1 hm
      obtain ⟨hnone, rfl⟩ := source_declaredMod_eq hsource
      obtain ⟨hsha1, hthere⟩ := hcached d hd hnone
      exact exists_resolveMod hsha1 ((hsafe d hd).2 (hf.plain d hd)) hnone hthere
    · intro a ha
      obtain ⟨d, hd, rfl⟩ := (hmemAsset a).1 ha
      exact exists_resolveAsset (hrel d hd) (hstaticAll d hd)

end Read

/-! ## Three archives -/

/-- A mirror with no pack, and with a Modrinth that knows no jar. -/
def world : World where
  outside := .none
  openZip _ := .error "invalid Zip archive"
  sha1Hex bytes := if bytes = [97] then "86f7e437faa5a7fce15d1ddcb9eaeaea377667b8"
    else "e9d71f5ee7c92d6dc9e92ffdad17b8bd49418f98"
  versionFiles _ := .ok fun _ => none
  refuses _ := none
  pid := 1
  seq := id

/-- What is asked for, besides the archive. -/
def industrial : BootstrapArgs where
  packId := "Industrial"
  displayName := "Industrial"
  tagline := ""
  minecraftVersion := "1.12.2"
  loader := { name := "forge", version := "14.23.5.2922" }
  javaMajor := 8

/-- Nothing is staged yet. -/
def bare : Store := ⟨fun _ => none, [], fun _ => none⟩

/-- An archive of files of one byte. -/
def archiveOf (files : List (String × UInt8)) : Archive :=
  .ok (files.map fun f => ⟨f.1, true, 1, none, .ok [f.2]⟩)

/-- What a bootstrap answers has a property, if it can be computed. -/
theorem exists_of_any (files : List (String × UInt8)) {p : PackConfig × Store → Bool}
    (h : (bootstrap world industrial (archiveOf files) bare).toOption.any p = true) :
    ∃ cfg store, bootstrap world industrial (archiveOf files) bare = .ok (cfg, store) ∧
      p (cfg, store) = true := by
  rcases hr : bootstrap world industrial (archiveOf files) bare with e | ⟨cfg, store⟩
  · rw [hr] at h
    exact absurd h nofun
  · rw [hr] at h
    exact ⟨cfg, store, rfl, h⟩

/-- Two jars of their own in one folder. -/
theorem bootstrap_usable : ∃ cfg store,
    bootstrap world industrial (archiveOf [("mods/a.jar", 97), ("mods/b.jar", 98)]) bare =
      .ok (cfg, store) ∧
    Usable world (archiveOf [("mods/a.jar", 97), ("mods/b.jar", 98)]) cfg store := by
  obtain ⟨cfg, store, h, _⟩ := exists_of_any [("mods/a.jar", 97), ("mods/b.jar", 98)]
    (p := fun _ => true) (by decide +kernel)
  obtain ⟨found, hfound, hiff⟩ := bootstrap_usable_iff h
  refine ⟨cfg, store, h, hiff.2 ?_⟩
  have hdiscover : discover world (archiveOf [("mods/a.jar", 97), ("mods/b.jar", 98)]) =
      .ok ⟨[⟨"86f7e437faa5a7fce15d1ddcb9eaeaea377667b8", "a.jar", [97]⟩,
        ⟨"e9d71f5ee7c92d6dc9e92ffdad17b8bd49418f98", "b.jar", [98]⟩], [], fun _ => none⟩ := by
    rfl
  obtain rfl := Except.ok.inj (hdiscover.symm.trans hfound)
  refine ⟨by decide, ?_, ?_, .nil, fun _ _ _ _ hb => absurd hb nofun, .nil⟩
  · exact List.forall_mem_cons.2 ⟨by decide, List.forall_mem_cons.2 ⟨by decide, nofun⟩⟩
  · refine .cons (fun n hn => ?_) (.cons nofun .nil)
    obtain rfl := List.mem_singleton.1 hn
    have hne : "86f7e437faa5a7fce15d1ddcb9eaeaea377667b8" ≠
        "e9d71f5ee7c92d6dc9e92ffdad17b8bd49418f98" := by decide
    exact fun he => hne he

/-- An archive with two jars of one name in two folders, one with a jar twice, and one with a jar
    that has no name, have configs that cannot be edited or built. -/
theorem bootstrap_sameName :
    (∃ cfg store, bootstrap world industrial
        (archiveOf [("mods/a.jar", 97), ("mods/1.12.2/a.jar", 98)]) bare = .ok (cfg, store) ∧
      cfg.duplicateDeclaration = some (.filename "a.jar") ∧
      ¬ Usable world (archiveOf [("mods/a.jar", 97), ("mods/1.12.2/a.jar", 98)]) cfg store) ∧
    (∃ cfg store, bootstrap world industrial
        (archiveOf [("mods/a.jar", 97), ("mods/b.jar", 97)]) bare = .ok (cfg, store) ∧
      ¬ Usable world (archiveOf [("mods/a.jar", 97), ("mods/b.jar", 97)]) cfg store) ∧
    ∃ cfg store, bootstrap world industrial (archiveOf [("mods/.jar", 97)]) bare =
        .ok (cfg, store) ∧
      ¬ Usable world (archiveOf [("mods/.jar", 97)]) cfg store := by
  refine ⟨?_, ?_, ?_⟩
  · obtain ⟨cfg, store, h, hdup⟩ := exists_of_any
      [("mods/a.jar", 97), ("mods/1.12.2/a.jar", 98)]
      (p := fun r => r.1.duplicateDeclaration = some (.filename "a.jar")) (by decide +kernel)
    have hdup := of_decide_eq_true hdup
    exact ⟨cfg, store, h, hdup, fun hu => absurd (hdup.symm.trans hu.distinct) nofun⟩
  · obtain ⟨cfg, store, h, hdup⟩ := exists_of_any [("mods/a.jar", 97), ("mods/b.jar", 97)]
      (p := fun r => r.1.duplicateDeclaration.isSome) (by decide +kernel)
    exact ⟨cfg, store, h, fun hu => by simp [hu.distinct] at hdup⟩
  · obtain ⟨cfg, store, h, hname⟩ := exists_of_any [("mods/.jar", 97)]
      (p := fun r => r.1.mods.any fun m => !isSafeFilename m.filename) (by decide +kernel)
    obtain ⟨m, hm, hunsafe⟩ := List.any_eq_true.1 hname
    exact ⟨cfg, store, h, fun hu => by simp [hu.filenames m hm] at hunsafe⟩

end Bootstrap

end Smrt
