import Smrt.Authoring.Bytecode
import Smrt.Lib.HashMap
import Smrt.Lib.Json
import Smrt.Registry.Tables

/-!
# What a jar declares

A modern jar declares its mod in `META-INF/neoforge.mods.toml` or `META-INF/mods.toml`
(`parseModsToml`), or in `fabric.mod.json` (`parseFabricJson`): what it is called, what it depends
on, and which builds of a loader it runs under. Read by their names, the first one of these that
can be read is what counts (`readModMeta`).

The parsers of the two formats are parameters (`Formats`); the tables of a file come in any order.
-/

namespace Smrt

namespace ModMeta

open Bootstrap (Bytes Entry Archive)
open Registry

/-! ## Loaders -/

/-- Names that are the platform's, not a mod's. -/
def platformModids : List String :=
  ["minecraft", "java", "forge", "neoforge", "fabricloader", "fabric-loader", "quilt_loader",
    "quilt_base", "mcp", "fml", "javafml", "lowcodefml"]

def isPlatformModid (modid : String) : Bool := lower modid ∈ platformModids

/-- The loader whose build a name of the platform means. -/
def loaderOfPlatformModid (modid : String) : Option String :=
  let name := lower modid
  if name = "forge" then some "forge"
  else if name = "neoforge" then some "neoforge"
  else if name = "fabricloader" ∨ name = "fabric-loader" then some "fabric"
  else if name = "quilt_loader" then some "quilt"
  else none

/-! ## Values -/

/-- A text without the white space around it, if there is anything else. -/
def clean (v : Option String) : Option String := (v.map trim).filter fun s => s ≠ ""

def notBlank (v : Option String) : Option String := v.filter fun s => trim s ≠ ""

/-- A text in capitals, without the white space around it, if there is anything else. -/
def cleanUpper (v : Option String) : Option String :=
  (v.map fun s => String.ofList ((trim s).toList.map Char.toUpper)).filter fun s => s ≠ ""

/-- A range that excludes anything. -/
def cleanRange (range : Option String) : Option String :=
  (range.map trim).filter fun s => s ≠ "" ∧ s ≠ "*"

/-- A path without the slashes at its start. -/
def trimStartSlashes (path : String) : String :=
  String.ofList (path.toList.dropWhile fun c => c = '/')

/-- The first version in a range that has a dot, if it is the first number there. -/
def firstMc (range : String) : Option String :=
  let v := ((range.toList.dropWhile fun c => !c.isDigit).takeWhile fun c =>
    c.isDigit || c = '.').rdropWhile fun c => c = '.'
  if '.' ∈ v then some (String.ofList v) else none

/-! ## Declarations -/

structure DeclaredDep where
  modid : String
  kind : RelKind
  severity : Option Severity
  versionRange : Option String
  side : Option String
  deriving DecidableEq

/-- The builds of a loader that a jar runs under. -/
structure LoaderReq where
  loader : String
  range : String
  deriving DecidableEq

end ModMeta

open ModMeta in
/-- What a jar declares about its mod. -/
structure ModMeta where
  modid : Option String := none
  displayName : Option String := none
  version : Option String := none
  logoFile : Option String := none
  /-- The Minecraft version that the jar is for. -/
  mc : Option String := none
  deps : List DeclaredDep := []
  loaderReqs : List LoaderReq := []
  environment : Option String := none
  clientEntrypoint : Bool := false
  mainEntrypoint : Bool := false
  displayTest : Option String := none

namespace ModMeta

open Bootstrap (Bytes Entry Archive)
open Registry

/-! ## `mods.toml` -/

structure ModsTomlMod where
  modId : Option String
  displayName : Option String
  version : Option String
  logoFile : Option String
  displayTest : Option String

structure ModsTomlDep where
  modId : Option String
  mandatory : Option Bool
  depType : Option String
  versionRange : Option String
  side : Option String

structure ModsToml where
  mods : List ModsTomlMod
  logoFile : Option String
  /-- What the mods depend on, under their names. -/
  dependencies : HashMap (List ModsTomlDep)

/-- What kind of dependency a row declares; what is embedded, or unknown, is none. -/
def forgeDepKind (dep : ModsTomlDep) : Option (RelKind × Option Severity) :=
  match dep.depType with
  | some t =>
    if lower t = "required" then some (.requires, none)
    else if lower t = "optional" then some (.optionalDep, none)
    else if lower t = "incompatible" then some (.conflicts, some .hard)
    else if lower t = "discouraged" then some (.conflicts, some .soft)
    else none
  | none => if dep.mandatory = some false then some (.optionalDep, none) else some (.requires, none)

/-- What a row of the dependencies says. -/
inductive TomlRow
  | nothing
  | minecraft (range : Option String)
  | platform (name : String) (range : Option String)
  | mod (dep : DeclaredDep)

def tomlRow (entry : ModsTomlDep) : TomlRow :=
  match forgeDepKind entry, clean entry.modId with
  | some (kind, severity), some target =>
    if lower target = "minecraft" then .minecraft entry.versionRange
    else if isPlatformModid target then .platform target entry.versionRange
    else .mod ⟨target, kind, severity, cleanRange entry.versionRange, cleanUpper entry.side⟩
  | _, _ => .nothing

/-- The version of Minecraft that a row names. -/
def TomlRow.mc : TomlRow → Option String
  | minecraft range => range.bind firstMc
  | _ => none

/-- The window that a row of a loader declares. -/
def TomlRow.loaderReq : TomlRow → Option LoaderReq
  | platform name range =>
    (loaderOfPlatformModid name).bind fun loader => (cleanRange range).map (LoaderReq.mk loader)
  | _ => none

def TomlRow.dep : TomlRow → Option DeclaredDep
  | mod dep => some dep
  | _ => none

/-- What the mods of a file say, one after the other: nothing is read behind the first one with a
    name. -/
def readMods (mods : List ModsTomlMod) : ModMeta :=
  mods.foldl (fun found m =>
    if found.modid.isSome then found
    else { found with
      modid := notBlank m.modId
      displayName := clean m.displayName
      version := clean m.version
      logoFile := clean m.logoFile
      displayTest := cleanUpper m.displayTest }) {}

/-- The rows of the dependencies, table by table. -/
def ModsToml.rows (parsed : ModsToml) : List TomlRow :=
  parsed.dependencies.values.flatten.map tomlRow

/-- What a `mods.toml` declares. -/
def parseModsToml (parsed : ModsToml) : ModMeta :=
  let found := readMods parsed.mods
  { found with
    logoFile := (found.logoFile.or (clean parsed.logoFile)).map trimStartSlashes
    mc := parsed.rows.findSome? TomlRow.mc
    deps := parsed.rows.filterMap TomlRow.dep
    loaderReqs := parsed.rows.filterMap TomlRow.loaderReq }

/-! ## `fabric.mod.json` -/

/-- A range, or alternatives. -/
inductive VersionPredicate
  | one (range : String)
  | many (ranges : List String)

def VersionPredicate.range : VersionPredicate → Option String
  | one range => cleanRange (some range)
  | many ranges => cleanRange (some (" || ".intercalate ranges))

structure FabricModJson where
  id : Option String
  name : Option String
  version : Option String
  icon : Option Json
  environment : Option String
  entrypoints : HashMap Json
  depends : HashMap VersionPredicate
  recommends : HashMap VersionPredicate
  suggests : HashMap VersionPredicate
  breaks : HashMap VersionPredicate
  conflicts : HashMap VersionPredicate

/-- The dependencies of one kind. -/
def fabricDeps (m : HashMap VersionPredicate) (kind : RelKind) (severity : Option Severity) :
    List DeclaredDep :=
  m.rows.filterMap fun (modid, pred) =>
    if trim modid = "" ∨ isPlatformModid modid then none
    else some ⟨modid, kind, severity, pred.range, none⟩

/-- The loaders whose builds a jar depends on. -/
def fabricLoaderReqs (m : HashMap VersionPredicate) : List LoaderReq :=
  m.rows.filterMap fun (modid, pred) =>
    (loaderOfPlatformModid modid).bind fun loader => pred.range.map (LoaderReq.mk loader)

/-- Something is to be run there. -/
def FabricModJson.hasEntry (parsed : FabricModJson) (k : String) : Bool :=
  match parsed.entrypoints.get k with
  | some (.arr items) => !items.isEmpty
  | _ => false

/-- A path, or any of the paths for the sizes. -/
def iconPath : Json → Option String
  | .str s => some s
  | .obj members => members.findSome? fun m => m.2.asStr
  | _ => none

def FabricModJson.deps (parsed : FabricModJson) : List DeclaredDep :=
  fabricDeps parsed.depends .requires none ++ fabricDeps parsed.recommends .recommends none ++
    fabricDeps parsed.suggests .optionalDep none ++
    fabricDeps parsed.breaks .conflicts (some .hard) ++
    fabricDeps parsed.conflicts .conflicts (some .soft)

/-- What a `fabric.mod.json` declares. -/
def parseFabricJson (parsed : FabricModJson) : ModMeta where
  modid := notBlank parsed.id
  displayName := clean parsed.name
  version := clean parsed.version
  logoFile :=
    ((parsed.icon.bind iconPath).map fun s => trimStartSlashes (trim s)).filter fun s => s ≠ ""
  mc := ((parsed.depends.get "minecraft").bind VersionPredicate.range).bind firstMc
  deps := parsed.deps.insertionSort fun a b => a.modid ≤ b.modid
  loaderReqs := (fabricLoaderReqs parsed.depends).insertionSort fun a b => a.loader ≤ b.loader
  environment := notBlank parsed.environment
  clientEntrypoint := parsed.hasEntry "client"
  mainEntrypoint := parsed.hasEntry "main" || parsed.hasEntry "server"
  displayTest := none

/-! ## Jars -/

/-- How the files of a jar are read: these are parsers of other libraries. -/
structure Formats extends Bytecode.Decoders where
  toml : String → Option ModsToml
  json : Bytes → Option FabricModJson

/-- The bytes as a text, if they are one. -/
def fromUtf8 (bytes : Bytes) : Option String := String.fromUTF8? ⟨bytes.toArray⟩

section Reading

variable (F : Formats)

/-- What a text declares; one that is no `mods.toml` declares nothing. -/
def tomlMeta (text : String) : ModMeta := ((F.toml text).map parseModsToml).getD {}

def jsonMeta (bytes : Bytes) : ModMeta := ((F.json bytes).map parseFabricJson).getD {}

/-- The bytes of the entry of a name, if it opens and can be read. -/
def readNamed (jar : Archive) (name : String) : Option Bytes :=
  match jar with
  | .ok entries => (entries.find? fun e => e.name = name).bind fun e =>
      if e.fault.isNone then Bytecode.read e else none
  | .error _ => none

/-- What a jar declares: in the first file that can be read, and is a text if it is TOML. -/
def readModMeta (jar : Archive) : ModMeta :=
  match (readNamed jar "META-INF/neoforge.mods.toml").bind fromUtf8 with
  | some text => tomlMeta F text
  | none =>
    match (readNamed jar "META-INF/mods.toml").bind fromUtf8 with
    | some text => tomlMeta F text
    | none =>
      match readNamed jar "fabric.mod.json" with
      | some bytes => jsonMeta F bytes
      | none => {}

end Reading

end ModMeta

end Smrt
