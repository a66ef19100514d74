import Mathlib.Data.List.Basic

/-!
# The pack manifest

What a launcher downloads to reproduce a pack: the mods and assets with their
hashes and install flags, the target they run on, and the advisory `Display` of an
entry. Also the vocabulary of a mod's presence in a pack: the side it runs on
(`SideClass`), whether both sides must carry it (`MatchPolicy`), and the class a
launcher shows (`PresenceClass`).

The release channel, the notes, the time and the fingerprint of a build, which
nothing here reads, are left out of `PackManifest`.
-/

namespace Smrt

/-- The side a mod's code executes on. -/
inductive SideClass
  | client
  | server
  | both
  deriving DecidableEq

/-- Whether joining a server requires both sides to carry a mod. -/
inductive MatchPolicy
  | mustMatch
  | tolerant
  deriving DecidableEq

/-- The presence of a mod in a pack, as a launcher shows it. -/
inductive PresenceClass
  | required
  | optionalClient
  | optionalServer
  | optionalBoth
  | coremod
  deriving DecidableEq

/-- A dependency on another mod of the same manifest, by its filename. -/
structure Requirement where
  filename : String
  versionRange : Option String
  optional : Bool
  deriving DecidableEq

/-- The advisory display metadata of an entry. -/
structure Display where
  name : Option String
  description : Option String
  category : Option String
  incompatibleWith : List String
  license : Option String
  url : Option String
  iconUrl : Option String
  requires : List Requirement
  presence : Option PresenceClass
  deriving DecidableEq

/-- The display block that says nothing (`Display::default`). -/
def Display.default : Display where
  name := none
  description := none
  category := none
  incompatibleWith := []
  license := none
  url := none
  iconUrl := none
  requires := []
  presence := none

/-- Where an installed file comes from. -/
inductive Source
  | modrinth (projectId versionId : String)
  | smrtCache (url : String)
  | smrtStatic (url : String)
  deriving DecidableEq

/-- A mod of a manifest. -/
structure ModEntry where
  filename : String
  sha1 : String
  sizeBytes : UInt64
  /-- Whether the client must carry it: set by the build, never by hand. -/
  required : Bool
  /-- Whether an optional mod is on unless the player turns it off. -/
  defaultEnabled : Bool
  source : Source
  display : Option Display
  slug : Option String
  deriving DecidableEq

/-- An asset of a manifest. -/
structure AssetEntry where
  dest : String
  sha1 : String
  sizeBytes : UInt64
  required : Bool
  source : Source
  display : Option Display
  deriving DecidableEq

/-- The mod loader of a pack. -/
structure LoaderSpec where
  name : String
  version : String
  deriving DecidableEq

/-- Who a player must be signed in with before the game starts. -/
structure AuthSpec where
  kind : String
  serverId : Option String
  deriving DecidableEq

/-- A published build of a pack. -/
structure PackManifest where
  packId : String
  packVersion : String
  minecraftVersion : String
  loader : LoaderSpec
  javaMajor : UInt32
  auth : Option AuthSpec
  mods : List ModEntry
  assets : List AssetEntry
  deriving DecidableEq

end Smrt
