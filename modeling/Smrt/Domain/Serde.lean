import Smrt.Lib.Json
import Smrt.Domain.Pack

/-!
# The config as JSON

How a config is written to JSON and read back. The rules are those of the
serialiser derived from the types: which members are left out when they say nothing
(`version`, `auth`, `fork_of`, a `display` or a `slug`, the parts of a `display`, a
false `pulled`), which mean something when they are missing, and which must be there.

Reading what was written gives the config back (`PackConfig.fromValue_toValue`), and
reading only looks members up, those of the authored fields and those of the
server-owned ones apart (`PackConfig.ofMembers_eq_some`).

The owner of a config that names none is the operator of the deployment, which is
configured outside (`operatorUid`).
-/

namespace Smrt

open Json

/-! ## Enumerations -/

/-- The name of a presence class. -/
def PresenceClass.name : PresenceClass → String
  | .required => "required"
  | .optionalClient => "optional_client"
  | .optionalServer => "optional_server"
  | .optionalBoth => "optional_both"
  | .coremod => "coremod"

/-- The presence class of a name. -/
def PresenceClass.ofName : String → Option PresenceClass
  | "required" => some .required
  | "optional_client" => some .optionalClient
  | "optional_server" => some .optionalServer
  | "optional_both" => some .optionalBoth
  | "coremod" => some .coremod
  | _ => none

def PresenceClass.toValue (p : PresenceClass) : Json := .str p.name

def PresenceClass.fromValue (j : Json) : Option PresenceClass := (variant j).bind ofName

theorem PresenceClass.fromValue_toValue (p : PresenceClass) :
    fromValue p.toValue = some p := by
  cases p <;> rfl

theorem PresenceClass.toValue_ne_null (p : PresenceClass) : p.toValue ≠ .null := by
  simp [toValue]

/-- The name of a tier. -/
def PackTier.name : PackTier → String
  | .official => "official"
  | .community => "community"

/-- The tier of a name. -/
def PackTier.ofName : String → Option PackTier
  | "official" => some .official
  | "community" => some .community
  | _ => none

def PackTier.toValue (t : PackTier) : Json := .str t.name

def PackTier.fromValue (j : Json) : Option PackTier := (variant j).bind ofName

theorem PackTier.fromValue_toValue (t : PackTier) : fromValue t.toValue = some t := by
  cases t <;> rfl

/-- The name of a visibility. -/
def Visibility.name : Visibility → String
  | .draft => "draft"
  | .unlisted => "unlisted"
  | .published => "published"

/-- The visibility of a name. -/
def Visibility.ofName : String → Option Visibility
  | "draft" => some .draft
  | "unlisted" => some .unlisted
  | "published" => some .published
  | _ => none

def Visibility.toValue (v : Visibility) : Json := .str v.name

def Visibility.fromValue (j : Json) : Option Visibility := (variant j).bind ofName

theorem Visibility.fromValue_toValue (v : Visibility) : fromValue v.toValue = some v := by
  cases v <;> rfl

/-! ## Entries -/

namespace Requirement

def keys : List String := ["filename", "version_range", "optional"]

/-- The members written for a requirement. -/
def fields (r : Requirement) : List (String × Option Json) :=
  [("filename", some (.str r.filename)),
   ("version_range", r.versionRange.map .str),
   ("optional", some (.bool r.optional))]

def toValue (r : Requirement) : Json := .obj (members r.fields)

def ofMembers (o : Members) : Option Requirement := do
  let filename ← must asStr (o.lookup "filename")
  let versionRange ← may asStr (o.lookup "version_range")
  let optional ← orDefault asBool false (o.lookup "optional")
  return { filename, versionRange, optional }

def fromValue (j : Json) : Option Requirement := (record keys j).bind ofMembers

theorem fromValue_toValue (r : Requirement) : fromValue r.toValue = some r := by
  have hl := @lookup_members r.fields (by simp [fields])
  simp only [fromValue, toValue, record_obj, Option.bind_some, ofMembers, hl]
  simp [fields, List.lookup_cons]

end Requirement

namespace Display

def keys : List String :=
  ["name", "description", "category", "incompatible_with", "license", "url", "icon_url",
   "requires", "presence"]

/-- The members written for a display block. -/
def fields (d : Display) : List (String × Option Json) :=
  [("name", d.name.map .str),
   ("description", d.description.map .str),
   ("category", d.category.map .str),
   ("incompatible_with",
    skipWhen d.incompatibleWith.isEmpty (.arr (d.incompatibleWith.map .str))),
   ("license", d.license.map .str),
   ("url", d.url.map .str),
   ("icon_url", d.iconUrl.map .str),
   ("requires", skipWhen d.requires.isEmpty (.arr (d.requires.map Requirement.toValue))),
   ("presence", d.presence.map PresenceClass.toValue)]

def toValue (d : Display) : Json := .obj (members d.fields)

def ofMembers (o : Members) : Option Display := do
  let name ← may asStr (o.lookup "name")
  let description ← may asStr (o.lookup "description")
  let category ← may asStr (o.lookup "category")
  let incompatibleWith ← orDefault (listOf asStr) [] (o.lookup "incompatible_with")
  let license ← may asStr (o.lookup "license")
  let url ← may asStr (o.lookup "url")
  let iconUrl ← may asStr (o.lookup "icon_url")
  let requires ← orDefault (listOf Requirement.fromValue) [] (o.lookup "requires")
  let presence ← may PresenceClass.fromValue (o.lookup "presence")
  return { name, description, category, incompatibleWith, license, url, iconUrl, requires,
           presence }

def fromValue (j : Json) : Option Display := (record keys j).bind ofMembers

theorem fromValue_toValue (d : Display) : fromValue d.toValue = some d := by
  have hl := @lookup_members d.fields (by simp [fields])
  simp only [fromValue, toValue, record_obj, Option.bind_some, ofMembers, hl]
  simp [fields, List.lookup_cons, orDefault_skipWhen Requirement.fromValue_toValue,
    may_map PresenceClass.fromValue_toValue PresenceClass.toValue_ne_null]

theorem toValue_ne_null (d : Display) : d.toValue ≠ .null := by simp [toValue]

end Display

/-- Tagged by its kind: the members of the kind stand beside the tag, or after it when
    the source is given by position. -/
def SourceDecl.ofTagged (tag : Json) (o : List String → Option Members) : Option SourceDecl :=
  match tag with
  | .str "modrinth" => do
    let o ← o ["project_id", "version_id"]
    let projectId ← must asStr (o.lookup "project_id")
    let versionId ← must asStr (o.lookup "version_id")
    return .modrinth projectId versionId
  | .str "smrt_cache" => do
    let o ← o ["sha1"]
    let sha1 ← must asStr (o.lookup "sha1")
    return .smrtCache sha1
  | .str "smrt_static" => do
    let o ← o ["rel_path"]
    let relPath ← must asStr (o.lookup "rel_path")
    return .smrtStatic relPath
  | _ => none

namespace SourceDecl

/-- The members written for a source. -/
def fields : SourceDecl → List (String × Option Json)
  | .modrinth projectId versionId =>
    [("type", some (.str "modrinth")), ("project_id", some (.str projectId)),
     ("version_id", some (.str versionId))]
  | .smrtCache sha1 => [("type", some (.str "smrt_cache")), ("sha1", some (.str sha1))]
  | .smrtStatic relPath => [("type", some (.str "smrt_static")), ("rel_path", some (.str relPath))]

def toValue (s : SourceDecl) : Json := .obj (members s.fields)

def fromValue : Json → Option SourceDecl
  | .obj o => (o.lookup "type").bind fun tag => ofTagged tag fun _ => some o
  | .arr (tag :: items) => ofTagged tag fun keys => record keys (.arr items)
  | _ => none

theorem fromValue_toValue (s : SourceDecl) : fromValue s.toValue = some s := by
  have hl := @lookup_members s.fields (by cases s <;> simp [fields])
  rw [toValue]
  generalize members s.fields = o at hl
  cases s <;> simp [fromValue, ofTagged, hl, fields, List.lookup_cons]

end SourceDecl

namespace DeclaredMod

def keys : List String := ["filename", "default_enabled", "source", "display", "slug", "pulled"]

/-- The members written for a mod. -/
def fields (m : DeclaredMod) : List (String × Option Json) :=
  [("filename", some (.str m.filename)),
   ("default_enabled", some (.bool m.defaultEnabled)),
   ("source", some m.source.toValue),
   ("display", m.display.map Display.toValue),
   ("slug", m.slug.map .str),
   ("pulled", skipWhen (!m.pulled) (.bool m.pulled))]

def toValue (m : DeclaredMod) : Json := .obj (members m.fields)

def ofMembers (o : Members) : Option DeclaredMod := do
  let filename ← must asStr (o.lookup "filename")
  let defaultEnabled ← orDefault asBool true (o.lookup "default_enabled")
  let source ← must SourceDecl.fromValue (o.lookup "source")
  let display ← may Display.fromValue (o.lookup "display")
  let slug ← may asStr (o.lookup "slug")
  let pulled ← orDefault asBool false (o.lookup "pulled")
  return { filename, defaultEnabled, source, display, slug, pulled }

def fromValue (j : Json) : Option DeclaredMod := (record keys j).bind ofMembers

theorem fromValue_toValue (m : DeclaredMod) : fromValue m.toValue = some m := by
  have hl := @lookup_members m.fields (by simp [fields])
  simp only [fromValue, toValue, record_obj, Option.bind_some, ofMembers, hl]
  obtain ⟨_, _, _, _, _, pulled⟩ := m
  cases pulled <;>
    simp [fields, skipWhen, List.lookup_cons, SourceDecl.fromValue_toValue,
      may_map Display.fromValue_toValue Display.toValue_ne_null]

end DeclaredMod

namespace DeclaredAsset

def keys : List String := ["dest", "required", "source", "display"]

/-- The members written for an asset. -/
def fields (a : DeclaredAsset) : List (String × Option Json) :=
  [("dest", some (.str a.dest)),
   ("required", some (.bool a.required)),
   ("source", some a.source.toValue),
   ("display", a.display.map Display.toValue)]

def toValue (a : DeclaredAsset) : Json := .obj (members a.fields)

def ofMembers (o : Members) : Option DeclaredAsset := do
  let dest ← must asStr (o.lookup "dest")
  let required ← orDefault asBool true (o.lookup "required")
  let source ← must SourceDecl.fromValue (o.lookup "source")
  let display ← may Display.fromValue (o.lookup "display")
  return { dest, required, source, display }

def fromValue (j : Json) : Option DeclaredAsset := (record keys j).bind ofMembers

theorem fromValue_toValue (a : DeclaredAsset) : fromValue a.toValue = some a := by
  have hl := @lookup_members a.fields (by simp [fields])
  simp only [fromValue, toValue, record_obj, Option.bind_some, ofMembers, hl]
  simp [fields, List.lookup_cons, SourceDecl.fromValue_toValue,
    may_map Display.fromValue_toValue Display.toValue_ne_null]

end DeclaredAsset

/-! ## The parts of a config -/

namespace LoaderSpec

def keys : List String := ["name", "version"]

/-- The members written for a loader. -/
def fields (l : LoaderSpec) : List (String × Option Json) :=
  [("name", some (.str l.name)), ("version", some (.str l.version))]

def toValue (l : LoaderSpec) : Json := .obj (members l.fields)

def ofMembers (o : Members) : Option LoaderSpec := do
  let name ← must asStr (o.lookup "name")
  let version ← must asStr (o.lookup "version")
  return { name, version }

def fromValue (j : Json) : Option LoaderSpec := (record keys j).bind ofMembers

theorem fromValue_toValue (l : LoaderSpec) : fromValue l.toValue = some l := by
  have hl := @lookup_members l.fields (by simp [fields])
  simp only [fromValue, toValue, record_obj, Option.bind_some, ofMembers, hl]
  simp [fields, List.lookup_cons]

end LoaderSpec

namespace AuthSpec

def keys : List String := ["kind", "server_id"]

/-- The members written for a precondition. -/
def fields (a : AuthSpec) : List (String × Option Json) :=
  [("kind", some (.str a.kind)), ("server_id", a.serverId.map .str)]

def toValue (a : AuthSpec) : Json := .obj (members a.fields)

def ofMembers (o : Members) : Option AuthSpec := do
  let kind ← must asStr (o.lookup "kind")
  let serverId ← may asStr (o.lookup "server_id")
  return { kind, serverId }

def fromValue (j : Json) : Option AuthSpec := (record keys j).bind ofMembers

theorem fromValue_toValue (a : AuthSpec) : fromValue a.toValue = some a := by
  have hl := @lookup_members a.fields (by simp [fields])
  simp only [fromValue, toValue, record_obj, Option.bind_some, ofMembers, hl]
  simp [fields, List.lookup_cons]

theorem toValue_ne_null (a : AuthSpec) : a.toValue ≠ .null := by simp [toValue]

end AuthSpec

namespace PackMeta

def keys : List String := ["icon_url", "banner_url", "gallery_urls", "description_md"]

/-- The members written for the metadata: all of them. -/
def fields (p : PackMeta) : List (String × Option Json) :=
  [("icon_url", some (orNull (p.iconUrl.map .str))),
   ("banner_url", some (orNull (p.bannerUrl.map .str))),
   ("gallery_urls", some (.arr (p.galleryUrls.map .str))),
   ("description_md", some (orNull (p.descriptionMd.map .str)))]

def toValue (p : PackMeta) : Json := .obj (members p.fields)

def ofMembers (o : Members) : Option PackMeta := do
  let iconUrl ← may asStr (o.lookup "icon_url")
  let bannerUrl ← may asStr (o.lookup "banner_url")
  let galleryUrls ← orDefault (listOf asStr) [] (o.lookup "gallery_urls")
  let descriptionMd ← may asStr (o.lookup "description_md")
  return { iconUrl, bannerUrl, galleryUrls, descriptionMd }

def fromValue (j : Json) : Option PackMeta := (record keys j).bind ofMembers

theorem fromValue_toValue (p : PackMeta) : fromValue p.toValue = some p := by
  have hl := @lookup_members p.fields (by simp [fields])
  simp only [fromValue, toValue, record_obj, Option.bind_some, ofMembers, hl]
  simp [fields, List.lookup_cons]

end PackMeta

/-! ## Configs -/

/-- The keys of the server-owned fields. -/
def serverOwnedKeys : List String := ["owner", "tier", "visibility", "fork_of"]

namespace PackConfig

def keys : List String :=
  ["pack_id", "display_name", "tagline", "minecraft_version", "loader", "java_major", "version",
   "tags", "featured", "mods", "assets", "auth", "pack_meta", "owner", "tier", "visibility",
   "fork_of"]

/-- The members written for a config. -/
def fields (c : PackConfig) : List (String × Option Json) :=
  [("pack_id", some (.str c.packId)),
   ("display_name", some (.str c.displayName)),
   ("tagline", some (.str c.tagline)),
   ("minecraft_version", some (.str c.minecraftVersion)),
   ("loader", some c.loader.toValue),
   ("java_major", some (.int c.javaMajor.toNat)),
   ("version", c.version.map .str),
   ("tags", some (.arr (c.tags.map .str))),
   ("featured", some (.bool c.featured)),
   ("mods", some (.arr (c.mods.map DeclaredMod.toValue))),
   ("assets", some (.arr (c.assets.map DeclaredAsset.toValue))),
   ("auth", c.auth.map AuthSpec.toValue),
   ("pack_meta", some c.packMeta.toValue),
   ("owner", some (.int c.owner.toInt)),
   ("tier", some c.tier.toValue),
   ("visibility", some c.visibility.toValue),
   ("fork_of", c.forkOf.map .str)]

/-- The object a config is written as. -/
def toMembers (c : PackConfig) : Members := members c.fields

def toValue (c : PackConfig) : Json := .obj c.toMembers

variable (operatorUid : Int64)

def ofMembers (o : Members) : Option PackConfig := do
  let packId ← must asStr (o.lookup "pack_id")
  let displayName ← must asStr (o.lookup "display_name")
  let tagline ← must asStr (o.lookup "tagline")
  let minecraftVersion ← must asStr (o.lookup "minecraft_version")
  let loader ← must LoaderSpec.fromValue (o.lookup "loader")
  let javaMajor ← must asUInt32 (o.lookup "java_major")
  let version ← may asStr (o.lookup "version")
  let tags ← orDefault (listOf asStr) [] (o.lookup "tags")
  let featured ← orDefault asBool false (o.lookup "featured")
  let mods ← must (listOf DeclaredMod.fromValue) (o.lookup "mods")
  let assets ← orDefault (listOf DeclaredAsset.fromValue) [] (o.lookup "assets")
  let auth ← may AuthSpec.fromValue (o.lookup "auth")
  let packMeta ← orDefault PackMeta.fromValue .default (o.lookup "pack_meta")
  let owner ← orDefault asInt64 operatorUid (o.lookup "owner")
  let tier ← orDefault PackTier.fromValue .official (o.lookup "tier")
  let visibility ← orDefault Visibility.fromValue .published (o.lookup "visibility")
  let forkOf ← may asStr (o.lookup "fork_of")
  return { packId, displayName, tagline, minecraftVersion, loader, javaMajor, version, tags,
           featured, mods, assets, auth, packMeta, owner, tier, visibility, forkOf }

def fromValue (j : Json) : Option PackConfig := (record keys j).bind (ofMembers operatorUid)

/-- A member of a config is found under its key. -/
theorem lookup_toMembers (c : PackConfig) (k : String) :
    c.toMembers.lookup k = (c.fields.lookup k).join :=
  lookup_members (by simp [fields]) k

variable {operatorUid}

/-- The members of an object that are not the server's, read as those of a config. -/
structure AuthoredReads (o : Members) (c : PackConfig) : Prop where
  packId : must asStr (o.lookup "pack_id") = some c.packId
  displayName : must asStr (o.lookup "display_name") = some c.displayName
  tagline : must asStr (o.lookup "tagline") = some c.tagline
  minecraftVersion : must asStr (o.lookup "minecraft_version") = some c.minecraftVersion
  loader : must LoaderSpec.fromValue (o.lookup "loader") = some c.loader
  javaMajor : must asUInt32 (o.lookup "java_major") = some c.javaMajor
  version : may asStr (o.lookup "version") = some c.version
  tags : orDefault (listOf asStr) [] (o.lookup "tags") = some c.tags
  featured : orDefault asBool false (o.lookup "featured") = some c.featured
  mods : must (listOf DeclaredMod.fromValue) (o.lookup "mods") = some c.mods
  assets : orDefault (listOf DeclaredAsset.fromValue) [] (o.lookup "assets") = some c.assets
  auth : may AuthSpec.fromValue (o.lookup "auth") = some c.auth
  packMeta : orDefault PackMeta.fromValue .default (o.lookup "pack_meta") = some c.packMeta

/-- The members of an object that are the server's, read as those of a config. -/
structure ServerReads (operatorUid : Int64) (o : Members) (c : PackConfig) : Prop where
  owner : orDefault asInt64 operatorUid (o.lookup "owner") = some c.owner
  tier : orDefault PackTier.fromValue .official (o.lookup "tier") = some c.tier
  visibility : orDefault Visibility.fromValue .published (o.lookup "visibility") =
    some c.visibility
  forkOf : may asStr (o.lookup "fork_of") = some c.forkOf

/-- A config is read from an object member by member. -/
theorem ofMembers_eq_some {o : Members} {c : PackConfig} :
    ofMembers operatorUid o = some c ↔ AuthoredReads o c ∧ ServerReads operatorUid o c := by
  constructor
  · intro h
    obtain ⟨_, h₁, h⟩ := Option.bind_eq_some_iff.1 h
    obtain ⟨_, h₂, h⟩ := Option.bind_eq_some_iff.1 h
    obtain ⟨_, h₃, h⟩ := Option.bind_eq_some_iff.1 h
    obtain ⟨_, h₄, h⟩ := Option.bind_eq_some_iff.1 h
    obtain ⟨_, h₅, h⟩ := Option.bind_eq_some_iff.1 h
    obtain ⟨_, h₆, h⟩ := Option.bind_eq_some_iff.1 h
    obtain ⟨_, h₇, h⟩ := Option.bind_eq_some_iff.1 h
    obtain ⟨_, h₈, h⟩ := Option.bind_eq_some_iff.1 h
    obtain ⟨_, h₉, h⟩ := Option.bind_eq_some_iff.1 h
    obtain ⟨_, h₁₀, h⟩ := Option.bind_eq_some_iff.1 h
    obtain ⟨_, h₁₁, h⟩ := Option.bind_eq_some_iff.1 h
    obtain ⟨_, h₁₂, h⟩ := Option.bind_eq_some_iff.1 h
    obtain ⟨_, h₁₃, h⟩ := Option.bind_eq_some_iff.1 h
    obtain ⟨_, h₁₄, h⟩ := Option.bind_eq_some_iff.1 h
    obtain ⟨_, h₁₅, h⟩ := Option.bind_eq_some_iff.1 h
    obtain ⟨_, h₁₆, h⟩ := Option.bind_eq_some_iff.1 h
    obtain ⟨_, h₁₇, h⟩ := Option.bind_eq_some_iff.1 h
    obtain rfl := Option.some.inj h
    exact ⟨⟨h₁, h₂, h₃, h₄, h₅, h₆, h₇, h₈, h₉, h₁₀, h₁₁, h₁₂, h₁₃⟩, h₁₄, h₁₅, h₁₆, h₁₇⟩
  · rintro ⟨⟨h₁, h₂, h₃, h₄, h₅, h₆, h₇, h₈, h₉, h₁₀, h₁₁, h₁₂, h₁₃⟩, h₁₄, h₁₅, h₁₆, h₁₇⟩
    simp only [ofMembers, h₁, h₂, h₃, h₄, h₅, h₆, h₇, h₈, h₉, h₁₀, h₁₁, h₁₂, h₁₃, h₁₄, h₁₅, h₁₆,
      h₁₇, Option.bind_eq_bind, Option.bind_some, Option.pure_def]

/-- Reading the authored members only looks them up. -/
theorem AuthoredReads.congr {o o' : Members} {c : PackConfig} (h : AuthoredReads o c)
    (ho : ∀ k ∉ serverOwnedKeys, o.lookup k = o'.lookup k) : AuthoredReads o' c where
  packId := ho "pack_id" (by decide) ▸ h.packId
  displayName := ho "display_name" (by decide) ▸ h.displayName
  tagline := ho "tagline" (by decide) ▸ h.tagline
  minecraftVersion := ho "minecraft_version" (by decide) ▸ h.minecraftVersion
  loader := ho "loader" (by decide) ▸ h.loader
  javaMajor := ho "java_major" (by decide) ▸ h.javaMajor
  version := ho "version" (by decide) ▸ h.version
  tags := ho "tags" (by decide) ▸ h.tags
  featured := ho "featured" (by decide) ▸ h.featured
  mods := ho "mods" (by decide) ▸ h.mods
  assets := ho "assets" (by decide) ▸ h.assets
  auth := ho "auth" (by decide) ▸ h.auth
  packMeta := ho "pack_meta" (by decide) ▸ h.packMeta

/-- The authored members say nothing of the server-owned fields. -/
theorem AuthoredReads.withServerOwned {o : Members} {c : PackConfig} (h : AuthoredReads o c)
    (s : ServerOwned) : AuthoredReads o (c.withServerOwned s) :=
  ⟨h.1, h.2, h.3, h.4, h.5, h.6, h.7, h.8, h.9, h.10, h.11, h.12, h.13⟩

/-- A config written and read is the config. -/
theorem ofMembers_toMembers (c : PackConfig) : ofMembers operatorUid c.toMembers = some c := by
  rw [ofMembers_eq_some]
  refine ⟨⟨?_, ?_, ?_, ?_, ?_, ?_, ?_, ?_, ?_, ?_, ?_, ?_, ?_⟩, ?_, ?_, ?_, ?_⟩ <;>
    simp [lookup_toMembers, fields, List.lookup_cons, LoaderSpec.fromValue_toValue,
    listOf_map DeclaredMod.fromValue_toValue, listOf_map DeclaredAsset.fromValue_toValue,
    may_map AuthSpec.fromValue_toValue AuthSpec.toValue_ne_null, PackMeta.fromValue_toValue,
    PackTier.fromValue_toValue, Visibility.fromValue_toValue]

theorem fromValue_toValue (c : PackConfig) : fromValue operatorUid c.toValue = some c := by
  rw [fromValue, toValue, record_obj, Option.bind_some, ofMembers_toMembers]

end PackConfig

end Smrt
