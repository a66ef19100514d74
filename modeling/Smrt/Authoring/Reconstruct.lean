import Smrt.Domain.Pack

/-!
# Reconstructing a config from a build

A published build and the card of its pack hold the config they were built from, up to
what is resolved at build (`reconstructConfig`). A static file is recovered from the
address it is served under, whose segments are decoded (`decodeSegment`, a parameter).
-/

namespace Smrt

variable (decodeSegment : String → String)

/-- The path of a static file, from the address it is served under. -/
def relFromStaticUrl (url : String) : String :=
  let tail := ((url.splitOn "/static/")[1]?).getD url
  String.intercalate "/" ((tail.splitOn "/").map decodeSegment)

/-- The declaration of a source: a jar of the cache is its hash. -/
def sourceDecl (source : Source) (sha1 : String) : SourceDecl :=
  match source with
  | .modrinth projectId versionId => .modrinth projectId versionId
  | .smrtCache _ => .smrtCache sha1
  | .smrtStatic url => .smrtStatic (relFromStaticUrl decodeSegment url)

/-- The declaration of a built mod. -/
def reconstructMod (m : ModEntry) : DeclaredMod where
  filename := m.filename
  defaultEnabled := m.defaultEnabled
  source := sourceDecl decodeSegment m.source m.sha1
  display := m.display
  slug := m.slug
  pulled := false

/-- The declaration of a built asset. -/
def reconstructAsset (a : AssetEntry) : DeclaredAsset where
  dest := a.dest
  required := a.required
  source := sourceDecl decodeSegment a.source a.sha1
  display := a.display

/-- The config of a build: what it launches from the manifest, the card from the
    summary. -/
def reconstructConfig (manifest : PackManifest) (summary : PackSummary) : PackConfig where
  packId := summary.packId
  displayName := summary.displayName
  tagline := summary.tagline
  minecraftVersion := manifest.minecraftVersion
  loader := manifest.loader
  javaMajor := manifest.javaMajor
  version := none
  tags := summary.tags
  featured := summary.featured
  mods := manifest.mods.map (reconstructMod decodeSegment)
  assets := manifest.assets.map (reconstructAsset decodeSegment)
  auth := manifest.auth
  packMeta :=
    { iconUrl := summary.iconUrl
      bannerUrl := summary.bannerUrl
      galleryUrls := summary.galleryUrls
      descriptionMd := summary.descriptionMd }
  owner := summary.owner
  tier := summary.tier
  visibility := summary.visibility
  forkOf := summary.forkOf

end Smrt
