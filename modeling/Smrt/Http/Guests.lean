import Smrt.Authoring.ConfigDiff
import Smrt.Domain.Diff
import Smrt.Http.Access
import Smrt.Http.BuildCommit
import Smrt.Http.Listings
import Smrt.Registry.ModPage
import Smrt.Storage.BuildIndex

/-!
# What a guest sees

The routes that need no session: the catalog of the launcher and the packs of the community, the
card of a pack, its builds, what has changed between two of them, its files, what is said about it,
the page of a mod, and what an account was told as a feed (`answer`). A draft is for whoever may
view it; to anyone else it is not there (`gateSummary`).

So two states that differ in drafts only (`Alike`) answer a guest alike (`answer_guest`), but for
what is shown on purpose (`ShownAlike`):

* the diff of a proposal shows the commit that it offers, of whichever pack this is: to offer it to
  a pack that is no draft is to publish it (`publicThreadDiff_shows`);
* a feed shows what the account was told that its key names.
-/

namespace Smrt

namespace Guests

open Registry

/-! ## States -/

inductive VersionChannel
  | release
  | beta
  | alpha
  deriving DecidableEq

/-- What is read of a manifest to list it. -/
structure BuildHead extends BuildIndex.ManifestHead where
  channel : Option VersionChannel
  deriving DecidableEq

/-- A manifest, or the error that it cannot be parsed with. -/
structure StoredBuild where
  head : Option BuildHead
  manifest : Except String StoredManifest

/-- The directory of a pack: its config and its commits, its card, its manifests by their versions,
    which of them is the latest, and its files. -/
structure PackDir extends PackFiles where
  summary : Option (Except String PackSummary)
  manifests : Option (List (String × StoredBuild))
  latest : Option String
  static : String → Option (List UInt8)

/-- The mirror. A card is filed under the id that it has. -/
structure Mirror where
  packs : AList fun _ : String => PackDir
  filed : ∀ row ∈ packs.entries, ∀ card, row.2.summary = some (.ok card) → card.packId = row.1
  accounts : Accounts
  feedKeys : AList fun _ : String => Int64
  discussions : Discussions
  registry : Tables
  cached : String → Bool

/-! ## What is stored -/

/-- A card as it is listed, with its latest build. -/
structure ListedPack extends PackSummary where
  latestBuiltAt : Option String
  latestChannel : Option VersionChannel
  deriving DecidableEq

/-- The channel of a build from before the channel was stored. -/
def legacyVersionChannel (version : String) : VersionChannel :=
  if (stripPrefix version "SNAPSHOT-").isSome then .beta else .release

structure BuildInfo where
  versionNumber : String
  versionType : VersionChannel
  datePublished : String
  builtFrom : Option String
  deriving DecidableEq

def buildInfoFromHead (head : BuildHead) : BuildInfo where
  versionNumber := head.packVersion
  versionType := head.channel.getD (legacyVersionChannel head.packVersion)
  datePublished := head.generatedAt
  builtFrom := head.builtFrom

section Storage

variable (s : Mirror) (packId : String)

def loadPackSummary : Except ApiError PackSummary := do
  refuseIf (¬ isSafeId packId) (.badRequest "invalid pack id")
  parsed ((s.packs.lookup packId).bind PackDir.summary)

/-- The manifest of a version. -/
def PackDir.build (d : PackDir) (version : String) : Option StoredBuild :=
  d.manifests.bind fun manifests => manifests.lookup version

def loadLatestManifest : Except ApiError StoredManifest := do
  refuseIf (¬ isSafeId packId) (.badRequest "invalid pack id")
  parsed ((s.packs.lookup packId).bind fun d => (d.latest.bind d.build).map StoredBuild.manifest)

def loadManifestVersion (version : String) : Except ApiError StoredManifest := do
  refuseIf (¬ isSafeId packId) (.badRequest "invalid pack id")
  refuseIf (¬ isSafeId version) (.badRequest "invalid version slug")
  parsed ((s.packs.lookup packId).bind fun d => (d.build version).map StoredBuild.manifest)

def listManifestBuilds : Except ApiError (List BuildInfo) := do
  refuseIf (¬ isSafeId packId) (.badRequest "invalid pack id")
  match (s.packs.lookup packId).bind PackDir.manifests with
  | none => .error .notFound
  | some manifests => .ok (((manifests.filterMap fun m => m.2.head).insertionSort fun a b =>
      BuildIndex.newerFirst a.toManifestHead b.toManifestHead).map buildInfoFromHead)

def latestManifestVersion : Except ApiError (Option String) := do
  refuseIf (¬ isSafeId packId) (.badRequest "invalid pack id")
  .ok ((s.packs.lookup packId).bind PackDir.latest)

/-- The latest build, if it can be read. -/
def latestBuildInfo : Option BuildInfo :=
  (s.packs.lookup packId).bind fun d =>
    ((d.latest.filter fun v => isSafeId packId ∧ isSafeId v).bind d.build).bind fun b =>
      b.head.map buildInfoFromHead

/-- The cards that can be read, in the order of their ids. -/
def listPackSummaries : List PackSummary :=
  (s.packs.entries.filterMap fun row => row.2.summary.bind Except.toOption).insertionSort
    fun a b => a.packId ≤ b.packId

def enrichLatestBuild (p : PackSummary) : ListedPack :=
  { p with
    latestBuiltAt := (latestBuildInfo s p.packId).map BuildInfo.datePublished
    latestChannel := (latestBuildInfo s p.packId).map BuildInfo.versionType }

end Storage

/-! ## Requests -/

inductive Request
  | listPacks
  | listCommunity
  | getPackSummary (packId : String)
  | getLatestManifest (packId : String)
  | getManifestVersion (packId version : String)
  | listManifestVersions (packId : String)
  | getPackDiff (packId was : String) (now : Option String)
  | getPackStatic (packId relPath : String)
  | publicThreads (packId : String) (kind : Option String) (all : Bool) (page : PageQuery)
  | publicThread (id : ℤ) (page : PageQuery)
  | publicThreadDiff (id : ℤ)
  | personalFeed (key : String)
  | getModDetail (key : String)

/-- What is answered. -/
inductive Answer
  | packs (generatedAt : String) (packs : List ListedPack)
  /-- Packs with the names of their owners. -/
  | community (packs : List (ListedPack × String))
  | summary (p : ListedPack)
  | manifest (m : StoredManifest)
  | versions (packId : String) (latest : Option String) (builds : List BuildInfo)
  | diff (d : PackDiff)
  | file (contentType : String) (bytes : List UInt8)
  /-- Rows of a page, and the cursor of the next one. -/
  | threads (rows : List ShownThread) (next : Option String)
  | thread (t : ShownThread) (comments : List ThreadComment) (next : Option String)
  | threadDiff (was now : String) (changes : List ConfigChange)
  | feed (base login : String) (uid : Int64) (rows : List Notification)
  | mod (d : ModDetail)

/-! ## Handlers -/

/-- What every request brings along, and what the mirror is called. -/
structure Context where
  config : MirrorConfig
  mirrorBase : String
  headers : Headers
  now : Int64
  nowRfc3339 : String
  base64 : Base64

/-- An error of the registry, as it is answered. -/
def ofDbError : DbError → ApiError
  | .constraint => .internal "constraint failed"
  | .noRows => .internal "Query returned no rows"
  | .refused reason => .internal reason

/-- The type of a file, by its name. -/
def contentTypeFor (relPath : String) : String :=
  let lower := relPath.toList.map Char.toLower
  match String.ofList ((lower.splitOnP fun c => c = '.').getLastD []) with
  | "png" => "image/png"
  | "jpg" | "jpeg" => "image/jpeg"
  | "gif" => "image/gif"
  | "webp" => "image/webp"
  | "svg" => "image/svg+xml"
  | "zip" => "application/zip"
  | "json" => "application/json"
  | "toml" => "application/toml"
  | "txt" | "cfg" | "properties" => "text/plain; charset=utf-8"
  | "md" => "text/markdown; charset=utf-8"
  | _ => "application/octet-stream"

section Handlers

variable (ctx : Context) (s : Mirror)

/-- Whoever a request is from, if it is from anyone. -/
def optionalIdentity : Option Identity :=
  (s.accounts.resolveIdentity ctx.config ctx.headers ctx.now).1

/-- A draft is only for whoever may view it. -/
def gateSummary (packId : String) (summary : PackSummary) : Except ApiError Unit :=
  if summary.visibility ≠ .draft then .ok ()
  else match optionalIdentity ctx s with
    | some id => if s.accounts.may id packId .view then .ok () else .error .notFound
    | none => .error .notFound

def gatePackRead (packId : String) : Except ApiError Unit := do
  let summary ← loadPackSummary s packId
  gateSummary ctx s packId summary

def listPacks : Answer :=
  .packs ctx.nowRfc3339 (((listPackSummaries s).filter fun p =>
    p.tier = .official ∧ p.visibility = .published).map (enrichLatestBuild s))

def listCommunity : Answer :=
  .community (((listPackSummaries s).filter fun p =>
    p.tier = .community ∧ p.visibility = .published).map fun p =>
      (enrichLatestBuild s p,
        ((s.accounts.users.lookup p.owner).map User.login).getD
          ("uid " ++ toString p.owner.toInt)))

def getPackSummary (packId : String) : Except ApiError Answer := do
  let summary ← loadPackSummary s packId
  gateSummary ctx s packId summary
  .ok (.summary (enrichLatestBuild s summary))

def getLatestManifest (packId : String) : Except ApiError Answer := do
  gatePackRead ctx s packId
  (loadLatestManifest s packId).map .manifest

def getManifestVersion (packId version : String) : Except ApiError Answer := do
  gatePackRead ctx s packId
  (loadManifestVersion s packId version).map .manifest

def listManifestVersions (packId : String) : Except ApiError Answer := do
  gatePackRead ctx s packId
  let builds ← listManifestBuilds s packId
  let latest ← latestManifestVersion s packId
  .ok (.versions packId latest builds)

/-- What the registry calls the version of a file, if it knows. -/
def versionLabelForSha1 (t : Tables) (sha1 : String) : Option String :=
  ((t.versionForSha1 sha1).map fun v => v.2.version).filter fun v => v ≠ "unknown"

def getPackDiff (packId was : String) (now : Option String) : Except ApiError Answer := do
  gatePackRead ctx s packId
  let was ← loadManifestVersion s packId was
  let now ← match now with
    | some version => loadManifestVersion s packId version
    | none => loadLatestManifest s packId
  let label (sha1 : String) := if sha1 = "" then none else versionLabelForSha1 s.registry sha1
  let diff := diffManifests was now
  .ok (.diff { diff with
    modsUpdated := diff.modsUpdated.map fun u =>
      { u with versionFrom := label u.sha1From, versionTo := label u.sha1To } })

def getPackStatic (packId relPath : String) : Except ApiError Answer := do
  gatePackRead ctx s packId
  refuseIf (¬ isSafeId packId) (.badRequest "invalid pack id")
  refuseIf (¬ isSafeRelPath relPath) (.badRequest "invalid rel_path")
  match (s.packs.lookup packId).bind fun d => d.static relPath with
  | none => .error .notFound
  | some bytes => .ok (.file (contentTypeFor relPath) bytes)

def getThreads (packId : String) (kind : Option String) (all : Bool) (page : PageQuery) :
    Except ApiError Answer := do
  gatePackRead ctx s packId
  let (rows, next) := Smrt.publicThreads ctx.base64 s.accounts s.discussions packId kind all page
  .ok (.threads rows next)

/-- A thread by its id. -/
def loadThread (id : ℤ) : Except ApiError (ℕ × ThreadRow) :=
  match id.toNat?.bind fun id => (s.discussions.thread id).map (Prod.mk id) with
  | none => .error .notFound
  | some r => .ok r

def getThread (id : ℤ) (page : PageQuery) : Except ApiError Answer := do
  let r ← loadThread s id
  gatePackRead ctx s r.2.packId
  let (comments, next) := Smrt.publicThread ctx.base64 s.accounts s.discussions r.1 page
  .ok (.thread (s.discussions.showThread s.accounts r) comments next)

/-- The files of a pack that the commits and the config are read from. -/
def packFiles (packId : String) : PackFiles :=
  ((s.packs.lookup packId).map PackDir.toPackFiles).getD ⟨none, fun _ => none, fun _ => none, none⟩

def getThreadDiff (id : ℤ) : Except ApiError Answer := do
  let r ← loadThread s id
  gatePackRead ctx s r.2.packId
  match r.2.sourcePack, r.2.sourceCommit with
  | some sourcePack, some sourceCommit => do
    let offered ← loadCommitConfig (packFiles s sourcePack) sourcePack sourceCommit
    let current ← loadPackConfig (packFiles s r.2.packId) r.2.packId
    .ok (.threadDiff r.2.packId sourceCommit (diffConfigs current offered))
  | _, _ => .error (.badRequest "this thread offers no state")

def personalFeed (key : String) : Except ApiError Answer :=
  match s.feedKeys.lookup key with
  | none => .error .notFound
  | some uid =>
    let rows := s.discussions.notificationsFor s.accounts uid false none (some 50)
    let login := ((s.accounts.identityOf uid).map Identity.login).getD "you"
    .ok (.feed (trimEndSlashes ctx.mirrorBase) login uid rows)

def getModDetail (key : String) : Except ApiError Answer := do
  let modId := s.registry.modIdForKey key
  let detail ← (modId.elim (.ok none) s.registry.modDetail).mapError ofDbError
  match detail with
  | none => .error .notFound
  | some detail =>
    let publicPacks := ((listPackSummaries s).filter fun p =>
      p.tier = .official ∧ p.visibility = .published).map PackSummary.packId
    .ok (.mod { detail with
      releases := detail.releases.map fun rel =>
        { rel with files := rel.files.map fun f => { f with cached := s.cached f.sha1 } }
      usedBy := detail.usedBy.filter fun u => u.packId ∈ publicPacks })

def answer : Request → Except ApiError Answer
  | .listPacks => .ok (listPacks ctx s)
  | .listCommunity => .ok (listCommunity s)
  | .getPackSummary packId => getPackSummary ctx s packId
  | .getLatestManifest packId => getLatestManifest ctx s packId
  | .getManifestVersion packId version => getManifestVersion ctx s packId version
  | .listManifestVersions packId => listManifestVersions ctx s packId
  | .getPackDiff packId was now => getPackDiff ctx s packId was now
  | .getPackStatic packId relPath => getPackStatic ctx s packId relPath
  | .publicThreads packId kind all page => getThreads ctx s packId kind all page
  | .publicThread id page => getThread ctx s id page
  | .publicThreadDiff id => getThreadDiff ctx s id
  | .personalFeed key => personalFeed ctx s key
  | .getModDetail key => getModDetail s key

end Handlers

/-! ## Drafts -/

/-- Whether a guest is shown a pack: it has a card, which is not that of a draft. What is no id of a
    pack is told to be none. -/
def Mirror.shows (s : Mirror) (packId : String) : Bool :=
  !isSafeId packId || match (s.packs.lookup packId).bind PackDir.summary with
    | none => false
    | some (.ok card) => card.visibility ≠ .draft
    | some (.error _) => true

/-- Whether a thread is of a pack that is shown. -/
def Mirror.showsThread (s : Mirror) (id : ℕ) : Bool :=
  (s.discussions.thread id).any fun t => s.shows t.packId

/-- Two states that differ in drafts only: in what their directories hold, in what is said about
    them and in their builds. -/
structure Alike (s s' : Mirror) : Prop where
  shows : s.shows = s'.shows
  packs : ∀ id, s.shows id = true → s.packs.lookup id = s'.packs.lookup id
  users : s.accounts.users = s'.accounts.users
  sessions : s.accounts.sessions = s'.accounts.sessions
  feedKeys : s.feedKeys = s'.feedKeys
  threads : (s.discussions.threads.rows.filter fun r => s.shows r.2.packId) =
    s'.discussions.threads.rows.filter fun r => s'.shows r.2.packId
  comments : (s.discussions.comments.rows.filter fun c => s.showsThread c.2.threadId) =
    s'.discussions.comments.rows.filter fun c => s'.showsThread c.2.threadId
  registry : s'.registry =
    { s.registry with
      packs := s'.registry.packs
      builds := s'.registry.builds
      buildMods := s'.registry.buildMods }
  builds : Tables.SameBuilds s.shows s.registry s'.registry
  cached : s.cached = s'.cached

/-- What is shown on purpose is the same: the commits that are offered to packs that are shown, and
    what the accounts were told that have a feed. -/
structure ShownAlike (s s' : Mirror) : Prop where
  offered : ∀ id t, s.discussions.thread id = some t → s.shows t.packId = true →
    ∀ p ∈ t.sourcePack, ∀ c ∈ t.sourceCommit,
      loadCommitConfig (packFiles s p) p c = loadCommitConfig (packFiles s' p) p c
  told : ∀ key uid, s.feedKeys.lookup key = some uid →
    s.discussions.notificationsFor s.accounts uid false none (some 50) =
      s'.discussions.notificationsFor s'.accounts uid false none (some 50)

section Answers

variable {ctx : Context} {s s' : Mirror} {packId : String}

/-! ### The gate -/

theorem Alike.optionalIdentity (h : Alike s s') :
    optionalIdentity ctx s = Guests.optionalIdentity ctx s' := by
  rw [Guests.optionalIdentity, Guests.optionalIdentity, Accounts.resolveIdentity,
    Accounts.resolveIdentity]
  split_ifs
  · rfl
  · rfl
  · rcases ctx.headers.cookie with _ | sid
    · rfl
    · simp only [Accounts.sessionIdentity, Accounts.identityOf, h.users, h.sessions]
      rcases s'.accounts.sessions.lookup sid with _ | session
      · rfl
      · dsimp only
        rcases s'.accounts.users.lookup session.uid with _ | user
        · rfl
        · dsimp only [Option.map_some]
          split_ifs <;> rfl

/-- To a guest, a pack that is not shown is not there. -/
theorem gatePackRead_of_hidden (hguest : optionalIdentity ctx s = none)
    (hshows : s.shows packId = false) : gatePackRead ctx s packId = .error .notFound := by
  rw [Mirror.shows, Bool.or_eq_false_iff, Bool.not_eq_false'] at hshows
  obtain ⟨hsafe, hshows⟩ := hshows
  rw [gatePackRead, loadPackSummary]
  rcases hcard : (s.packs.lookup packId).bind PackDir.summary with _ | e | card <;>
    rw [hcard] at hshows
  · simp only [hsafe, parsed]
    rfl
  · cases hshows
  · have hdraft : card.visibility = .draft := by simpa using hshows
    have hgate : gateSummary ctx s packId card = .error .notFound := by
      rw [gateSummary, if_neg (not_not_intro hdraft), hguest]
    simp only [hsafe, parsed, Except.mapError]
    exact hgate

/-- A pack that is shown is shown to everyone. -/
theorem gatePackRead_of_shows (hshows : s.shows packId = true) :
    gatePackRead ctx s packId = (loadPackSummary s packId).map fun _ => () := by
  rw [gatePackRead]
  rcases hload : loadPackSummary s packId with e | card
  · rfl
  · obtain ⟨_, hsafe, hparsed⟩ := bind_eq_ok.1 hload
    rw [refuseIf_eq_ok, not_not] at hsafe
    rw [Mirror.shows, hsafe, Bool.not_true, Bool.false_or] at hshows
    rcases hcard : (s.packs.lookup packId).bind PackDir.summary with _ | e | card' <;>
      rw [hcard] at hshows hparsed
    · cases hshows
    · cases hparsed
    · obtain rfl : card' = card := Except.ok.inj hparsed
      exact if_pos (of_decide_eq_true hshows)

/-- Behind the gate, only what is shown matters. -/
theorem Alike.gated {α : Type} {f f' : Except ApiError α} (h : Alike s s')
    (hguest : Guests.optionalIdentity ctx s = none) (hf : s.shows packId = true → f = f') :
    (do gatePackRead ctx s packId; f) = (do gatePackRead ctx s' packId; f') := by
  rcases hshows : s.shows packId with _ | _
  · rw [gatePackRead_of_hidden hguest hshows,
      gatePackRead_of_hidden (h.optionalIdentity ▸ hguest) (h.shows ▸ hshows)]
    rfl
  · rw [gatePackRead_of_shows hshows, gatePackRead_of_shows (h.shows ▸ hshows), hf hshows,
      loadPackSummary, loadPackSummary, h.packs packId hshows]

/-- The card is read first, but it is shown behind the gate only. -/
theorem getPackSummary_eq : getPackSummary ctx s packId = (do
    gatePackRead ctx s packId
    (loadPackSummary s packId).map fun p => .summary (enrichLatestBuild s p)) := by
  rw [getPackSummary, gatePackRead]
  rcases loadPackSummary s packId with e | card
  · rfl
  · rfl

theorem packId_of_load {card : PackSummary} (h : loadPackSummary s packId = .ok card) :
    card.packId = packId := by
  obtain ⟨_, -, h⟩ := bind_eq_ok.1 h
  rcases hd : (s.packs.lookup packId).bind PackDir.summary with _ | e | c <;> rw [hd] at h
  · cases h
  · cases h
  · obtain rfl : c = card := Except.ok.inj h
    obtain ⟨d, hlookup, hd⟩ := Option.bind_eq_some_iff.1 hd
    exact s.filed ⟨packId, d⟩ (AList.mem_lookup_iff.1 hlookup) c hd

/-! ### The listings -/

theorem toOption_eq_some {ε α : Type} {x : Option (Except ε α)} {a : α} :
    x.bind Except.toOption = some a ↔ x = some (.ok a) := by
  rcases x with _ | e | b
  · simp
  · simp [Except.toOption]
  · simp [Except.toOption]

theorem mem_listPackSummaries {card : PackSummary} : card ∈ listPackSummaries s ↔
    ∃ d, s.packs.lookup card.packId = some d ∧ d.summary = some (.ok card) := by
  rw [listPackSummaries, List.mem_insertionSort, List.mem_filterMap]
  constructor
  · rintro ⟨⟨id, d⟩, hmem, hd⟩
    have hfiled := s.filed _ hmem card (toOption_eq_some.1 hd)
    exact ⟨d, AList.mem_lookup_iff.2 (hfiled ▸ hmem), toOption_eq_some.1 hd⟩
  · rintro ⟨d, hmem, hd⟩
    exact ⟨⟨card.packId, d⟩, AList.mem_lookup_iff.1 hmem, toOption_eq_some.2 hd⟩

/-- A pack is listed once. -/
theorem pairwise_listPackSummaries :
    (listPackSummaries s).Pairwise fun a b => a.packId < b.packId := by
  refine Pages.pairwise_insertionSort ?_ fun a ha b hb hid => ?_
  · have hrows : s.packs.entries.Pairwise fun row row' =>
        ∀ a, row.2.summary.bind Except.toOption = some a →
          ∀ b, row'.2.summary.bind Except.toOption = some b → a ≠ b := by
      refine (List.nodupKeys_iff_pairwise.1 s.packs.nodupKeys).imp_of_mem ?_
      intro row row' hrow hrow' hne a ha b hb he
      refine hne ?_
      rw [← s.filed row hrow a (toOption_eq_some.1 ha), he,
        s.filed row' hrow' b (toOption_eq_some.1 hb)]
    exact hrows.filterMap _ fun _ _ h => h
  · obtain ⟨d, hd, ha⟩ := mem_listPackSummaries.1 ((List.mem_insertionSort _).2 ha)
    obtain ⟨d', hd', hb⟩ := mem_listPackSummaries.1 ((List.mem_insertionSort _).2 hb)
    rw [← hid, hd] at hd'
    obtain rfl := Option.some.inj hd'
    exact Except.ok.inj (Option.some.inj (ha.symm.trans hb))

/-- What is published is shown. -/
theorem shows_of_mem {card : PackSummary} (h : card ∈ listPackSummaries s)
    (hpublished : card.visibility = .published) : s.shows card.packId = true := by
  obtain ⟨d, hd, hcard⟩ := mem_listPackSummaries.1 h
  rw [Mirror.shows, hd, Option.bind_some, hcard]
  exact Bool.or_eq_true_iff.2 (.inr (decide_eq_true (hpublished ▸ nofun)))

/-- The packs that are published are listed alike. -/
theorem Alike.listed (h : Alike s s') {p : PackSummary → Bool}
    (hp : ∀ card, p card = true → card.visibility = .published) :
    (listPackSummaries s).filter p = (listPackSummaries s').filter p := by
  have hsorted : ∀ s : Mirror, ((listPackSummaries s).filter p).Pairwise
      fun a b => a.packId < b.packId := fun s => pairwise_listPackSummaries.filter _
  have : Std.Irrefl fun a b : PackSummary => a.packId < b.packId := ⟨fun a => lt_irrefl a.packId⟩
  refine (hsorted s).eq_of_mem_iff (hsorted s') fun card => ?_
  rw [List.mem_filter, List.mem_filter]
  refine and_congr_left fun hcard => ?_
  constructor
  · intro hmem
    have hshows := shows_of_mem hmem (hp card hcard)
    exact mem_listPackSummaries.2 (h.packs _ hshows ▸ mem_listPackSummaries.1 hmem)
  · intro hmem
    have hshows : s.shows card.packId = true := h.shows ▸ shows_of_mem hmem (hp card hcard)
    exact mem_listPackSummaries.2 ((h.packs _ hshows).symm ▸ mem_listPackSummaries.1 hmem)

theorem Alike.enrichLatestBuild (h : Alike s s') {p : PackSummary}
    (hshows : s.shows p.packId = true) : enrichLatestBuild s p = Guests.enrichLatestBuild s' p := by
  rw [Guests.enrichLatestBuild, Guests.enrichLatestBuild, latestBuildInfo, latestBuildInfo,
    h.packs _ hshows]

theorem Alike.listPacks (h : Alike s s') : listPacks ctx s = Guests.listPacks ctx s' := by
  rw [Guests.listPacks, Guests.listPacks, ← h.listed fun card hcard => (of_decide_eq_true hcard).2]
  refine congrArg _ (List.map_congr_left fun p hp => ?_)
  obtain ⟨hmem, hp⟩ := List.mem_filter.1 hp
  exact h.enrichLatestBuild (shows_of_mem hmem (of_decide_eq_true hp).2)

theorem Alike.listCommunity (h : Alike s s') : listCommunity s = Guests.listCommunity s' := by
  rw [Guests.listCommunity, Guests.listCommunity, ← h.users,
    ← h.listed fun card hcard => (of_decide_eq_true hcard).2]
  refine congrArg _ (List.map_congr_left fun p hp => ?_)
  obtain ⟨hmem, hp⟩ := List.mem_filter.1 hp
  rw [h.enrichLatestBuild (shows_of_mem hmem (of_decide_eq_true hp).2)]

/-! ### The page of a mod -/

theorem filter_filter_of_imp {α : Type} {l : List α} {p q : α → Bool}
    (h : ∀ x ∈ l, p x = true → q x = true) : (l.filter q).filter p = l.filter p := by
  rw [List.filter_filter]
  refine List.filter_congr fun x hx => ?_
  rcases hp : p x with _ | _
  · rfl
  · rw [h x hx hp, Bool.and_self]

/-- What is kept of the packs that ship a mod, of those that are in the catalog. -/
theorem Alike.usedBy (h : Alike s s') {p : PackSummary → Bool}
    (hp : ∀ card, p card = true → card.visibility = .published) (modId : ℕ) :
    ((s.registry.packsUsingModById modId).filter fun u =>
        u.packId ∈ ((listPackSummaries s).filter p).map PackSummary.packId) =
      (s'.registry.packsUsingModById modId).filter fun u =>
        u.packId ∈ ((listPackSummaries s').filter p).map PackSummary.packId := by
  rw [← h.listed hp]
  have hshown : ∀ uses : List ModUse, ((uses.filter fun u => s.shows u.packId).filter fun u =>
      u.packId ∈ ((listPackSummaries s).filter p).map PackSummary.packId) =
        uses.filter fun u =>
          u.packId ∈ ((listPackSummaries s).filter p).map PackSummary.packId := by
    refine fun uses => filter_filter_of_imp fun u _ hu => ?_
    obtain ⟨card, hcard, hid⟩ := List.mem_map.1 (of_decide_eq_true hu)
    obtain ⟨hmem, hcard⟩ := List.mem_filter.1 hcard
    exact hid ▸ shows_of_mem hmem (hp card hcard)
  rw [← hshown, Tables.packsUsingModById_eq h.builds, hshown]

theorem Alike.getModDetail (h : Alike s s') (key : String) :
    getModDetail s key = Guests.getModDetail s' key := by
  have hkey : s'.registry.modIdForKey key = s.registry.modIdForKey key := by rw [h.registry]; rfl
  rw [Guests.getModDetail, Guests.getModDetail, hkey, ← h.cached]
  rcases s.registry.modIdForKey key with _ | modId
  · rfl
  · have hkept := h.usedBy (p := fun p => p.tier = .official ∧ p.visibility = .published)
      (fun card hcard => (of_decide_eq_true hcard).2) modId
    rw [Option.elim_some, Option.elim_some, Tables.modDetail_of_builds h.registry]
    rcases hd : s.registry.modDetail modId with e | _ | d
    · rfl
    · rfl
    · rw [← Tables.modDetail_usedBy hd] at hkept
      exact congrArg (fun uses => Except.ok (Answer.mod { d with
        releases := d.releases.map fun rel =>
          { rel with files := rel.files.map fun f => { f with cached := s.cached f.sha1 } }
        usedBy := uses })) hkept

/-! ### Threads -/

theorem Alike.thread_iff (h : Alike s s') {id : ℕ} {t : ThreadRow}
    (hshows : s.shows t.packId = true) :
    s.discussions.thread id = some t ↔ s'.discussions.thread id = some t := by
  have hmem : (id, t) ∈ s.discussions.threads.rows.filter (fun r => s.shows r.2.packId) ↔
      (id, t) ∈ s'.discussions.threads.rows.filter fun r => s'.shows r.2.packId := by
    rw [h.threads]
  rw [List.mem_filter, List.mem_filter, ← h.shows, and_iff_left hshows, and_iff_left hshows] at hmem
  rwa [Discussions.thread, Discussions.thread, Table.get?_eq_some, Table.get?_eq_some]

theorem Alike.showsThread (h : Alike s s') (id : ℕ) : s.showsThread id = s'.showsThread id := by
  rw [Bool.eq_iff_iff, Mirror.showsThread, Mirror.showsThread, Option.any_eq_true,
    Option.any_eq_true]
  refine exists_congr fun t => ?_
  rw [← h.shows]
  exact and_congr_left fun hshows => h.thread_iff hshows

/-- The comments on a thread that is shown. -/
theorem Alike.filter_comments (h : Alike s s') {id : ℕ} (hid : s.showsThread id = true)
    {p : ℕ × Comment → Bool} (hp : ∀ c, p c = true → c.2.threadId = id) :
    s.discussions.comments.rows.filter p = s'.discussions.comments.rows.filter p := by
  have hshown : ∀ s : Mirror, s.showsThread id = true →
      ((s.discussions.comments.rows.filter fun c => s.showsThread c.2.threadId).filter p) =
        s.discussions.comments.rows.filter p := fun s hid =>
    filter_filter_of_imp fun c _ hc => (hp c hc).symm ▸ hid
  rw [← hshown s hid, h.comments, hshown s' (h.showsThread id ▸ hid)]

theorem Alike.showThread (h : Alike s s') {r : ℕ × ThreadRow}
    (hr : s.discussions.thread r.1 = some r.2) (hshows : s.shows r.2.packId = true) :
    s.discussions.showThread s.accounts r = s'.discussions.showThread s'.accounts r := by
  have hid : s.showsThread r.1 = true := by rw [Mirror.showsThread, hr, Option.any_some, hshows]
  rw [Discussions.showThread, Discussions.showThread, h.users,
    h.filter_comments hid fun c hc => of_decide_eq_true hc]

theorem Alike.publicThreads (h : Alike s s') (hshows : s.shows packId = true) (b : Base64)
    (kind : Option String) (all : Bool) (page : PageQuery) :
    publicThreads b s.accounts s.discussions packId kind all page =
      Smrt.publicThreads b s'.accounts s'.discussions packId kind all page := by
  have hrows : ∀ after limit, s.discussions.threadRows packId kind (!all) after limit =
      s'.discussions.threadRows packId kind (!all) after limit := by
    intro after limit
    have hshown : ∀ s : Mirror, s.shows packId = true → ∀ p : ℕ × ThreadRow → Bool,
        (∀ r, p r = true → r.2.packId = packId) →
          (s.discussions.threads.rows.filter fun r => s.shows r.2.packId).filter p =
            s.discussions.threads.rows.filter p := fun s hs p hp =>
      filter_filter_of_imp fun r _ hr => (hp r hr).symm ▸ hs
    rw [Discussions.threadRows, Discussions.threadRows,
      ← hshown s hshows _ fun r hr => (of_decide_eq_true hr).1.1, h.threads,
      hshown s' (h.shows ▸ hshows) _ fun r hr => (of_decide_eq_true hr).1.1]
  have hmem : ∀ {after limit r}, r ∈ s.discussions.threadRows packId kind (!all) after limit →
      s.discussions.thread r.1 = some r.2 ∧ s.shows r.2.packId = true := by
    intro after limit r hr
    have hsorted : r ∈ s.discussions.threadRows packId kind (!all) after none := by
      rcases limit with _ | n
      · exact hr
      · exact List.mem_of_mem_take hr
    obtain ⟨hrow, hr⟩ := List.mem_filter.1 ((List.mem_insertionSort _).1 hsorted)
    exact ⟨Table.get?_eq_some.2 hrow, (of_decide_eq_true hr).1.1.symm ▸ hshows⟩
  rw [Smrt.publicThreads, Smrt.publicThreads, Discussions.threadsFor, Discussions.threadsFor,
    ← hrows, List.map_congr_left fun r hr => h.showThread (hmem hr).1 (hmem hr).2]

theorem Alike.publicThread (h : Alike s s') {id : ℕ} (hid : s.showsThread id = true) (b : Base64)
    (page : PageQuery) : publicThread b s.accounts s.discussions id page =
      Smrt.publicThread b s'.accounts s'.discussions id page := by
  have hshow : Discussions.showComment s.accounts = Discussions.showComment s'.accounts := by
    funext c
    rw [Discussions.showComment, Discussions.showComment, h.users]
  rw [Smrt.publicThread, Smrt.publicThread, Discussions.commentsOn, Discussions.commentsOn, hshow,
    Discussions.commentRows, Discussions.commentRows,
    h.filter_comments hid fun c hc => (of_decide_eq_true hc).1]

theorem loadThread_natCast (id : ℕ) : loadThread s id =
    ((s.discussions.thread id).elim (.error .notFound) fun t => .ok (id, t)) := by
  have hid : (id : ℤ).toNat? = some id := rfl
  rw [loadThread, hid, Option.bind_some]
  rcases s.discussions.thread id with _ | t
  · rfl
  · rfl

/-- To a guest, a thread of a pack that is not shown is not there. -/
theorem loadThread_of_hidden {α : Type} {f : ℕ × ThreadRow → Except ApiError α}
    (hguest : optionalIdentity ctx s = none) {id : ℕ} (hid : s.showsThread id = false) : (do
      let r ← loadThread s id
      gatePackRead ctx s r.2.packId
      f r) = .error .notFound := by
  rw [loadThread_natCast]
  rcases ht : s.discussions.thread id with _ | t
  · rfl
  · rw [Mirror.showsThread, ht, Option.any_some] at hid
    exact congrArg (· >>= fun _ => f (id, t)) (gatePackRead_of_hidden hguest hid)

/-- Behind the gate, only the threads that are shown matter. -/
theorem Alike.gatedThread {α : Type} {f f' : ℕ × ThreadRow → Except ApiError α} (h : Alike s s')
    (hguest : Guests.optionalIdentity ctx s = none)
    (hf : ∀ r, s.discussions.thread r.1 = some r.2 → s.shows r.2.packId = true → f r = f' r)
    (id : ℤ) : (do
      let r ← loadThread s id
      gatePackRead ctx s r.2.packId
      f r) = (do
      let r ← loadThread s' id
      gatePackRead ctx s' r.2.packId
      f' r) := by
  rcases id with id | _
  · rcases hid : s.showsThread id with _ | _
    · have hid' := (h.showsThread id).symm.trans hid
      exact (loadThread_of_hidden hguest hid).trans
        (loadThread_of_hidden (h.optionalIdentity ▸ hguest) hid').symm
    · obtain ⟨t, ht, hshows⟩ := (Option.any_eq_true _ _).1 hid
      have ht' := (h.thread_iff hshows).1 ht
      have hload : loadThread s id = .ok (id, t) := by rw [loadThread_natCast, ht]; rfl
      have hload' : loadThread s' id = .ok (id, t) := by rw [loadThread_natCast, ht']; rfl
      rw [Int.ofNat_eq_natCast, hload, hload']
      exact h.gated hguest fun hs => hf (id, t) ht hs
  · rfl

theorem Alike.packFiles (h : Alike s s') (hshows : s.shows packId = true) :
    packFiles s packId = Guests.packFiles s' packId := by
  rw [Guests.packFiles, Guests.packFiles, h.packs packId hshows]

/-! ## Guests -/

/-- Two states that differ in drafts only answer a guest alike, but for what is shown on purpose. -/
theorem answer_guest (h : Alike s s') (hshown : ShownAlike s s')
    (hguest : optionalIdentity ctx s = none) (r : Request) : answer ctx s r = answer ctx s' r := by
  rcases r with _ | _ | packId | packId | ⟨packId, version⟩ | packId | ⟨packId, was, now⟩ |
    ⟨packId, relPath⟩ | ⟨packId, kind, all, page⟩ | ⟨id, page⟩ | id | key | key
  · exact congrArg Except.ok h.listPacks
  · exact congrArg Except.ok h.listCommunity
  · rw [answer, answer, getPackSummary_eq, getPackSummary_eq]
    refine h.gated hguest fun hshows => ?_
    have hload : loadPackSummary s packId = loadPackSummary s' packId := by
      rw [loadPackSummary, loadPackSummary, h.packs packId hshows]
    rw [← hload]
    rcases hcard : loadPackSummary s packId with e | card
    · rfl
    · have hlisted := h.enrichLatestBuild (p := card) (packId_of_load hcard ▸ hshows)
      exact congrArg (fun p => Except.ok (Answer.summary p)) hlisted
  · refine h.gated hguest fun hshows => ?_
    rw [loadLatestManifest, loadLatestManifest, h.packs packId hshows]
  · refine h.gated hguest fun hshows => ?_
    rw [loadManifestVersion, loadManifestVersion, h.packs packId hshows]
  · refine h.gated hguest fun hshows => ?_
    rw [listManifestBuilds, listManifestBuilds, latestManifestVersion, latestManifestVersion,
      h.packs packId hshows]
  · refine h.gated hguest fun hshows => ?_
    have hlabel : versionLabelForSha1 s.registry = versionLabelForSha1 s'.registry := by
      rw [h.registry]
      rfl
    simp only [loadManifestVersion, loadLatestManifest, h.packs packId hshows, hlabel]
  · refine h.gated hguest fun hshows => ?_
    rw [h.packs packId hshows]
  · refine h.gated hguest fun hshows => ?_
    rw [h.publicThreads hshows]
  · refine h.gatedThread hguest (fun r hr hshows => ?_) id
    have hid : s.showsThread r.1 = true := by rw [Mirror.showsThread, hr, Option.any_some, hshows]
    rw [h.publicThread hid, h.showThread hr hshows]
  · refine h.gatedThread hguest (fun r hr hshows => ?_) id
    rw [h.packFiles hshows]
    rcases hpack : r.2.sourcePack with _ | p
    · rfl
    · rcases hcommit : r.2.sourceCommit with _ | c
      · rfl
      · dsimp only
        rw [hshown.offered r.1 r.2 hr hshows p hpack c hcommit]
  · rw [answer, answer, personalFeed, personalFeed, ← h.feedKeys]
    rcases hkey : s.feedKeys.lookup key with _ | uid
    · rfl
    · dsimp only
      rw [hshown.told key uid hkey, Accounts.identityOf, Accounts.identityOf, h.users]
  · exact h.getModDetail key

end Answers

/-! ## A proposal of a draft -/

section Offer

def guest : Context := ⟨⟨none, none, [], []⟩, "", ⟨none, none⟩, 0, "", ⟨id, fun s => some s.toUTF8⟩⟩

def offeredCommit : String := "5afb5b59a5633cae487d434d2fb18e970232c78c"

/-- The directory of a pack with a card, and perhaps with a commit. -/
def packDir (packId tagline : String) (visibility : Visibility) (offered : Option PackConfig) :
    PackDir where
  headText := none
  record _ := none
  snapshot id := if id = offeredCommit then offered.map .ok else none
  config := some (.ok (.empty packId))
  summary := some (.ok ⟨packId, packId, tagline, "1.12.2", "", [], false, none, none, [], none, 0,
    .official, visibility, none⟩)
  manifests := none
  latest := none
  static _ := none

/-- A pack that is published, and a draft that offers it a commit. -/
def mirror (tagline : String) (offered : Option PackConfig) : Mirror where
  packs := ⟨[⟨"Anvil", packDir "Anvil" "" .published none⟩,
    ⟨"Workshop", packDir "Workshop" tagline .draft offered⟩],
    (by decide : ["Anvil", "Workshop"].Nodup)⟩
  filed := by
    refine List.forall_mem_cons.2 ⟨fun card h => ?_, List.forall_mem_singleton.2 fun card h => ?_⟩
    · obtain rfl := Except.ok.inj (Option.some.inj h)
      rfl
    · obtain rfl := Except.ok.inj (Option.some.inj h)
      rfl
  accounts := .empty
  feedKeys := ∅
  discussions := (Discussions.empty.openThread "Anvil" .proposal "From the workshop" "" 42
    (some ("Workshop", offeredCommit)) 0).2
  registry := .empty
  cached _ := false

theorem lookup_mirror (tagline : String) (offered : Option PackConfig) (packId : String) :
    (mirror tagline offered).packs.lookup packId =
      if packId = "Anvil" then some (packDir "Anvil" "" .published none)
      else if packId = "Workshop" then some (packDir "Workshop" tagline .draft offered)
      else none := by
  split_ifs with hanvil hworkshop
  · subst hanvil
    rfl
  · subst hworkshop
    rfl
  · refine AList.lookup_eq_none.2 fun hmem => ?_
    rcases List.mem_pair.1 hmem with he | he
    · exact hanvil he
    · exact hworkshop he

theorem shows_mirror (tagline : String) (offered : Option PackConfig) (packId : String) :
    (mirror tagline offered).shows packId = (!isSafeId packId || decide (packId = "Anvil")) := by
  rw [Mirror.shows, lookup_mirror]
  split_ifs with hanvil hworkshop
  · rw [decide_eq_true hanvil]
    rfl
  · rw [decide_eq_false hanvil]
    rfl
  · rw [decide_eq_false hanvil]
    rfl

/-- The draft is not shown, whatever it is. -/
theorem alike_mirror (tagline tagline' : String) (offered offered' : Option PackConfig) :
    Alike (mirror tagline offered) (mirror tagline' offered') where
  shows := by
    funext packId
    rw [shows_mirror, shows_mirror]
  packs packId h := by
    rw [lookup_mirror, lookup_mirror]
    split_ifs with hanvil hworkshop
    · rfl
    · rw [shows_mirror, hworkshop] at h
      exact absurd h (by decide +kernel)
    · rfl
  users := rfl
  sessions := rfl
  feedKeys := rfl
  threads := by
    simp only [shows_mirror]
    rfl
  comments := rfl
  registry := rfl
  builds := ⟨rfl, fun _ _ _ => Iff.rfl, rfl⟩
  cached := rfl

/-- Whatever its card says, the draft is not there for a guest. -/
theorem answer_guest_workshop : optionalIdentity guest (mirror "" none) = none ∧
    answer guest (mirror "" none) (.getPackSummary "Workshop") =
      answer guest (mirror "soon" none) (.getPackSummary "Workshop") := by
  have hshown : ShownAlike (mirror "" none) (mirror "soon" none) := by
    refine ⟨fun _ _ _ _ p _ c _ => ?_, fun key uid h => nomatch h⟩
    have hfiles : packFiles (mirror "" none) p = packFiles (mirror "soon" none) p := by
      rw [packFiles, packFiles, lookup_mirror, lookup_mirror]
      split_ifs
      · rfl
      · rfl
      · rfl
    rw [hfiles]
  exact ⟨rfl, answer_guest (alike_mirror _ _ _ _) hshown rfl _⟩

/-- What the draft offers is shown, as long as it is there. -/
theorem publicThreadDiff_shows : ∃ s s', Alike s s' ∧ optionalIdentity guest s = none ∧
    answer guest s (.publicThreadDiff 1) ≠ answer guest s' (.publicThreadDiff 1) := by
  refine ⟨mirror "" (some (.empty "Workshop")), mirror "" none, alike_mirror _ _ _ _, rfl, ?_⟩
  intro h
  have hoffered : (answer guest (mirror "" (some (.empty "Workshop")))
      (.publicThreadDiff 1)).toBool = true := by decide +kernel
  have hgone : (answer guest (mirror "" none) (.publicThreadDiff 1)).toBool = false := by
    decide +kernel
  rw [h, hgone] at hoffered
  cases hoffered

end Offer

end Guests

end Smrt
