import Smrt.Authoring.Gate
import Smrt.Authoring.JarDoors
import Smrt.Lib.System

/-!
# What is remembered of the loaders

Which builds of a loader an artifact runs under is read of it once, and remembered in a table with
a row for each loader (`setArtifactLoaderReqs`); from there it is answered afterwards
(`artifactLoaderReqs`). It is read when a pack is checked (`pass`), of the jar at hand or of one on
another server, and at every harvest. Any of these reads may fail.

* `artifactLoaderReqs_set`: what was put is answered, if it names each loader once;
* `remembered_of_reach`: what is remembered is what the artifact declares, if all that are read can
  be understood, and name each loader once (`Library.Clear`);
* `mem_issues`: then a pass reports what the pin does not satisfy;
* `windows_remembered`: so does every pass after the artifact was read.
-/

namespace Smrt

namespace LoaderReqs

open Bootstrap (Bytes Entry Archive)
open JarDoors
open ModMeta
open ReadJar (JarFormats readJar)
open Registry (lower)
open Resolve

/-! ## The table -/

/-- Loaders, with the builds of them that will do. -/
abbrev Reqs := List (String × String)

/-- A row of `artifact_loader_req`; one without a loader says that there is none. -/
structure ReqRow where
  artifactKey : String
  loader : String
  range : Option String
  deriving DecidableEq

/-- A row in the place of the one of its artifact and loader. -/
def insertOrReplace (r : ReqRow) (t : List ReqRow) : List ReqRow :=
  (t.filter fun q => ¬ (q.artifactKey = r.artifactKey ∧ q.loader = r.loader)) ++ [r]

/-- What was read of an artifact, in the place of what was known of it. -/
def setArtifactLoaderReqs (key : String) (reqs : Reqs) (t : List ReqRow) : List ReqRow :=
  let rest := t.filter fun q => q.artifactKey ≠ key
  if reqs = [] then rest ++ [⟨key, "", none⟩]
  else reqs.foldl (fun t req => insertOrReplace ⟨key, lower req.1, some req.2⟩ t) rest

/-- What is known of an artifact, if it was read. -/
def artifactLoaderReqs (t : List ReqRow) (key : String) : Option Reqs :=
  let rows := (t.filter fun q => q.artifactKey = key).insertionSort fun q q' => q.loader ≤ q'.loader
  if rows = [] then none
  else some (rows.filterMap fun q =>
    if q.loader = "" then none else q.range.map fun range => (q.loader, range))

section Table

variable {key key' : String} {reqs : Reqs} {t : List ReqRow}

theorem filter_insertOrReplace (h : key ≠ key') (loader : String) (range : Option String) :
    (insertOrReplace ⟨key, loader, range⟩ t).filter (fun q => q.artifactKey = key') =
      t.filter fun q => q.artifactKey = key' := by
  rw [insertOrReplace, List.filter_append, List.filter_cons_of_neg (by simpa using h),
    List.filter_nil, List.append_nil, List.filter_filter]
  refine List.filter_congr fun q _ => ?_
  by_cases hq : q.artifactKey = key'
  · simp [hq, h.symm]
  · simp [hq]

/-- What is known of other artifacts stays. -/
theorem filter_set_of_ne (h : key ≠ key') :
    (setArtifactLoaderReqs key reqs t).filter (fun q => q.artifactKey = key') =
      t.filter fun q => q.artifactKey = key' := by
  have hrest : (t.filter fun q => q.artifactKey ≠ key).filter (fun q => q.artifactKey = key') =
      t.filter fun q => q.artifactKey = key' := by
    rw [List.filter_filter]
    refine List.filter_congr fun q _ => ?_
    by_cases hq : q.artifactKey = key'
    · simp [hq, h.symm]
    · simp [hq]
  rw [setArtifactLoaderReqs]
  by_cases hnil : reqs = []
  · rw [if_pos hnil, List.filter_append, hrest, List.filter_cons_of_neg (by simpa using h),
      List.filter_nil, List.append_nil]
  · rw [if_neg hnil, ← hrest]
    clear hnil hrest
    generalize (t.filter fun q => q.artifactKey ≠ key) = rest
    induction reqs generalizing rest with
    | nil => rfl
    | cons req reqs ih => rw [List.foldl_cons, ih, filter_insertOrReplace h]

theorem artifactLoaderReqs_set_of_ne (h : key ≠ key') :
    artifactLoaderReqs (setArtifactLoaderReqs key reqs t) key' = artifactLoaderReqs t key' := by
  rw [artifactLoaderReqs, filter_set_of_ne h, artifactLoaderReqs]

/-- Rows of distinct loaders do not take each other's place. -/
theorem foldl_insertOrReplace (hn : (reqs.map fun req => lower req.1).Nodup) {rest : List ReqRow}
    (hrest : ∀ q ∈ rest, q.artifactKey = key → q.loader ∉ reqs.map fun req => lower req.1) :
    reqs.foldl (fun t req => insertOrReplace ⟨key, lower req.1, some req.2⟩ t) rest =
      rest ++ reqs.map fun req => ⟨key, lower req.1, some req.2⟩ := by
  induction reqs generalizing rest with
  | nil => exact (List.append_nil rest).symm
  | cons req reqs ih =>
    obtain ⟨hreq, hn⟩ := List.nodup_cons.1 hn
    have hkeep : insertOrReplace ⟨key, lower req.1, some req.2⟩ rest =
        rest ++ [⟨key, lower req.1, some req.2⟩] := by
      rw [insertOrReplace, List.filter_eq_self.2]
      intro q hq
      refine decide_eq_true fun hsame => ?_
      exact hrest q hq hsame.1 (hsame.2 ▸ List.mem_cons_self)
    rw [List.foldl_cons, hkeep, ih hn, List.append_assoc, List.map_cons, List.singleton_append]
    intro q hq hkey
    rcases List.mem_append.1 hq with hq | hq
    · exact fun hmem => hrest q hq hkey (List.mem_cons_of_mem _ hmem)
    · obtain rfl := List.mem_singleton.1 hq
      exact hreq

/-- What was put is answered, if it names each loader once. -/
theorem artifactLoaderReqs_set (hn : (reqs.map Prod.fst).Nodup)
    (hl : ∀ req ∈ reqs, lower req.1 = req.1 ∧ req.1 ≠ "") :
    ∃ l, artifactLoaderReqs (setArtifactLoaderReqs key reqs t) key = some l ∧ l.Perm reqs := by
  have hlower : (reqs.map fun req => lower req.1) = reqs.map Prod.fst :=
    List.map_congr_left fun req hreq => (hl req hreq).1
  have hother : ((t.filter fun q => q.artifactKey ≠ key).filter fun q => q.artifactKey = key) =
      [] := by
    rw [List.filter_filter, List.filter_eq_nil_iff]
    intro q _
    simp
  by_cases hnil : reqs = []
  · refine ⟨[], ?_, hnil ▸ .refl _⟩
    rw [artifactLoaderReqs, setArtifactLoaderReqs, if_pos hnil, List.filter_append, hother]
    simp
  · have hrows : ((setArtifactLoaderReqs key reqs t).filter fun q => q.artifactKey = key) =
        reqs.map fun req => ⟨key, lower req.1, some req.2⟩ := by
      rw [setArtifactLoaderReqs, if_neg hnil, foldl_insertOrReplace (hlower ▸ hn),
        List.filter_append, hother, List.nil_append, List.filter_eq_self.2]
      · intro q hq
        obtain ⟨req, -, rfl⟩ := List.mem_map.1 hq
        exact decide_eq_true rfl
      · intro q hq hkey
        exact absurd hkey (of_decide_eq_true (List.mem_filter.1 hq).2)
    rw [artifactLoaderReqs, hrows]
    have hperm := List.perm_insertionSort (fun q q' : ReqRow => q.loader ≤ q'.loader)
      (reqs.map fun req => ⟨key, lower req.1, some req.2⟩)
    rw [if_neg fun he => hnil (List.map_eq_nil_iff.1 (List.perm_nil.1 (he ▸ hperm).symm))]
    refine ⟨_, rfl, (hperm.filterMap _).trans ?_⟩
    rw [List.filterMap_map]
    -- Every row says what was put.
    have hid : (reqs.filterMap ((fun q : ReqRow => if q.loader = "" then none
        else q.range.map fun range => (q.loader, range)) ∘
        fun req => ⟨key, lower req.1, some req.2⟩)) = reqs.filterMap some := by
      refine List.filterMap_congr fun req hreq => ?_
      obtain ⟨hlow, hne⟩ := hl req hreq
      simp [hlow, hne]
    rw [hid, List.filterMap_some]

end Table

/-! ## Reading -/

def flatten (reqs : List LoaderReq) : Reqs := reqs.map fun r => (lower r.loader, r.range)

/-- The files that declare something, the one that counts most first. -/
def manifests : List String := [neoToml, forgeToml, fabricMod]

/-- The first of these that a jar has, and what is read of it. -/
def findManifest (entries : List Entry) : Option (String × Option Bytes) :=
  manifests.findSome? fun name =>
    ((entries.find? fun e => e.name = name).filter fun e => e.fault.isNone).map fun e =>
      (name, Bytecode.read e)

/-- What a file declares that is read from another server: a text that is none is mended. -/
def manifestMeta (F : Formats) (name : String) (bytes : Bytes) : ModMeta :=
  if ".json".toList <:+ name.toList then jsonMeta F bytes else tomlMeta F (F.lossy bytes)

/-- What is read of a jar at hand. -/
def readLocal (F : Formats) (jar : Archive) : Reqs := flatten (readModMeta F jar).loaderReqs

/-- What is read of a jar on another server, if it answers; a file of nothing declares nothing. -/
def readRemote (F : Formats) (isEmpty : Bool) : Archive → Option Reqs
  | .error _ => if isEmpty then some [] else none
  | .ok entries =>
    match findManifest entries with
    | none => some []
    | some (_, none) => none
    | some (name, some bytes) => some (flatten (manifestMeta F name bytes).loaderReqs)

/-- What the harvest reads of a jar. -/
def readHarvested (F : JarFormats) (jar : Archive) : Reqs :=
  (readJar F jar).modmeta.loaderReqs.map fun r => (r.loader, r.range)

/-- The artifacts that there are, under what they are remembered by. -/
structure Library where
  jars : String → Jar
  isEmpty : String → Bool
  formats : String → JarFormats
  /-- What has no bytes is no archive. -/
  opens : ∀ key, isEmpty key = true → ∃ e, (jars key).archive = .error e

namespace Library

variable (L : Library)

/-- The files of an artifact, as they are read once more. -/
def Rereading (key : String) : Type := { F : JarFormats // SameFiles (L.formats key) F }

/-- What is read of the artifact of a row, if its bytes could be had. -/
def readSource (key : String) (F : Option (L.Rereading key)) : SourceDecl → Option Reqs
  | .smrtCache sha1 =>
    if isSha1 sha1 then F.map fun F => readLocal F.1.toFormats (L.jars key).archive else none
  | .modrinth _ _ =>
    F.bind fun F => readRemote F.1.toFormats (L.isEmpty key) (L.jars key).archive
  | .smrtStatic _ => none

/-- The file that counts of an artifact: of a jar at hand the one that is picked by name, and of
    another one the first that it has. -/
def pick (key : String) : Option Pick :=
  if isSha1 key then (L.jars key).namedPick
  else match (L.jars key).archive with
    | .error _ => none
    | .ok entries => match findManifest entries with
      | some (name, some bytes) =>
        some (if ".json".toList <:+ name.toList then .json bytes
          else .toml ((L.formats key).lossy bytes))
      | _ => none

/-- What an artifact declares. -/
def declared (key : String) : Reqs :=
  flatten (declares (L.formats key).toFormats (L.pick key)).loaderReqs

/-- What a file says can be made out. -/
def Parses (F : Formats) : Pick → Prop
  | .toml text => (F.toml text).isSome
  | .json bytes => (F.json bytes).isSome

/-- An artifact can be read: it is an archive, and the file that counts can be made out, or there is
    none of these files. -/
structure Legible (key : String) : Prop where
  opens : ∃ entries, (L.jars key).archive = .ok entries ∧
    (L.pick key = none → findManifest entries = none)
  parses : ∀ p, L.pick key = some p → Parses (L.formats key).toFormats p

/-- An artifact can be read, and declares one window for each loader. -/
structure Clear (key : String) : Prop extends L.Legible key where
  onceEach : ((L.declared key).map Prod.fst).Nodup

end Library

/-! ## Passes and harvests -/

/-- A jar that the harvest could open. -/
structure Harvested (L : Library) where
  key : String
  isSha1 : isSha1 key = true
  files : L.Rereading key

section Steps

variable (L : Library)

/-- What the rows of a pack read that is not known. -/
def learned (t : List ReqRow) (cfg : PackConfig)
    (reads : ℕ → (key : String) → Option (L.Rereading key)) : List (String × Reqs) :=
  cfg.mods.zipIdx.filterMap fun (m, i) =>
    (artifactKey m.source).bind fun key =>
      if (artifactLoaderReqs t key).isSome then none
      else (L.readSource key (reads i key) m.source).map fun reqs => (key, reqs)

/-- What a pass judges by: what was known, and what it has read. -/
def known (t : List ReqRow) (cfg : PackConfig)
    (reads : ℕ → (key : String) → Option (L.Rereading key)) (key : String) : Option Reqs :=
  ((learned L t cfg reads).reverse.lookup key).or (artifactLoaderReqs t key)

/-- What a pass reports. -/
def passReport (t : List ReqRow) (cfg : PackConfig)
    (reads : ℕ → (key : String) → Option (L.Rereading key)) : LoaderWindowReport :=
  loaderWindows (known L t cfg reads) cfg

/-- What happens to the table: a pass over the rows of a pack, some of which are read, or fail to,
    and a harvest of the jars that could be opened. -/
inductive Action
  | pass (cfg : PackConfig) (reads : ℕ → (key : String) → Option (L.Rereading key))
  | harvest (jars : List (Harvested L))

/-- What was read is remembered. -/
def remember (t : List ReqRow) (read : List (String × Reqs)) : List ReqRow :=
  read.foldl (fun t p => setArtifactLoaderReqs p.1 p.2 t) t

/-- What a step reads. -/
def Action.reads (t : List ReqRow) : Action L → List (String × Reqs)
  | .pass cfg reads => learned L t cfg reads
  | .harvest jars => jars.map fun jar =>
      (jar.key, readHarvested jar.files.1 (L.jars jar.key).archive)

def system : System (List ReqRow) (Action L) where
  init t := t = []
  step t a := some (remember t (a.reads L t))

/-- All that is read is clear; and of a jar that is harvested, both doors pick the same file. -/
def Allowed (t : List ReqRow) : Action L → Prop
  | .pass cfg reads => ∀ p ∈ learned L t cfg reads, L.Clear p.1
  | .harvest jars => ∀ jar ∈ jars, L.Clear jar.key ∧
      (L.jars jar.key).namedPick = (L.jars jar.key).metPick

end Steps

/-! ## What is read -/

section Read

variable {L : Library} {key : String}

/-- The loaders that a build can be demanded of. -/
def reqLoaders : List String := ["forge", "neoforge", "fabric", "quilt"]

theorem mem_reqLoaders {name loader : String} (h : loaderOfPlatformModid name = some loader) :
    loader ∈ reqLoaders := by
  rw [loaderOfPlatformModid] at h
  split_ifs at h
  all_goals
    obtain rfl := Option.some.inj h
    decide

theorem loader_mem_of_declares {F : Formats} {p : Option Pick} {r : LoaderReq}
    (h : r ∈ (declares F p).loaderReqs) : r.loader ∈ reqLoaders := by
  rcases p with _ | ⟨text | bytes⟩
  · exact absurd h List.not_mem_nil
  · rw [declares, tomlMeta] at h
    rcases hm : F.toml text with _ | m
    · rw [hm] at h
      exact absurd h List.not_mem_nil
    · rw [hm] at h
      have hr : r ∈ m.rows.filterMap TomlRow.loaderReq := h
      obtain ⟨row, -, hrow⟩ := List.mem_filterMap.1 hr
      -- Only a row of the platform names a loader.
      rcases row with _ | _ | ⟨name, range⟩ | _
      · exact absurd hrow (Option.some_ne_none r).symm
      · exact absurd hrow (Option.some_ne_none r).symm
      · obtain ⟨loader, hloader, hr⟩ := Option.bind_eq_some_iff.1 hrow
        obtain ⟨_, -, rfl⟩ := Option.map_eq_some_iff.1 hr
        exact mem_reqLoaders hloader
      · exact absurd hrow (Option.some_ne_none r).symm
  · rw [declares, jsonMeta] at h
    rcases hm : F.json bytes with _ | m
    · rw [hm] at h
      exact absurd h List.not_mem_nil
    · rw [hm] at h
      have hr : r ∈ fabricLoaderReqs m.depends := (List.mem_insertionSort _).1 h
      obtain ⟨⟨name, range⟩, -, hr⟩ := List.mem_filterMap.1 hr
      obtain ⟨loader, hloader, hr⟩ := Option.bind_eq_some_iff.1 hr
      obtain ⟨_, -, rfl⟩ := Option.map_eq_some_iff.1 hr
      exact mem_reqLoaders hloader

/-- The loaders are named in small letters. -/
theorem lower_of_mem_reqLoaders {loader : String} (h : loader ∈ reqLoaders) :
    lower loader = loader ∧ loader ≠ "" := by
  rw [reqLoaders, List.mem_cons, List.mem_cons, List.mem_cons, List.mem_singleton] at h
  rcases h with rfl | rfl | rfl | rfl
  all_goals decide +kernel

theorem flatten_eq {F : Formats} {p : Option Pick} : flatten (declares F p).loaderReqs =
    (declares F p).loaderReqs.map fun r => (r.loader, r.range) :=
  List.map_congr_left fun r hr => by
    rw [(lower_of_mem_reqLoaders (loader_mem_of_declares hr)).1]

theorem lower_declared : ∀ req ∈ L.declared key, lower req.1 = req.1 ∧ req.1 ≠ "" := by
  intro req hreq
  rw [Library.declared, flatten_eq] at hreq
  obtain ⟨r, hr, rfl⟩ := List.mem_map.1 hreq
  exact lower_of_mem_reqLoaders (loader_mem_of_declares hr)

/-- Reading a file once more gives the same loaders, in any order. -/
theorem perm_declared {F : L.Rereading key} :
    (flatten (declares F.1.toFormats (L.pick key)).loaderReqs).Perm (L.declared key) :=
  ((perm_loaderReqs F.2 _).symm).map _

theorem manifestMeta_eq (F : Formats) (name : String) (bytes : Bytes) :
    manifestMeta F name bytes = declares F (some
      (if ".json".toList <:+ name.toList then .json bytes else .toml (F.lossy bytes))) := by
  rw [manifestMeta]
  split_ifs
  · rfl
  · rfl

theorem not_isSha1_modrinth (versionId : String) : isSha1 ("modrinth:" ++ versionId) = false := by
  rw [isSha1]
  refine decide_eq_false fun h => ?_
  have hall := List.all_eq_true.1 (of_decide_eq_true h.1).2 'm'
    (by rw [String.toList_append]; exact List.mem_append_left _ (by decide))
  revert hall
  decide

/-- What is read for a row is what its artifact declares, if that is an archive. -/
theorem readSource_perm {source : SourceDecl} {F : Option (L.Rereading key)} {reqs : Reqs}
    (hkey : artifactKey source = some key) (h : L.readSource key F source = some reqs)
    (hopens : ∃ entries, (L.jars key).archive = .ok entries) : reqs.Perm (L.declared key) := by
  rcases source with ⟨_, versionId⟩ | sha1 | _
  · obtain rfl := Option.some.inj hkey
    obtain ⟨F, rfl, hr⟩ := Option.bind_eq_some_iff.1 h
    obtain ⟨entries, hentries⟩ := hopens
    have hpick : L.pick ("modrinth:" ++ versionId) = match findManifest entries with
        | some (name, some bytes) => some (if ".json".toList <:+ name.toList then .json bytes
          else .toml ((L.formats ("modrinth:" ++ versionId)).lossy bytes))
        | _ => none := by
      rw [Library.pick, not_isSha1_modrinth, if_neg Bool.false_ne_true, hentries]
    have hperm := perm_declared (F := F)
    rw [hentries, readRemote] at hr
    rw [hpick] at hperm
    rcases hm : findManifest entries with _ | ⟨name, _ | bytes⟩
    · rw [hm] at hr hperm
      exact Option.some.inj hr ▸ hperm
    · rw [hm] at hr
      exact absurd hr (Option.some_ne_none _).symm
    · rw [hm] at hr hperm
      dsimp only at hr hperm
      rw [← Option.some.inj hr, manifestMeta_eq, ← F.2.decoders]
      exact hperm
  · obtain rfl := Option.some.inj hkey
    obtain ⟨hsha, h⟩ := Option.ite_none_right_eq_some.1 h
    obtain ⟨F, rfl, rfl⟩ := Option.map_eq_some_iff.1 h
    have hpick : L.pick sha1 = (L.jars sha1).namedPick := if_pos hsha
    rw [readLocal, (L.jars sha1).readModMeta_eq, ← hpick]
    exact perm_declared
  · exact absurd hkey (Option.some_ne_none _).symm

end Read

/-! ## What is remembered -/

variable {L : Library} {t : List ReqRow} {key : String}

/-- What is answered of an artifact is what it declares, and it could be read. -/
structure Remembered (L : Library) (t : List ReqRow) : Prop where
  answer : ∀ key reqs, artifactLoaderReqs t key = some reqs → reqs.Perm (L.declared key)
  legible : ∀ key, artifactLoaderReqs t key ≠ none → L.Legible key

/-- What an artifact declares is put as it is. -/
theorem artifactLoaderReqs_set_declared (hc : L.Clear key) {reqs : Reqs}
    (hp : reqs.Perm (L.declared key)) : ∃ l,
      artifactLoaderReqs (setArtifactLoaderReqs key reqs t) key = some l ∧
        l.Perm (L.declared key) := by
  obtain ⟨l, hl, hperm⟩ : ∃ l,
      artifactLoaderReqs (setArtifactLoaderReqs key reqs t) key = some l ∧ l.Perm reqs :=
    artifactLoaderReqs_set ((hp.map Prod.fst).nodup_iff.2 hc.onceEach) fun req hreq =>
      lower_declared req (hp.mem_iff.1 hreq)
  exact ⟨l, hl, hperm.trans hp⟩

/-- What was read of clear artifacts. -/
def Sound (L : Library) (read : List (String × Reqs)) : Prop :=
  ∀ p ∈ read, L.Clear p.1 ∧ p.2.Perm (L.declared p.1)

theorem remembered_set (ht : Remembered L t) (hc : L.Clear key) {reqs : Reqs}
    (hp : reqs.Perm (L.declared key)) : Remembered L (setArtifactLoaderReqs key reqs t) := by
  obtain ⟨l, hl, hperm⟩ := artifactLoaderReqs_set_declared (t := t) hc hp
  constructor
  · intro key' reqs' h
    by_cases hk : key = key'
    · subst hk
      obtain rfl := Option.some.inj (hl.symm.trans h)
      exact hperm
    · rw [artifactLoaderReqs_set_of_ne hk] at h
      exact ht.answer key' reqs' h
  · intro key' h
    by_cases hk : key = key'
    · exact hk ▸ hc.toLegible
    · rw [artifactLoaderReqs_set_of_ne hk] at h
      exact ht.legible key' h

theorem remembered_remember {read : List (String × Reqs)} (ht : Remembered L t)
    (hr : Sound L read) : Remembered L (remember t read) := by
  rw [remember]
  induction read generalizing t with
  | nil => exact ht
  | cons p read ih =>
    obtain ⟨hc, hp⟩ := hr p List.mem_cons_self
    exact ih (remembered_set ht hc hp) fun q hq => hr q (List.mem_cons_of_mem _ hq)

/-- What is known of an artifact is not forgotten. -/
theorem isSome_remember {read : List (String × Reqs)} (hr : Sound L read)
    (h : (artifactLoaderReqs t key).isSome ∨ key ∈ read.map Prod.fst) :
    (artifactLoaderReqs (remember t read) key).isSome := by
  rw [remember]
  induction read generalizing t with
  | nil => exact h.resolve_right List.not_mem_nil
  | cons p read ih =>
    obtain ⟨hc, hp⟩ := hr p List.mem_cons_self
    refine ih (fun q hq => hr q (List.mem_cons_of_mem _ hq)) ?_
    by_cases hk : p.1 = key
    · subst hk
      obtain ⟨l, hl, -⟩ := artifactLoaderReqs_set_declared (t := t) hc hp
      exact .inl (Option.isSome_iff_exists.2 ⟨l, hl⟩)
    · rw [artifactLoaderReqs_set_of_ne hk]
      refine h.imp_right fun hmem => ?_
      exact (List.mem_cons.1 hmem).resolve_left fun he => hk he.symm

/-- What a step reads that is allowed. -/
theorem sound_reads {a : Action L} (ha : Allowed L t a) : Sound L (a.reads L t) := by
  rcases a with ⟨cfg, reads⟩ | jars
  · intro p hp
    refine ⟨ha p hp, ?_⟩
    obtain ⟨⟨m, i⟩, -, hp'⟩ := List.mem_filterMap.1 hp
    obtain ⟨key, hkey, hread⟩ := Option.bind_eq_some_iff.1 hp'
    obtain ⟨-, hread⟩ := Option.ite_none_left_eq_some.1 hread
    obtain ⟨reqs, hreqs, rfl⟩ := Option.map_eq_some_iff.1 hread
    obtain ⟨entries, hentries, -⟩ := (ha _ hp).opens
    exact readSource_perm hkey hreqs ⟨entries, hentries⟩
  · intro p hp
    obtain ⟨jar, hjar, rfl⟩ := List.mem_map.1 hp
    obtain ⟨hc, hpick⟩ := ha jar hjar
    refine ⟨hc, ?_⟩
    obtain ⟨version, hversion⟩ := (L.jars jar.key).modmeta_readJar jar.files.1
    have hown : L.pick jar.key = (L.jars jar.key).namedPick := if_pos jar.isSha1
    rw [readHarvested, hversion, ← hpick, ← hown]
    rw [show ({ declares jar.files.1.toFormats (L.pick jar.key) with version := version } :
      ModMeta).loaderReqs = (declares jar.files.1.toFormats (L.pick jar.key)).loaderReqs from rfl,
      ← flatten_eq]
    exact perm_declared

theorem remembered_of_reach (h : (system L).Reach (Allowed L) t) : Remembered L t := by
  refine h.invariant ?_ ?_
  · intro t ht
    obtain rfl : t = [] := ht
    exact ⟨fun _ _ h => absurd h (Option.some_ne_none _).symm, fun _ h => absurd rfl h⟩
  · intro t a t' ht ha hst
    obtain rfl := Option.some.inj hst
    exact remembered_remember ht (sound_reads ha)

/-! ## What is reported -/

/-- The rows of an artifact are reported that a pass of a pack finds out of the windows of its
    loader. -/
def Reports (L : Library) (t : List ReqRow) (cfg : PackConfig)
    (reads : ℕ → (key : String) → Option (L.Rereading key)) (key : String) : Prop :=
  ∀ m ∈ cfg.mods, artifactKey m.source = some key → ∀ req ∈ L.declared key,
    req.1 = packLoader cfg → Semver.inRange cfg.loader.version req.2 = some false →
      { filename := m.filename, loader := req.1, packVersion := cfg.loader.version,
        requiredRange := req.2 } ∈ (passReport L t cfg reads).issues

/-- A row that does not go with what is known is reported. -/
theorem mem_issues {known : String → Option Reqs} {cfg : PackConfig} {m : DeclaredMod}
    (hm : m ∈ cfg.mods) (hkey : artifactKey m.source = some key) {reqs : Reqs}
    (hknown : known key = some reqs) {req : String × String} (hreq : req ∈ reqs)
    (hl : req.1 = packLoader cfg) (hout : Semver.inRange cfg.loader.version req.2 = some false) :
    { filename := m.filename, loader := req.1, packVersion := cfg.loader.version,
      requiredRange := req.2 } ∈ (loaderWindows known cfg).issues := by
  refine (List.mem_insertionSort _).2 (List.mem_flatMap.2 ⟨m, hm, ?_⟩)
  rw [windowIssues, hkey, Option.bind_some, hknown, Option.elim_some]
  exact List.mem_filterMap.2 ⟨req, hreq, if_pos ⟨hl, hout⟩⟩

/-- What a pass judges by is what is declared. -/
theorem known_perm {cfg : PackConfig} {reads : ℕ → (key : String) → Option (L.Rereading key)}
    (ht : Remembered L t) (ha : Allowed L t (.pass cfg reads)) {reqs : Reqs}
    (h : known L t cfg reads key = some reqs) : reqs.Perm (L.declared key) := by
  rw [known] at h
  rcases Option.or_eq_some_iff.1 h with h | ⟨-, h⟩
  · exact (sound_reads ha _ (List.mem_reverse.1 (mem_of_lookup h))).2
  · exact ht.answer key reqs h

/-- A pass reports the rows of the artifacts that are known, or that it has read itself. -/
theorem reports_of_known {cfg : PackConfig}
    {reads : ℕ → (key : String) → Option (L.Rereading key)} (ht : Remembered L t)
    (ha : Allowed L t (.pass cfg reads))
    (h : (artifactLoaderReqs t key).isSome ∨ key ∈ (learned L t cfg reads).map Prod.fst) :
    Reports L t cfg reads key := by
  intro m hm hkey req hreq hl hout
  obtain ⟨reqs, hreqs⟩ : ∃ reqs, known L t cfg reads key = some reqs := by
    rw [← Option.isSome_iff_exists, known]
    rcases hlook : (learned L t cfg reads).reverse.lookup key with _ | reqs
    · rw [Option.none_or]
      refine h.resolve_right fun hmem => ?_
      obtain ⟨p, hp, rfl⟩ := List.mem_map.1 hmem
      have hne := List.lookup_eq_none_iff.1 hlook p (List.mem_reverse.2 hp)
      exact absurd rfl (bne_iff_ne.1 hne)
    · rfl
  exact mem_issues hm hkey hreqs ((known_perm ht ha hreqs).mem_iff.2 hreq) hl hout

/-- What was read stays known, in whatever happens then. -/
theorem isSome_of_reach {t' : List ReqRow} (ht : (system L).Reach (Allowed L) t)
    (hkey : (artifactLoaderReqs t key).isSome) (h : ((system L).since t).Reach (Allowed L) t') :
    (artifactLoaderReqs t' key).isSome := by
  refine h.invariant (P := fun t' => (artifactLoaderReqs t' key).isSome) ?_ ?_
  · intro t' ht'
    obtain rfl : t' = t := ht'
    exact hkey
  · intro t₁ a t₂ h₁ ha hst
    obtain rfl := Option.some.inj hst
    exact isSome_remember (sound_reads ha) (.inl h₁)

/-- In every run whose steps read only clear artifacts: what is answered of an artifact is what it
    declares, and it could be read; the pass that reads an artifact reports what does not go with
    it, and so does every pass after a step that has read it. -/
theorem windows_remembered (h : (system L).Reach (Allowed L) t) :
    Remembered L t ∧
      (∀ cfg reads, Allowed L t (.pass cfg reads) → ∀ key ∈ (learned L t cfg reads).map Prod.fst,
        Reports L t cfg reads key) ∧
      ∀ a t', Allowed L t a → (system L).step t a = some t' →
        ∀ key ∈ (a.reads L t).map Prod.fst, ∀ t'', ((system L).since t').Reach (Allowed L) t'' →
          ∀ cfg reads, Allowed L t'' (.pass cfg reads) → Reports L t'' cfg reads key := by
  have ht := remembered_of_reach h
  refine ⟨ht, fun cfg reads ha key hkey => reports_of_known ht ha (.inr hkey), ?_⟩
  intro a t' ha hst key hkey t'' hreach cfg reads hpass
  have ht' : (system L).Reach (Allowed L) t' := h.step ha hst
  have hknown : (artifactLoaderReqs t' key).isSome := by
    obtain rfl := Option.some.inj hst
    exact isSome_remember (sound_reads ha) (.inr hkey)
  exact reports_of_known (remembered_of_reach (ht'.trans hreach)) hpass
    (.inl (isSome_of_reach ht' hknown hreach))

/-! ## Two windows for one loader -/

/-- A dependency on builds of NeoForge. -/
def neoforgeDep (range : String) : ModsTomlDep := ⟨some "neoforge", none, none, some range, none⟩

/-- A `mods.toml` with such dependencies. -/
def neoforgeToml (ranges : List String) : String :=
  "".intercalate (ranges.map fun range =>
    "[[dependencies.mod]]\nmodId=\"neoforge\"\nversionRange=\"" ++ range ++ "\"\n")

/-- A jar with this file, in which a mod demands builds of NeoForge. -/
def neoforgeLibrary (ranges : List String) : Library where
  jars _ := ⟨.ok [⟨forgeToml, true, 120, none, .ok (neoforgeToml ranges).toUTF8.toList⟩], by
    rintro entries ⟨⟩
    exact List.nodup_singleton _⟩
  isEmpty _ := false
  formats _ := { mute with
    toml := fun text =>
      if text = neoforgeToml ranges then
        some ⟨[], none, ⟨[("mod", ranges.map neoforgeDep)], List.nodup_singleton _⟩⟩
      else none }
  opens _ h := absurd h Bool.false_ne_true

/-- The hash that the jar is remembered by. -/
def jarSha1 : String := "0123456789abcdef0123456789abcdef01234567"

/-- A pack of this jar alone. -/
def jarPack : PackConfig :=
  { PackConfig.empty "pack" with
    mods := [
      { filename := "mod.jar"
        defaultEnabled := true
        source := .smrtCache jarSha1
        display := none
        slug := none
        pulled := false }] }

/-- A pass that reads it. -/
def readingPass (ranges : List String) : Action (neoforgeLibrary ranges) :=
  .pass jarPack fun _ _ => some ⟨_, .refl _⟩

/-- What is remembered then. -/
def readTable (ranges : List String) : List ReqRow :=
  remember [] ((readingPass ranges).reads (neoforgeLibrary ranges) [])

theorem windows_remembered_one : Remembered (neoforgeLibrary ["[2,)"]) (readTable ["[2,)"]) ∧
    artifactLoaderReqs (readTable ["[2,)"]) jarSha1 = some [("neoforge", "[2,)")] := by
  have hclear : (neoforgeLibrary ["[2,)"]).Clear jarSha1 := by
    refine ⟨⟨⟨_, rfl, fun h => absurd h (by decide +kernel)⟩, ?_⟩, by decide +kernel⟩
    intro p hp
    have hpick : (neoforgeLibrary ["[2,)"]).pick jarSha1 =
        some (.toml (neoforgeToml ["[2,)"])) := by decide +kernel
    obtain rfl := Option.some.inj (hpick.symm.trans hp)
    change (((neoforgeLibrary ["[2,)"]).formats jarSha1).toml
      (neoforgeToml ["[2,)"])).isSome = true
    decide +kernel
  have hreach : (system (neoforgeLibrary ["[2,)"])).Reach (Allowed _) (readTable ["[2,)"]) := by
    refine .step (.init rfl) (a := readingPass ["[2,)"]) (fun p hp => ?_) rfl
    have hkeys : ∀ q ∈ (readingPass ["[2,)"]).reads (neoforgeLibrary ["[2,)"]) [],
      q.1 = jarSha1 := by decide +kernel
    exact hkeys p hp ▸ hclear
  exact ⟨(windows_remembered hreach).1, by decide +kernel⟩

/-- Of two windows for one loader only the last one is remembered. -/
theorem not_remembered_twice :
    ¬ ∀ L t, (system L).Reachable t → Remembered L t := by
  intro h
  have hreach : (system (neoforgeLibrary ["[2,)", "[1,)"])).Reachable
      (readTable ["[2,)", "[1,)"]) :=
    .step (.init rfl) (a := readingPass ["[2,)", "[1,)"]) trivial rfl
  have hanswer : artifactLoaderReqs (readTable ["[2,)", "[1,)"]) jarSha1 =
      some [("neoforge", "[1,)")] := by decide +kernel
  have hlen := ((h _ _ hreach).answer jarSha1 _ hanswer).length_eq
  revert hlen
  decide +kernel

end LoaderReqs

end Smrt
