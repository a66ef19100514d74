import Smrt.Domain.Manifest
import Smrt.Domain.VersionOrder
import Smrt.Lib.Rows
import Smrt.Lib.Suffix
import Smrt.Storage.Layout

/-!
# Published versions

A manifest is saved as `manifests/<version>.json` (`saveManifest`), and `manifests/latest` is a link
to the one that is published (`setLatestManifest`). The versions are read back off the names of the
files, and the latest one off the target of the link, without `.json` at the end.

A version may be whatever an id may be. One with slashes is saved in a directory below and is not
listed, and one that ends with `.json` itself loses that too; all others are read back under their
own names (`readsBack_iff`).
-/

namespace Smrt

namespace Versions

open Layout (Path segments)

/-- What is below the directory of the manifests of a pack: the files, and what the link leads to;
    the directory may be missing. -/
structure Manifests where
  made : Bool
  files : List (Path × PackManifest)
  latest : Option String
  deriving DecidableEq

/-- A pack without manifests. -/
def Manifests.none : Manifests := ⟨false, [], .none⟩

def isSafeVersion (s : String) : Bool := isSafeId s

def manifestPath (version : String) : Path := segments (version ++ ".json")

/-- Paths are equal if their segments are. -/
local instance lawfulBEq_path : LawfulBEq Path := inferInstance

/-- A file is replaced, or it is a new one. -/
def putFile (path : Path) (m : PackManifest) (files : List (Path × PackManifest)) :
    List (Path × PackManifest) :=
  if path ∈ files.map Prod.fst then files.map fun f => if f.1 = path then (path, m) else f
  else files ++ [(path, m)]

section Writing

variable (packId : String) (d : Manifests)

def saveManifest (m : PackManifest) (overwrite : Bool) : Except ApiError Manifests := do
  refuseIf (¬ isSafeId packId) (.badRequest "invalid pack id")
  refuseIf (¬ isSafeVersion m.packVersion) (.badRequest "invalid pack version")
  refuseIf (¬ overwrite ∧ manifestPath m.packVersion ∈ d.files.map Prod.fst)
    (.conflict (m.packId ++ " " ++ m.packVersion ++ " is already published; publishing over it " ++
      "would change what people already downloaded under that name"))
  .ok { d with made := true, files := putFile (manifestPath m.packVersion) m d.files }

def setLatestManifest (version : String) : Except ApiError Manifests := do
  refuseIf (¬ isSafeId packId) (.badRequest "invalid pack id")
  refuseIf (¬ isSafeVersion version) (.badRequest "invalid version slug")
  .ok { d with made := true, latest := some (version ++ ".json") }

end Writing

/-! ## Reading -/

/-- The names in the directory of the manifests: of files and directories, and of the link. -/
def Manifests.entries (d : Manifests) : List String :=
  (d.files.filterMap fun f => f.1.head?).dedup ++ (d.latest.map fun _ => "latest").toList

/-- The version that a name in the directory is of. -/
def versionOf (name : String) : Option String :=
  if name = "latest" ∨ ¬ ".json".toList <:+ name.toList then none
  else some (trimEndMatches name ".json")

/-- The versions, given the names in the directory as they are read, if it is there. -/
def listManifestVersions (packId : String) (names : Option (List String)) :
    Except ApiError (List String) := do
  refuseIf (¬ isSafeId packId) (.badRequest "invalid pack id")
  match names with
  | none => .error .notFound
  | some names => .ok ((names.filterMap versionOf).insertionSort PackVersionLe)

def latestManifestVersion (packId : String) (d : Manifests) : Except ApiError (Option String) := do
  refuseIf (¬ isSafeId packId) (.badRequest "invalid pack id")
  .ok (d.latest.bind fun target =>
    (segments target).getLast?.map fun name => trimEndMatches name ".json")

/-! ## Calls -/

/-- What is asked for. -/
inductive Call
  | save (m : PackManifest) (overwrite : Bool)
  | setLatest (version : String)

def Call.run (packId : String) (d : Manifests) : Call → Except ApiError Manifests
  | .save m overwrite => saveManifest packId d m overwrite
  | .setLatest version => setLatestManifest packId d version

/-- All calls in turn, if they succeed. -/
def runAll (packId : String) (d : Manifests) : List Call → Except ApiError Manifests
  | [] => .ok d
  | call :: calls => call.run packId d >>= fun d' => runAll packId d' calls

/-- The versions that calls save, each once. -/
def savedVersions (calls : List Call) : List String :=
  (calls.filterMap fun
    | .save m _ => some m.packVersion
    | .setLatest _ => none).dedup

/-- The version that calls make the latest one. -/
def latestVersion (calls : List Call) : Option String :=
  (calls.filterMap fun
    | .save _ _ => none
    | .setLatest version => some version).getLast?

/-- What lists some versions: each of them once, in their order; a pack that has none may have
    nothing to list. -/
def Lists (saved : List String) : Except ApiError (List String) → Prop
  | .ok versions => versions.Perm saved ∧ versions.Pairwise PackVersionLe
  | .error e => e = .notFound ∧ saved = []

/-- What was saved is listed, in whatever order the directory is read, and what was made the latest
    version is that. -/
def ReadsBack (packId : String) (calls : List Call) (d : Manifests) : Prop :=
  (∀ names : List String, names.Perm d.entries → Lists (savedVersions calls)
    (listManifestVersions packId (if d.made then some names else none))) ∧
  latestManifestVersion packId d = .ok (latestVersion calls)

/-- A version that is the name of its file, but for the ending. -/
def Flat (version : String) : Prop := '/' ∉ version.toList ∧ ¬ ".json".toList <:+ version.toList

instance (version : String) : Decidable (Flat version) := inferInstanceAs (Decidable (_ ∧ _))

/-! ## What calls leave behind -/

section Run

variable {packId : String} {d d' : Manifests} {calls : List Call} {version name : String}

theorem mem_savedVersions {v : String} :
    v ∈ savedVersions calls ↔ ∃ m overwrite, Call.save m overwrite ∈ calls ∧ m.packVersion = v := by
  rw [savedVersions, List.mem_dedup, List.mem_filterMap]
  constructor
  · rintro ⟨m | w, hcall, hv⟩
    · exact ⟨m, _, hcall, Option.some.inj hv⟩
    · exact absurd hv nofun
  · rintro ⟨m, overwrite, hcall, hv⟩
    exact ⟨_, hcall, congrArg some hv⟩

theorem map_fst_putFile {path : Path} {m : PackManifest} {files : List (Path × PackManifest)} :
    (putFile path m files).map Prod.fst =
      if path ∈ files.map Prod.fst then files.map Prod.fst else files.map Prod.fst ++ [path] := by
  rw [putFile]
  by_cases h : path ∈ files.map Prod.fst
  · rw [if_pos h, if_pos h, List.map_map]
    refine List.map_congr_left fun f _ => ?_
    by_cases hf : f.1 = path
    · rw [Function.comp_apply, if_pos hf, hf]
    · rw [Function.comp_apply, if_neg hf]
  · rw [if_neg h, if_neg h, List.map_append, List.map_singleton]

theorem mem_putFile {path q : Path} {m : PackManifest} {files : List (Path × PackManifest)} :
    q ∈ (putFile path m files).map Prod.fst ↔ q = path ∨ q ∈ files.map Prod.fst := by
  rw [map_fst_putFile]
  by_cases h : path ∈ files.map Prod.fst
  · rw [if_pos h]
    exact ⟨.inr, fun hq => hq.elim (fun he => he ▸ h) id⟩
  · rw [if_neg h, List.mem_append, List.mem_singleton, or_comm]

theorem saveManifest_eq_ok {m : PackManifest} {overwrite : Bool}
    (h : saveManifest packId d m overwrite = .ok d') :
    d' = { d with made := true, files := putFile (manifestPath m.packVersion) m d.files } := by
  simp only [saveManifest, bind_eq_ok, refuseIf_eq_ok] at h
  obtain ⟨_, -, _, -, _, -, h⟩ := h
  exact (Except.ok.inj h).symm

theorem setLatestManifest_eq_ok (h : setLatestManifest packId d version = .ok d') :
    d' = { d with made := true, latest := some (version ++ ".json") } := by
  simp only [setLatestManifest, bind_eq_ok, refuseIf_eq_ok] at h
  obtain ⟨_, -, _, -, h⟩ := h
  exact (Except.ok.inj h).symm

/-- After some calls there are the files that were there and those of the versions that were saved,
    and the link leads to the version that was last made the latest one. -/
theorem runAll_spec (h : runAll packId d calls = .ok d') :
    (∀ q, q ∈ d'.files.map Prod.fst ↔
      q ∈ d.files.map Prod.fst ∨ ∃ v ∈ savedVersions calls, manifestPath v = q) ∧
    d'.latest = ((latestVersion calls).map (· ++ ".json")).or d.latest ∧
    (d'.made = true ↔ d.made = true ∨ calls ≠ []) := by
  induction calls generalizing d with
  | nil =>
    obtain rfl := Except.ok.inj h
    refine ⟨fun q => ?_, rfl, ?_⟩
    · exact ⟨.inl, fun hq => hq.elim id fun ⟨_, hv, _⟩ => absurd hv List.not_mem_nil⟩
    · exact ⟨.inl, fun hm => hm.elim id fun hne => absurd rfl hne⟩
  | cons call calls ih =>
    obtain ⟨d₁, hcall, hrest⟩ := bind_eq_ok.1 h
    obtain ⟨hfiles, hlatest, hmade⟩ := ih hrest
    have hmade' : d₁.made = true → (d'.made = true ↔ d.made = true ∨ call :: calls ≠ []) :=
      fun hm => iff_of_true (hmade.2 (.inl hm)) (.inr (List.cons_ne_nil _ _))
    rcases call with ⟨m, overwrite⟩ | v
    · obtain rfl := saveManifest_eq_ok hcall
      refine ⟨fun q => ?_, hlatest, hmade' rfl⟩
      rw [hfiles]
      simp only [mem_putFile, mem_savedVersions, List.mem_cons]
      constructor
      · rintro ((rfl | hq) | ⟨v, ⟨m', o, hm', hv⟩, hq⟩)
        · exact .inr ⟨_, ⟨m, overwrite, .inl rfl, rfl⟩, rfl⟩
        · exact .inl hq
        · exact .inr ⟨v, ⟨m', o, .inr hm', hv⟩, hq⟩
      · rintro (hq | ⟨v, ⟨m', o, he | hm', rfl⟩, rfl⟩)
        · exact .inl (.inr hq)
        · obtain ⟨rfl, -⟩ := Call.save.inj he
          exact .inl (.inl rfl)
        · exact .inr ⟨_, ⟨m', o, hm', rfl⟩, rfl⟩
    · obtain rfl := setLatestManifest_eq_ok hcall
      refine ⟨fun q => ?_, ?_, hmade' rfl⟩
      · rw [hfiles]
        simp only [mem_savedVersions, List.mem_cons, reduceCtorEq, false_or]
      · rw [hlatest]
        have hlast : latestVersion (.setLatest v :: calls) =
            some ((latestVersion calls).getD v) := List.getLast?_cons
        rw [hlast]
        rcases latestVersion calls with _ | w <;> rfl

/-! ## What is read back -/

theorem not_mem_segment {s : String} (h : name ∈ segments s) : '/' ∉ name.toList := by
  obtain ⟨l, hl, rfl⟩ := List.mem_map.1 h
  rw [String.toList_ofList]
  exact (mem_splitOn (d := '/') l hl).1

/-- What is read off the name of a file is flat. -/
theorem flat_trimEndMatches (h : '/' ∉ name.toList) : Flat (trimEndMatches name ".json") :=
  ⟨fun hm => h (mem_of_mem_trimEndMatches hm), not_suffix_trimEndMatches (by decide)⟩

theorem trimEndMatches_of_flat (h : Flat version) :
    trimEndMatches (version ++ ".json") ".json" = version := by
  rw [trimEndMatches_append (by decide), trimEndMatches_eq_self (by decide)]
  exact h.2

/-- The manifest of a flat version is in the directory itself. -/
theorem segments_of_flat (h : Flat version) :
    segments (version ++ ".json") = [version ++ ".json"] := by
  refine Layout.segments_of_not_mem fun hm => ?_
  rw [String.toList_append, List.mem_append] at hm
  exact hm.elim h.1 (by decide)

theorem versionOf_of_flat (h : Flat version) : versionOf (version ++ ".json") = some version := by
  have hend : ".json".toList <:+ (version ++ ".json").toList := by
    rw [String.toList_append]
    exact List.suffix_append _ _
  have hne : version ++ ".json" ≠ "latest" := fun he => by
    rw [he] at hend
    exact absurd hend (by decide)
  rw [versionOf, if_neg (not_or.2 ⟨hne, not_not.2 hend⟩), trimEndMatches_of_flat h]

theorem flat_of_versionOf {v : String} (hname : '/' ∉ name.toList) (h : versionOf name = some v) :
    Flat v := by
  rw [versionOf] at h
  by_cases hskip : name = "latest" ∨ ¬ ".json".toList <:+ name.toList
  · rw [if_pos hskip] at h
    exact absurd h nofun
  · rw [if_neg hskip] at h
    exact Option.some.inj h ▸ flat_trimEndMatches hname

theorem nodup_savedVersions : (savedVersions calls).Nodup := List.nodup_dedup _

/-- The names of the files, and of the directories with files in them. -/
theorem mem_heads (h : runAll packId .none calls = .ok d) :
    name ∈ (d.files.filterMap fun f => f.1.head?).dedup ↔
      ∃ v ∈ savedVersions calls, (manifestPath v).head? = some name := by
  have hheads : (d.files.filterMap fun f => f.1.head?) =
      (d.files.map Prod.fst).filterMap List.head? := by
    rw [List.filterMap_map]
    rfl
  rw [List.mem_dedup, hheads, List.mem_filterMap]
  simp only [(runAll_spec h).1]
  constructor
  · rintro ⟨q, hq | ⟨v, hv, rfl⟩, hname⟩
    · exact absurd hq List.not_mem_nil
    · exact ⟨v, hv, hname⟩
  · rintro ⟨v, hv, hname⟩
    exact ⟨_, .inr ⟨v, hv, rfl⟩, hname⟩

theorem versionOf_latest : versionOf "latest" = none := if_pos (.inl rfl)

/-- The link is not listed. -/
theorem filterMap_entries : d.entries.filterMap versionOf =
    (d.files.filterMap fun f => f.1.head?).dedup.filterMap versionOf := by
  rw [Manifests.entries, List.filterMap_append]
  rcases d.latest with _ | target
  · exact List.append_nil _
  · show _ ++ ["latest"].filterMap versionOf = _
    rw [List.filterMap_cons_none versionOf_latest, List.filterMap_nil, List.append_nil]

/-- Flat versions are all that is read off the directory. -/
theorem perm_versions (h : runAll packId .none calls = .ok d)
    (hflat : ∀ v ∈ savedVersions calls, Flat v) :
    (d.entries.filterMap versionOf).Perm (savedVersions calls) := by
  have hinj : ((savedVersions calls).map (· ++ ".json")).Nodup :=
    nodup_savedVersions.map fun _ _ he => String.append_left_inj _ |>.1 he
  have hheads : (d.files.filterMap fun f => f.1.head?).dedup.Perm
      ((savedVersions calls).map (· ++ ".json")) := by
    refine (List.perm_ext_iff_of_nodup (List.nodup_dedup _) hinj).2 fun name => ?_
    rw [mem_heads h, List.mem_map]
    refine exists_congr fun v => and_congr_right fun hv => ?_
    rw [manifestPath, segments_of_flat (hflat v hv), List.head?_cons, Option.some.injEq]
  have hall : ((savedVersions calls).map (· ++ ".json")).filterMap versionOf =
      savedVersions calls := by
    rw [List.filterMap_map, List.filterMap_congr (g := some), List.filterMap_some]
    exact fun v hv => versionOf_of_flat (hflat v hv)
  rw [filterMap_entries]
  exact (hheads.filterMap versionOf).trans (List.Perm.of_eq hall)

theorem latestManifestVersion_eq (hid : isSafeId packId = true)
    (h : runAll packId .none calls = .ok d) : latestManifestVersion packId d =
      .ok ((latestVersion calls).bind fun v => (segments (v ++ ".json")).getLast?.map fun name =>
        trimEndMatches name ".json") := by
  have hsafe : refuseIf (¬ isSafeId packId) (ApiError.badRequest "invalid pack id") = .ok () :=
    refuseIf_eq_ok.2 (not_not.2 hid)
  rw [latestManifestVersion, hsafe, (runAll_spec h).2.1]
  rcases latestVersion calls with _ | v <;> rfl

theorem pairwise_insertionSort (l : List String) :
    (l.insertionSort PackVersionLe).Pairwise PackVersionLe := by
  refine pairwise_sorted ?_ ?_ ?_ l
  · exact fun u v h => h
  · exact fun u v h => PackVersionLe.of_not h
  · exact fun u v w huv hvw => PackVersionLe.trans huv hvw

/-- The list is sorted, and has what the names in the directory are of. -/
theorem listManifestVersions_eq (hid : isSafeId packId = true) (names : List String) :
    listManifestVersions packId (some names) =
      .ok ((names.filterMap versionOf).insertionSort PackVersionLe) := by
  have hsafe : refuseIf (¬ isSafeId packId) (ApiError.badRequest "invalid pack id") = .ok () :=
    refuseIf_eq_ok.2 (not_not.2 hid)
  rw [listManifestVersions, hsafe]
  rfl

/-- What was saved and made the latest version is read back under its own name exactly if all of it
    is flat. -/
theorem readsBack_iff (hid : isSafeId packId = true) (h : runAll packId .none calls = .ok d) :
    ReadsBack packId calls d ↔
      (∀ v ∈ savedVersions calls, Flat v) ∧ ∀ v ∈ latestVersion calls, Flat v := by
  refine and_congr ⟨fun hlists v hv => ?_, fun hflat names hnames => ?_⟩ ?_
  · have hmade : d.made = true := (runAll_spec h).2.2.2 (.inr fun hnil => by
      rw [hnil] at hv
      exact absurd hv List.not_mem_nil)
    have hall := hlists d.entries (List.Perm.refl _)
    rw [hmade, if_pos rfl, listManifestVersions_eq hid] at hall
    have hmem := (List.mem_insertionSort _).1 (hall.1.mem_iff.2 hv)
    rw [filterMap_entries, List.mem_filterMap] at hmem
    obtain ⟨name, hname, hversion⟩ := hmem
    obtain ⟨w, -, hw⟩ := (mem_heads h).1 hname
    exact flat_of_versionOf (not_mem_segment (List.mem_of_head? hw)) hversion
  · by_cases hmade : d.made = true
    · rw [hmade, if_pos rfl, listManifestVersions_eq hid]
      refine ⟨?_, ?_⟩
      · exact (List.perm_insertionSort _ _).trans
          ((hnames.filterMap _).trans (perm_versions h hflat))
      · exact pairwise_insertionSort _
    · -- nothing was called for
      have hnil : calls = [] := by
        by_contra hne
        exact hmade ((runAll_spec h).2.2.2 (.inr hne))
      rw [if_neg hmade, hnil]
      have hsafe : refuseIf (¬ isSafeId packId) (ApiError.badRequest "invalid pack id") = .ok () :=
        refuseIf_eq_ok.2 (not_not.2 hid)
      rw [listManifestVersions, hsafe]
      exact ⟨rfl, rfl⟩
  · rw [latestManifestVersion_eq hid h]
    rcases latestVersion calls with _ | v
    · exact iff_of_true rfl fun v hv => absurd hv (Option.not_mem_none v)
    · simp only [Option.bind_some, Except.ok.injEq, Option.mem_some_iff, forall_eq']
      constructor
      · intro hv
        obtain ⟨name, hname, rfl⟩ := Option.map_eq_some_iff.1 hv
        exact flat_trimEndMatches (not_mem_segment (List.mem_of_getLast? hname))
      · intro hv
        rw [segments_of_flat hv]
        exact congrArg some (trimEndMatches_of_flat hv)

end Run

/-! ## A version below -/

/-- A manifest of a version, of a pack without mods. -/
def manifestOf (version : String) : PackManifest where
  packId := "Industrial"
  packVersion := version
  minecraftVersion := "1.12.2"
  loader := ⟨"forge", "14.23"⟩
  javaMajor := 8
  auth := none
  mods := []
  assets := []

/-- A plain version is read back. -/
theorem readsBack_plain : ∃ d, runAll "Industrial" .none
      [.save (manifestOf "0.4.0") false, .setLatest "0.4.0"] = .ok d ∧
    ReadsBack "Industrial" [.save (manifestOf "0.4.0") false, .setLatest "0.4.0"] d := by
  have hrun : runAll "Industrial" .none [.save (manifestOf "0.4.0") false, .setLatest "0.4.0"] =
      .ok ⟨true, [(["0.4.0.json"], manifestOf "0.4.0")], some "0.4.0.json"⟩ := by decide +kernel
  exact ⟨_, hrun, (readsBack_iff (by decide +kernel) hrun).2 ⟨by decide +kernel, by decide +kernel⟩⟩

/-- A version with slashes is saved in a directory below, and not listed; one that ends like its
    file is listed under another name. -/
theorem not_readsBack : (∃ d, runAll "Industrial" .none [.save (manifestOf "u/7/a") false] = .ok d ∧
      listManifestVersions "Industrial" (some d.entries) = .ok [] ∧
      ¬ ReadsBack "Industrial" [.save (manifestOf "u/7/a") false] d) ∧
    ∃ d, runAll "Industrial" .none [.save (manifestOf "a.json") false] = .ok d ∧
      listManifestVersions "Industrial" (some d.entries) = .ok ["a"] ∧
      ¬ ReadsBack "Industrial" [.save (manifestOf "a.json") false] d := by
  constructor
  · have hrun : runAll "Industrial" .none [.save (manifestOf "u/7/a") false] =
        .ok ⟨true, [(["u", "7", "a.json"], manifestOf "u/7/a")], none⟩ := by decide +kernel
    have hlist : listManifestVersions "Industrial" (some ["u"]) = .ok [] := by decide +kernel
    refine ⟨_, hrun, hlist, fun h => ?_⟩
    have hall := h.1 ["u"] (List.Perm.refl _)
    rw [if_pos rfl, hlist] at hall
    exact absurd hall.1 (by decide)
  · have hrun : runAll "Industrial" .none [.save (manifestOf "a.json") false] =
        .ok ⟨true, [(["a.json.json"], manifestOf "a.json")], none⟩ := by decide +kernel
    have hlist : listManifestVersions "Industrial" (some ["a.json.json"]) = .ok ["a"] := by
      decide +kernel
    refine ⟨_, hrun, hlist, fun h => ?_⟩
    have hall := h.1 ["a.json.json"] (List.Perm.refl _)
    rw [if_pos rfl, hlist] at hall
    exact absurd hall.1 (by decide)

end Versions

end Smrt
