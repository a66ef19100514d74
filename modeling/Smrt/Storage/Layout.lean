import Mathlib.Data.List.Sort
import Smrt.Http.BuildCommit
import Smrt.Lib.System

/-!
# Where packs are on disk

All of a pack is in a directory that its id names: `packs/<id>`, for a pack of the mirror, and
`packs/u/<uid>/<pack>` for one of an account. Ids that are safe name directories none of which is in
another one (`packDir_prefixFree`), and so a path of a pack's own file is of one pack alone
(`packStaticPath_inj`), and what is done to one pack leaves the others alone (`step_frame`).

The packs are listed by looking for `authoring/config.json` in the directories on both levels
(`listAuthoringPacks`). They are the packs whose config was saved and that were not deleted since
(`layout_disjoint`).
-/

namespace Smrt

namespace Layout

/-! ## Paths -/

/-- The directories on the way, from the root of the storage, and what is at the end. -/
abbrev Path := List String

/-- What is between the slashes of a path. -/
def segments (s : String) : List String := (s.toList.splitOn '/').map String.ofList

/-- Where a relative path leads from a directory. -/
def enter (dir : Path) (s : String) : Path :=
  (segments s).foldl (fun d segment =>
    if segment = "" ∨ segment = "." then d
    else if segment = ".." then d.dropLast
    else d ++ [segment]) dir

/-- A segment that leads into a directory. -/
def Plain (segment : String) : Prop := segment ≠ "" ∧ segment.toList.head? ≠ some '.'

section Segments

variable {s t : String} {dir : Path}

theorem segments_inj (h : segments s = segments t) : s = t := by
  have hlist : s.toList.splitOn '/' = t.toList.splitOn '/' :=
    List.map_injective_iff.2 (fun _ _ he => String.ofList_injective he) h
  refine String.toList_inj.1 ?_
  calc s.toList = ['/'].intercalate (s.toList.splitOn '/') := (List.intercalate_splitOn '/').symm
    _ = ['/'].intercalate (t.toList.splitOn '/') := by rw [hlist]
    _ = t.toList := List.intercalate_splitOn '/'

theorem segments_ne_nil (s : String) : segments s ≠ [] := fun h =>
  List.splitOn_ne_nil '/' s.toList (List.map_eq_nil_iff.1 h)

/-- A path of plain segments leads to where they do, one after the other. -/
theorem enter_eq (h : ∀ segment ∈ segments s, Plain segment) (dir : Path) :
    enter dir s = dir ++ segments s := by
  rw [enter]
  generalize segments s = l at h ⊢
  induction l generalizing dir with
  | nil => exact (List.append_nil dir).symm
  | cons segment l ih =>
    obtain ⟨hne, hdot⟩ := h segment List.mem_cons_self
    have hone : ¬ (segment = "" ∨ segment = ".") := fun he =>
      he.elim hne fun he => hdot (he ▸ rfl)
    have htwo : segment ≠ ".." := fun he => hdot (he ▸ rfl)
    rw [List.foldl_cons, if_neg hone, if_neg htwo,
      ih _ fun segment hs => h segment (List.mem_cons_of_mem _ hs), List.append_assoc]
    rfl

/-- The segments of a path are its pieces between the slashes. -/
theorem splitOn_slash (s : String) : s.splitOn "/" = segments s := by
  have hsep : ("/" : String) ≠ "" := by decide
  have hlist : pieces ['/'] 0 [] s.toList = s.toList.splitOn '/' := by
    have hjoin := pieces_intercalate (c := '/') (List.splitOn_ne_nil '/' s.toList)
      fun l hl => (mem_splitOn (d := '/') l hl).1
    rwa [List.intercalate_splitOn] at hjoin
  rw [splitOn_eq hsep, segments, ← hlist]
  rfl

end Segments

/-! ## Ids -/

section Ids

variable {s id id' : String}

/-- A text is cut where a letter comes first. -/
theorem exists_of_mem {c : Char} {l : List Char} (h : c ∈ l) :
    ∃ a b, l = a ++ c :: b ∧ c ∉ a ∧ l.takeWhile (· ≠ c) = a := by
  obtain ⟨a, b, rfl, ha⟩ := List.eq_append_cons_of_mem h
  refine ⟨a, b, rfl, ha, ?_⟩
  have hall : ∀ d ∈ a, decide (d ≠ c) = true := fun d hd =>
    decide_eq_true fun he => ha (he ▸ hd)
  rw [List.takeWhile_append_of_pos hall, List.takeWhile_cons_of_neg (by simp), List.append_nil]

/-- A segment of plain letters. -/
theorem plain_of_isFlatId (h : isFlatId s = true) : Plain s ∧ '/' ∉ s.toList := by
  obtain ⟨hne, -, hdot, hall⟩ := of_decide_eq_true h
  refine ⟨⟨hne, hdot⟩, fun hslash => ?_⟩
  exact absurd (of_decide_eq_true (List.all_eq_true.1 hall _ hslash)) (by decide)

theorem segments_of_not_mem (h : '/' ∉ s.toList) : segments s = [s] := by
  rw [segments, List.splitOn_eq_singleton h, List.map_singleton, String.ofList_toList]

theorem segments_append {a b : List Char} (h : '/' ∉ a) :
    segments (String.ofList (a ++ '/' :: b)) = String.ofList a :: segments (String.ofList b) := by
  rw [segments, segments, String.toList_ofList, String.toList_ofList,
    List.splitOn_append_cons_self_of_not_mem h, List.map_cons]

/-- An id is one segment, which is not the namespace of the accounts, or names an account in that
    namespace and a segment. -/
inductive Shape (id : String) : Prop
  | flat : segments id = [id] → id ≠ "u" → Plain id → Shape id
  | community (uid pack : String) : segments id = ["u", uid, pack] →
      id = "u/" ++ uid ++ "/" ++ pack → Plain uid → (∀ c ∈ uid.toList, c.isDigit = true) →
      Plain pack → Shape id

theorem shape_of_isSafeId (h : isSafeId id = true) : Shape id := by
  rw [isSafeId] at h
  split at h
  · rename_i rest hid
    obtain ⟨hmem, hne, hdigits, hflat⟩ := of_decide_eq_true h
    obtain ⟨uid, pack, rfl, huid, htake⟩ := exists_of_mem hmem
    rw [htake] at hne hdigits hflat
    have hdrop : (uid ++ '/' :: pack).drop (uid.length + 1) = pack := by
      rw [← List.drop_drop, List.drop_left]
      rfl
    rw [hdrop] at hflat
    obtain ⟨hplain, hslash⟩ := plain_of_isFlatId hflat
    have hdigit : ∀ c ∈ uid, c.isDigit = true := fun c hc => List.all_eq_true.1 hdigits c hc
    have hid' : id = String.ofList ('u' :: '/' :: (uid ++ '/' :: pack)) := by
      rw [← hid, String.ofList_toList]
    refine .community (String.ofList uid) (String.ofList pack) ?_ ?_ ⟨?_, ?_⟩ ?_ hplain
    · have hu : segments id = "u" :: segments (String.ofList (uid ++ '/' :: pack)) :=
        hid' ▸ segments_append (a := ['u']) (by decide)
      rw [hu, segments_append huid, segments_of_not_mem hslash]
    · refine String.toList_inj.1 ?_
      rw [hid]
      simp only [String.toList_append, String.toList_ofList, List.append_assoc]
      rfl
    · exact fun he => hne (String.ofList_eq_empty_iff.1 he)
    · rw [String.toList_ofList]
      exact fun hhead => absurd (hdigit _ (List.mem_of_mem_head? hhead)) (by decide)
    · rw [String.toList_ofList]
      exact hdigit
  · rename_i hid
    obtain ⟨hu, hflat⟩ := of_decide_eq_true h
    obtain ⟨hplain, hslash⟩ := plain_of_isFlatId hflat
    exact .flat (segments_of_not_mem hslash) hu hplain

theorem Shape.plain (h : Shape id) : ∀ segment ∈ segments id, Plain segment := by
  rcases h with ⟨hs, -, hplain⟩ | ⟨uid, pack, hs, -, huid, -, hpack⟩
  · rw [hs]
    exact List.forall_mem_singleton.2 hplain
  · rw [hs]
    exact List.forall_mem_cons.2 ⟨⟨by decide, by decide⟩,
      List.forall_mem_cons.2 ⟨huid, List.forall_mem_singleton.2 hpack⟩⟩

/-- No id leads into the directory of another one. -/
theorem Shape.prefixFree (h : Shape id) (h' : Shape id') (hp : segments id <+: segments id') :
    id = id' := by
  rcases h with ⟨hs, hu, -⟩ | ⟨uid, pack, hs, -⟩ <;>
    rcases h' with ⟨hs', hu', -⟩ | ⟨uid', pack', hs', -⟩ <;> rw [hs, hs'] at hp
  · exact (List.cons_prefix_cons.1 hp).1
  · exact absurd (List.cons_prefix_cons.1 hp).1 hu
  · exact absurd hp.length_le (by simp)
  · exact segments_inj (by rw [hs, hs', hp.eq_of_length rfl])

end Ids

/-! ## Directories -/

def packDir (packId : String) : Path := enter ["packs"] packId

def authoringPath (packId file : String) : Path := packDir packId ++ ["authoring", file]

def packStaticPath (packId relPath : String) : Except ApiError Path := do
  refuseIf (¬ isSafeId packId) (.badRequest "invalid pack id")
  refuseIf (¬ isSafeRelPath relPath) (.badRequest "invalid rel_path")
  .ok (enter (packDir packId ++ ["static"]) relPath)

section Dirs

variable {id id' rel rel' : String} {x y path : Path}

theorem packDir_eq (h : isSafeId id = true) : packDir id = "packs" :: segments id :=
  enter_eq (shape_of_isSafeId h).plain _

/-- The directory of a pack is not in that of another one, nor is it the same. -/
theorem packDir_prefixFree (h : isSafeId id = true) (h' : isSafeId id' = true)
    (hp : packDir id <+: packDir id') : id = id' := by
  rw [packDir_eq h, packDir_eq h', List.cons_prefix_cons] at hp
  exact (shape_of_isSafeId h).prefixFree (shape_of_isSafeId h') hp.2

/-- A path is in the directory of one pack at most. -/
theorem eq_of_packDir_append (h : isSafeId id = true) (h' : isSafeId id' = true)
    (he : packDir id ++ x = packDir id' ++ y) : id = id' ∧ x = y := by
  have hid : id = id' := by
    rcases List.prefix_or_prefix_of_prefix (List.prefix_append (packDir id) x)
      (he ▸ List.prefix_append (packDir id') y) with hp | hp
    · exact packDir_prefixFree h h' hp
    · exact (packDir_prefixFree h' h hp).symm
  obtain rfl := hid
  exact ⟨rfl, List.append_cancel_left he⟩

theorem plain_of_isSafeRelPath (h : isSafeRelPath rel = true) :
    ∀ segment ∈ segments rel, Plain segment := by
  obtain ⟨-, -, -, -, hall⟩ := of_decide_eq_true h
  intro segment hs
  rw [splitOn_slash] at hall
  obtain ⟨hne, hdot, -⟩ := of_decide_eq_true (List.all_eq_true.1 hall segment hs)
  exact ⟨hne, hdot⟩

theorem packStaticPath_eq_ok : packStaticPath id rel = .ok path ↔
    isSafeId id = true ∧ isSafeRelPath rel = true ∧
      path = packDir id ++ ("static" :: segments rel) := by
  simp only [packStaticPath, bind_eq_ok, refuseIf_eq_ok, not_not, Except.ok.injEq]
  have hpath : isSafeRelPath rel = true → enter (packDir id ++ ["static"]) rel =
      packDir id ++ ("static" :: segments rel) := by
    intro hrel
    rw [enter_eq (plain_of_isSafeRelPath hrel), List.append_assoc]
    rfl
  constructor
  · rintro ⟨_, hid, _, hrel, rfl⟩
    exact ⟨hid, hrel, hpath hrel⟩
  · rintro ⟨hid, hrel, rfl⟩
    exact ⟨(), hid, (), hrel, hpath hrel⟩

/-- A pack's own file lies below its directory for such files. -/
theorem packStaticPath_inside (h : packStaticPath id rel = .ok path) :
    ∃ below, below ≠ [] ∧ path = packDir id ++ ["static"] ++ below := by
  obtain ⟨-, -, rfl⟩ := packStaticPath_eq_ok.1 h
  exact ⟨segments rel, segments_ne_nil rel, by rw [List.append_assoc]; rfl⟩

/-- A path is that of one file of one pack. -/
theorem packStaticPath_inj (h : packStaticPath id rel = .ok path)
    (h' : packStaticPath id' rel' = .ok path) : id = id' ∧ rel = rel' := by
  obtain ⟨hid, -, rfl⟩ := packStaticPath_eq_ok.1 h
  obtain ⟨hid', -, he⟩ := packStaticPath_eq_ok.1 h'
  obtain ⟨rfl, hrest⟩ := eq_of_packDir_append hid hid' he
  exact ⟨rfl, segments_inj (List.cons.inj hrest).2⟩

end Dirs

/-! ## The listing -/

/-- The files of a pack other than its config. -/
inductive PackFile
  | summary
  | manifest (version : String)
  | latest
  | snapshot (commit : String)
  | record (commit : String)
  | head
  | pending
  | static (rel : String)

/-- Where a file is in the directory of a pack. -/
def PackFile.path : PackFile → Path
  | summary => ["summary.json"]
  | manifest version => "manifests" :: segments (version ++ ".json")
  | latest => ["manifests", "latest"]
  | snapshot commit => ["authoring", "commits", commit ++ ".snapshot.json"]
  | record commit => ["authoring", "commits", commit ++ ".json"]
  | head => ["authoring", "commits", "HEAD"]
  | pending => ["authoring", "commits", "pending.json"]
  | static rel => "static" :: segments rel

/-- What is checked of the name of a file. -/
def PackFile.isSafe : PackFile → Bool
  | manifest version => isSafeId version
  | snapshot commit => isCommitId commit
  | record commit => isCommitId commit
  | static rel => isSafeRelPath rel
  | _ => true

section Listing

variable (files : List Path)

/-- The directories in a directory: what there are files below of. -/
def subdirs (dir : Path) : List String :=
  (files.filterMap fun p => match p.dropPrefix? dir with
    | some (name :: _ :: _) => some name
    | _ => none).dedup

def readAuthoringIdsIn (dir : Path) (start : String) : List String :=
  ((subdirs files dir).filter fun name => dir ++ [name, "authoring", "config.json"] ∈ files).map
    (start ++ ·)

def listAuthoringPacks : List String :=
  (readAuthoringIdsIn files ["packs"] "" ++
    (subdirs files ["packs", "u"]).flatMap fun uid =>
      readAuthoringIdsIn files ["packs", "u", uid] ("u/" ++ uid ++ "/")).insertionSort (· ≤ ·)

variable {files}

theorem mem_subdirs {dir : Path} {name : String} : name ∈ subdirs files dir ↔
    ∃ next rest, dir ++ name :: next :: rest ∈ files := by
  rw [subdirs, List.mem_dedup, List.mem_filterMap]
  constructor
  · rintro ⟨p, hp, hname⟩
    split at hname
    · rename_i first next rest hdrop
      obtain ⟨dir', rfl, heq⟩ := List.dropPrefix?_eq_some_iff.1 hdrop
      obtain rfl := eq_of_beq heq
      exact ⟨next, rest, Option.some.inj hname ▸ hp⟩
    · exact absurd hname nofun
  · rintro ⟨next, rest, hp⟩
    refine ⟨_, hp, ?_⟩
    have hdrop : (dir ++ name :: next :: rest).dropPrefix? dir = some (name :: next :: rest) :=
      List.dropPrefix?_eq_some_iff.2 ⟨dir, rfl, beq_self_eq_true dir⟩
    rw [hdrop]

theorem mem_readAuthoringIdsIn {dir : Path} {start id : String} :
    id ∈ readAuthoringIdsIn files dir start ↔
      ∃ name, id = start ++ name ∧ dir ++ [name, "authoring", "config.json"] ∈ files := by
  rw [readAuthoringIdsIn, List.mem_map]
  constructor
  · rintro ⟨name, hname, rfl⟩
    exact ⟨name, rfl, of_decide_eq_true (List.mem_filter.1 hname).2⟩
  · rintro ⟨name, rfl, hconfig⟩
    exact ⟨name, List.mem_filter.2 ⟨mem_subdirs.2 ⟨_, _, hconfig⟩, decide_eq_true hconfig⟩, rfl⟩

theorem nodup_readAuthoringIdsIn (dir : Path) (start : String) :
    (readAuthoringIdsIn files dir start).Nodup := by
  refine List.Nodup.map (fun a b hab => ?_) ((List.nodup_dedup _).filter _)
  have hlist := congrArg String.toList hab
  rw [String.toList_append, String.toList_append] at hlist
  exact String.toList_inj.1 (List.append_cancel_left hlist)

theorem mem_listAuthoringPacks {id : String} : id ∈ listAuthoringPacks files ↔
    (["packs", id, "authoring", "config.json"] ∈ files) ∨
    ∃ uid name, id = "u/" ++ uid ++ "/" ++ name ∧
      ["packs", "u", uid, name, "authoring", "config.json"] ∈ files := by
  rw [listAuthoringPacks, List.mem_insertionSort, List.mem_append, List.mem_flatMap,
    mem_readAuthoringIdsIn]
  refine or_congr ⟨?_, fun h => ⟨id, String.empty_append.symm, h⟩⟩ ⟨?_, ?_⟩
  · rintro ⟨name, rfl, h⟩
    rwa [String.empty_append]
  · rintro ⟨uid, -, h⟩
    obtain ⟨name, hid, hconfig⟩ := mem_readAuthoringIdsIn.1 h
    exact ⟨uid, name, hid, hconfig⟩
  · rintro ⟨uid, name, hid, hconfig⟩
    exact ⟨uid, mem_subdirs.2 ⟨_, _, hconfig⟩, mem_readAuthoringIdsIn.2 ⟨name, hid, hconfig⟩⟩

end Listing

/-! ## The system -/

/-- The files, and the packs whose config was saved and that were not deleted since. -/
structure State where
  files : List Path
  saved : List String

/-- What is done to the directory of a pack. -/
inductive Act
  | savePackConfig (packId : String)
  | deletePack (packId : String)
  | write (packId : String) (file : PackFile)
  | remove (packId : String) (file : PackFile)

def Act.packId : Act → String
  | savePackConfig packId => packId
  | deletePack packId => packId
  | write packId _ => packId
  | remove packId _ => packId

/-- The state after an action: one that is refused changes nothing. -/
def step (s : State) : Act → Option State
  | .savePackConfig packId =>
    if isSafeId packId then
      some ⟨s.files.insert (authoringPath packId "config.json"), s.saved.insert packId⟩
    else some s
  | .deletePack packId =>
    if isSafeId packId then
      some ⟨s.files.filter fun p => ¬ packDir packId <+: p, s.saved.filter fun id => id ≠ packId⟩
    else some s
  | .write packId file =>
    if isSafeId packId ∧ file.isSafe then
      some { s with files := s.files.insert (packDir packId ++ file.path) }
    else some s
  | .remove packId file =>
    if isSafeId packId ∧ file.isSafe then
      some { s with files := s.files.filter fun p => p ≠ packDir packId ++ file.path }
    else some s

/-- Nothing was ever saved. -/
def system : System State Act where
  init s := s = ⟨[], []⟩
  step := step

section Frame

variable {s s' : State} {a : Act} {id : String} {p : Path}

/-- What is done, by what it is, unless it is refused. -/
theorem step_cases (hst : step s a = some s') : s' = s ∨ isSafeId a.packId = true ∧
    ((s' = ⟨s.files.insert (authoringPath a.packId "config.json"), s.saved.insert a.packId⟩) ∨
      (s' = ⟨s.files.filter fun p => ¬ packDir a.packId <+: p,
        s.saved.filter fun id => id ≠ a.packId⟩) ∨
      (∃ file : PackFile,
        s' = { s with files := s.files.insert (packDir a.packId ++ file.path) }) ∨
      ∃ file : PackFile,
        s' = { s with files := s.files.filter fun p => p ≠ packDir a.packId ++ file.path }) := by
  rcases a with packId | packId | ⟨packId, file⟩ | ⟨packId, file⟩ <;> rw [step] at hst <;>
    split_ifs at hst with hsafe <;> have hst := (Option.some.inj hst).symm
  · exact .inr ⟨hsafe, .inl hst⟩
  · exact .inl hst
  · exact .inr ⟨hsafe, .inr (.inl hst)⟩
  · exact .inl hst
  · exact .inr ⟨hsafe.1, .inr (.inr (.inl ⟨file, hst⟩))⟩
  · exact .inl hst
  · exact .inr ⟨hsafe.1, .inr (.inr (.inr ⟨file, hst⟩))⟩
  · exact .inl hst

/-- What is done to a pack leaves the directories of the others as they are. -/
theorem step_frame (hst : step s a = some s') (hid : isSafeId id = true) (hne : id ≠ a.packId)
    (hp : packDir id <+: p) : p ∈ s'.files ↔ p ∈ s.files := by
  rcases step_cases hst with rfl | ⟨hsafe, hcases⟩
  · exact Iff.rfl
  have hother : ∀ x, p ≠ packDir a.packId ++ x := by
    rintro x rfl
    obtain ⟨y, hy⟩ := hp
    exact hne (eq_of_packDir_append hid hsafe hy).1
  rcases hcases with rfl | rfl | ⟨file, rfl⟩ | ⟨file, rfl⟩
  · exact List.mem_insert_iff.trans (or_iff_right (hother _))
  · refine List.mem_filter.trans (and_iff_left (decide_eq_true ?_))
    rintro ⟨y, hy⟩
    exact hother y hy.symm
  · exact List.mem_insert_iff.trans (or_iff_right (hother _))
  · exact List.mem_filter.trans (and_iff_left (decide_eq_true (hother _)))

/-- The files are of packs with safe ids, and the configs among them are of those that were saved. -/
structure Inv (s : State) : Prop where
  files : ∀ p ∈ s.files, ∃ id, isSafeId id = true ∧
    ((id ∈ s.saved ∧ p = authoringPath id "config.json") ∨
      ∃ file : PackFile, p = packDir id ++ file.path)
  saved : ∀ id ∈ s.saved, isSafeId id = true ∧ authoringPath id "config.json" ∈ s.files

theorem PackFile.path_ne (file : PackFile) :
    file.path ≠ ["authoring", "config.json"] ∧ file.path ≠ [] := by
  rcases file with _ | _ | _ | _ | _ | _ | _ | _ <;> rw [path] <;>
    exact ⟨fun h => absurd h (by simp), List.cons_ne_nil _ _⟩

/-- No other file of a pack is a config. -/
theorem PackFile.path_ne_config {id' : String} (file : PackFile) (hid : isSafeId id = true)
    (hid' : isSafeId id' = true) : packDir id ++ file.path ≠ authoringPath id' "config.json" :=
  fun h => file.path_ne.1 (eq_of_packDir_append hid hid' h).2

theorem Inv.step (h : Inv s) (hst : Layout.step s a = some s') : Inv s' := by
  rcases step_cases hst with rfl | ⟨hsafe, hcases⟩
  · exact h
  rcases hcases with rfl | rfl | ⟨file, rfl⟩ | ⟨file, rfl⟩
  · refine ⟨fun p hp => ?_, fun id hid => ?_⟩
    · rcases List.mem_insert_iff.1 hp with rfl | hp
      · exact ⟨_, hsafe, .inl ⟨List.mem_insert_self, rfl⟩⟩
      · obtain ⟨id, hid, hfile⟩ := h.files p hp
        exact ⟨id, hid, hfile.imp_left fun hc => ⟨List.mem_insert_of_mem hc.1, hc.2⟩⟩
    · rcases List.mem_insert_iff.1 hid with rfl | hid
      · exact ⟨hsafe, List.mem_insert_self⟩
      · exact ⟨(h.saved id hid).1, List.mem_insert_of_mem (h.saved id hid).2⟩
  · refine ⟨fun p hp => ?_, fun id hid => ?_⟩
    · obtain ⟨hp, hnot⟩ := List.mem_filter.1 hp
      obtain ⟨id, hid, ⟨hsaved, rfl⟩ | hfile⟩ := h.files p hp
      · refine ⟨id, hid, .inl ⟨List.mem_filter.2 ⟨hsaved, decide_eq_true ?_⟩, rfl⟩⟩
        rintro rfl
        exact of_decide_eq_true hnot (List.prefix_append _ _)
      · exact ⟨id, hid, .inr hfile⟩
    · obtain ⟨hid, hne⟩ := List.mem_filter.1 hid
      obtain ⟨hids, hconfig⟩ := h.saved id hid
      refine ⟨hids, List.mem_filter.2 ⟨hconfig, decide_eq_true fun hp => ?_⟩⟩
      obtain ⟨y, hy⟩ := hp
      exact of_decide_eq_true hne (eq_of_packDir_append hids hsafe hy.symm).1
  · refine ⟨fun p hp => ?_, fun id hid => ?_⟩
    · rcases List.mem_insert_iff.1 hp with rfl | hp
      · exact ⟨_, hsafe, .inr ⟨file, rfl⟩⟩
      · exact h.files p hp
    · exact ⟨(h.saved id hid).1, List.mem_insert_of_mem (h.saved id hid).2⟩
  · refine ⟨fun p hp => h.files p (List.mem_of_mem_filter hp), fun id hid => ?_⟩
    obtain ⟨hids, hconfig⟩ := h.saved id hid
    refine ⟨hids, List.mem_filter.2 ⟨hconfig, decide_eq_true fun he => ?_⟩⟩
    exact file.path_ne_config hsafe hids he.symm

theorem inv_of_reach (h : system.Reachable s) : Inv s := by
  refine h.invariant ?_ fun s a s' hs _ hst => hs.step hst
  rintro s rfl
  exact ⟨fun p hp => absurd hp List.not_mem_nil, fun id hid => absurd hid List.not_mem_nil⟩

/-- A config on the first level is that of the pack whose id is there. -/
theorem Inv.config_flat (h : Inv s) (hp : ["packs", id, "authoring", "config.json"] ∈ s.files) :
    id ∈ s.saved ∧ packDir id = ["packs", id] := by
  obtain ⟨id', hid, hfile⟩ := h.files _ hp
  rcases shape_of_isSafeId hid with ⟨hs, -, -⟩ | ⟨uid, pack, hs, -⟩ <;>
    rw [authoringPath, packDir_eq hid, hs] at hfile
  · rcases hfile with ⟨hsaved, heq⟩ | ⟨file, heq⟩
    · obtain rfl : id = id' := (List.cons.inj (List.cons.inj heq).2).1
      exact ⟨hsaved, by rw [packDir_eq hid, hs]⟩
    · exact absurd (List.cons.inj (List.cons.inj heq).2).2.symm file.path_ne.1
  · rcases hfile with ⟨-, heq⟩ | ⟨file, heq⟩
    · exact absurd (congrArg List.length heq) (by simp)
    · have hnil : [] = file.path :=
        (List.cons.inj (List.cons.inj (List.cons.inj (List.cons.inj heq).2).2).2).2
      exact absurd hnil.symm file.path_ne.2

/-- A config on the second level is that of the pack of the account whose directory it is in. -/
theorem Inv.config_community {uid name : String} (h : Inv s)
    (hp : ["packs", "u", uid, name, "authoring", "config.json"] ∈ s.files) :
    "u/" ++ uid ++ "/" ++ name ∈ s.saved ∧
      packDir ("u/" ++ uid ++ "/" ++ name) = ["packs", "u", uid, name] := by
  obtain ⟨id', hid, hfile⟩ := h.files _ hp
  rcases shape_of_isSafeId hid with ⟨hs, hu, -⟩ | ⟨uid', pack, hs, hid', -⟩ <;>
    rw [authoringPath, packDir_eq hid, hs] at hfile
  · have hsame : "u" = id' := by
      rcases hfile with ⟨-, heq⟩ | ⟨file, heq⟩ <;> exact (List.cons.inj (List.cons.inj heq).2).1
    exact absurd hsame.symm hu
  · rcases hfile with ⟨hsaved, heq⟩ | ⟨file, heq⟩
    · obtain ⟨rfl, hrest⟩ := List.cons.inj (List.cons.inj (List.cons.inj heq).2).2
      obtain rfl := (List.cons.inj hrest).1
      rw [← hid']
      exact ⟨hsaved, by rw [packDir_eq hid, hs]⟩
    · have hpath : ["authoring", "config.json"] = file.path :=
        (List.cons.inj (List.cons.inj (List.cons.inj (List.cons.inj heq).2).2).2).2
      exact absurd hpath.symm file.path_ne.1

theorem Inv.mem_listAuthoringPacks (h : Inv s) : id ∈ listAuthoringPacks s.files ↔ id ∈ s.saved := by
  rw [Layout.mem_listAuthoringPacks]
  constructor
  · rintro (hp | ⟨uid, name, rfl, hp⟩)
    · exact (h.config_flat hp).1
    · exact (h.config_community hp).1
  · intro hsaved
    obtain ⟨hid, hconfig⟩ := h.saved id hsaved
    rw [authoringPath, packDir_eq hid] at hconfig
    rcases shape_of_isSafeId hid with ⟨hs, -, -⟩ | ⟨uid, pack, hs, hid', -⟩ <;> rw [hs] at hconfig
    · exact .inl hconfig
    · exact .inr ⟨uid, pack, hid', hconfig⟩

theorem Inv.nodup_listAuthoringPacks (h : Inv s) : (listAuthoringPacks s.files).Nodup := by
  rw [listAuthoringPacks, (List.perm_insertionSort _ _).nodup_iff]
  refine List.Nodup.append (nodup_readAuthoringIdsIn _ _) (List.nodup_flatMap.2 ⟨fun uid _ =>
    nodup_readAuthoringIdsIn _ _, ?_⟩) ?_
  · -- the directory of a pack says whose it is
    refine (List.nodup_dedup _).imp fun hne => ?_
    intro id hid hid'
    obtain ⟨name, rfl, hp⟩ := mem_readAuthoringIdsIn.1 hid
    obtain ⟨name', hname, hp'⟩ := mem_readAuthoringIdsIn.1 hid'
    have hdir := (h.config_community hp').2
    rw [← hname, (h.config_community hp).2] at hdir
    exact hne (List.cons.inj (List.cons.inj (List.cons.inj hdir).2).2).1
  · intro id hid hid'
    obtain ⟨name, rfl, hp⟩ := mem_readAuthoringIdsIn.1 hid
    obtain ⟨uid, -, hin⟩ := List.mem_flatMap.1 hid'
    obtain ⟨name', hname, hp'⟩ := mem_readAuthoringIdsIn.1 hin
    rw [String.empty_append] at hname
    have hdir := (h.config_flat hp).2
    rw [hname, (h.config_community hp').2] at hdir
    exact absurd (congrArg List.length hdir) (by simp)

/-- Packs are apart on disk: no directory of one is in that of another, a path of an own file is of
    one pack, below its directory for them, and what is done to a pack leaves the others alone. Those
    are listed, once, whose config was saved and that were not deleted since. -/
theorem layout_disjoint :
    (∀ a b, isSafeId a = true → isSafeId b = true → a ≠ b → ¬ packDir a <+: packDir b) ∧
    (∀ id rel, isSafeId id = true → isSafeRelPath rel = true → ∃ below, below ≠ [] ∧
      packStaticPath id rel = .ok (packDir id ++ ["static"] ++ below)) ∧
    (∀ id id' rel rel' path, packStaticPath id rel = .ok path → packStaticPath id' rel' = .ok path →
      id = id' ∧ rel = rel') ∧
    (∀ s a s' id p, step s a = some s' → isSafeId id = true → id ≠ a.packId → packDir id <+: p →
      (p ∈ s'.files ↔ p ∈ s.files)) ∧
    ∀ s, system.Reachable s → (listAuthoringPacks s.files).Nodup ∧
      ∀ id, (id ∈ listAuthoringPacks s.files ↔ id ∈ s.saved) ∧
        (id ∈ s.saved → isSafeId id = true) := by
  refine ⟨fun a b ha hb hne hp => hne (packDir_prefixFree ha hb hp), fun id rel hid hrel => ?_,
    fun id id' rel rel' path => packStaticPath_inj, fun s a s' id p => step_frame, fun s hs => ?_⟩
  · have hok := packStaticPath_eq_ok.2 ⟨hid, hrel, rfl⟩
    obtain ⟨below, hne, hpath⟩ := packStaticPath_inside hok
    exact ⟨below, hne, hpath ▸ hok⟩
  · have hinv := inv_of_reach hs
    exact ⟨hinv.nodup_listAuthoringPacks, fun id =>
      ⟨hinv.mem_listAuthoringPacks, fun hsaved => (hinv.saved id hsaved).1⟩⟩

end Frame

end Layout

end Smrt
