import Mathlib.Data.List.Lex
import Smrt.Authoring.Sources
import Smrt.Lib.Pages
import Smrt.Lib.Suffix

/-!
# The cache, page by page

A jar is cached under its hash, in the directory that the first two letters of the hash name. So the
directories in their order are the jars in theirs, and a page of the inventory opens the directories
from the one of its cursor on, and no more of them when it is full (`cacheInventoryAfter`).

* `cacheInventoryAfter_eq`: a page is the beginning of what comes after the cursor in the whole
  inventory;
* `inventory_pages`: the pages, each after the last jar of the one before, are the inventory.
-/

namespace Smrt

namespace Inventory

/-- A jar of the cache. -/
structure CacheInventoryEntry where
  sha1 : String
  sizeBytes : UInt64
  deriving DecidableEq

/-- The files of a directory, with their sizes. -/
abbrev Files := List (String × UInt64)

/-- What is in the directory of the cache, by name: directories, and files, which are not read. The
    directory may be missing. -/
abbrev Cache := Option (List (String × Option Files))

section Reading

variable (after : Option String) (take : Option ℕ)

/-- The jar that a file is, if it is one that comes after the cursor. -/
def jarOf (file : String × UInt64) : Option CacheInventoryEntry :=
  (stripSuffix file.1 ".jar").bind fun sha1 =>
    if isHex sha1 ∧ sha1.length = 40 ∧ ∀ cursor ∈ after, cursor < sha1 then some ⟨sha1, file.2⟩
    else none

/-- The jars of a directory that come after the cursor. -/
def here (files : Files) : List CacheInventoryEntry :=
  (files.filterMap (jarOf after)).insertionSort fun a b => a.sha1 ≤ b.sha1

/-- A directory that sorts before the cursor. -/
def skipped (name : String) : Bool := after.any fun cursor => name < sha1Shard cursor

/-- The jars of the directories, behind those that were found before, until there are enough. -/
def collect (out : List CacheInventoryEntry) : List (String × Files) → List CacheInventoryEntry
  | [] => out
  | (name, files) :: rest =>
    if skipped after name then collect out rest
    else if take.any fun n => n ≤ (out ++ here after files).length then
      (out ++ here after files).take (take.getD (out ++ here after files).length)
    else collect (out ++ here after files) rest

/-- The directories of the cache in their order. -/
def prefixes (cache : Cache) : List (String × Files) :=
  ((cache.getD []).filterMap fun entry => entry.2.map fun files => (entry.1, files)).insertionSort
    fun d e => d.1 ≤ e.1

def cacheInventoryAfter (cache : Cache) : List CacheInventoryEntry :=
  collect after take [] (prefixes cache)

end Reading

def listCacheInventory (cache : Cache) : List CacheInventoryEntry :=
  cacheInventoryAfter none none cache

/-- The pages of so many jars at most, each after the last jar of the one before, until an empty
    one; `none` if there was none among the first `fuel`. -/
def pages (cache : Cache) (n : ℕ) : ℕ → Option String → Option (List (List CacheInventoryEntry))
  | 0, _ => none
  | fuel + 1, after =>
    match (cacheInventoryAfter after (some n) cache).getLast? with
    | none => some []
    | some last =>
      (pages cache n fuel (some last.sha1)).map (cacheInventoryAfter after (some n) cache :: ·)

/-- A cache in which no name is there twice in a directory, and each jar is in the directory that
    its hash begins with. -/
structure WellPlaced (cache : Cache) : Prop where
  names : ((cache.getD []).map Prod.fst).Nodup
  files : ∀ name files, (name, some files) ∈ cache.getD [] → (files.map Prod.fst).Nodup
  placed : ∀ name files, (name, some files) ∈ cache.getD [] →
    ∀ file ∈ files, ∀ jar, jarOf none file = some jar → sha1Shard jar.sha1 = name

/-! ## Jars -/

section Jars

variable {after : Option String} {take : Option ℕ} {file : String × UInt64}
  {jar : CacheInventoryEntry} {files : Files} {name : String}

theorem jarOf_eq_some : jarOf after file = some jar ↔
    file = (jar.sha1 ++ ".jar", jar.sizeBytes) ∧ isHex jar.sha1 = true ∧ jar.sha1.length = 40 ∧
      ∀ cursor ∈ after, cursor < jar.sha1 := by
  obtain ⟨fileName, size⟩ := file
  obtain ⟨sha1, sizeBytes⟩ := jar
  rw [jarOf, Option.bind_eq_some_iff]
  constructor
  · rintro ⟨sha1', hname, h⟩
    rw [stripSuffix_eq_some] at hname
    by_cases hjar : isHex sha1' ∧ sha1'.length = 40 ∧ ∀ cursor ∈ after, cursor < sha1'
    · rw [if_pos hjar, Option.some.injEq, CacheInventoryEntry.mk.injEq] at h
      obtain ⟨rfl, rfl⟩ := h
      exact ⟨Prod.ext hname rfl, hjar⟩
    · rw [if_neg hjar] at h
      exact absurd h nofun
  · rintro ⟨hfile, hjar⟩
    obtain ⟨rfl, rfl⟩ := Prod.mk.inj hfile
    exact ⟨sha1, stripSuffix_eq_some.2 rfl, if_pos hjar⟩

/-- The jars after a cursor are those of all jars that are. -/
theorem filterMap_jarOf : files.filterMap (jarOf after) =
    (files.filterMap (jarOf none)).filter fun jar => ∀ cursor ∈ after, cursor < jar.sha1 := by
  rw [List.filter_filterMap]
  refine List.filterMap_congr fun file _ => ?_
  ext jar
  rw [Option.filter_eq_some_iff, jarOf_eq_some, jarOf_eq_some, decide_eq_true_iff]
  constructor
  · rintro ⟨hfile, hhex, hlen, hafter⟩
    exact ⟨⟨hfile, hhex, hlen, nofun⟩, hafter⟩
  · rintro ⟨⟨hfile, hhex, hlen, -⟩, hafter⟩
    exact ⟨hfile, hhex, hlen, hafter⟩

/-- The jars of a directory have different hashes, as its files have different names. -/
theorem nodup_sha1 (h : (files.map Prod.fst).Nodup) :
    ((files.filterMap (jarOf none)).map CacheInventoryEntry.sha1).Nodup := by
  rw [List.Nodup, List.pairwise_map, List.pairwise_filterMap]
  rw [List.Nodup, List.pairwise_map] at h
  refine h.imp fun {file file'} hne jar hjar jar' hjar' hsha1 => hne ?_
  rw [(jarOf_eq_some.1 hjar).1, (jarOf_eq_some.1 hjar').1, hsha1]

/-- A directory is read as its jars that come after the cursor. -/
theorem here_eq (h : (files.map Prod.fst).Nodup) :
    here after files = Pages.after CacheInventoryEntry.sha1 after (here none files) := by
  have hnodup := nodup_sha1 h
  rw [here, filterMap_jarOf, Pages.insertionSort_filter hnodup.of_map]
  · rfl
  · exact fun jar hjar jar' hjar' => List.inj_on_of_nodup_map hnodup hjar hjar'

theorem pairwise_here (h : (files.map Prod.fst).Nodup) :
    (here none files).Pairwise fun a b => a.sha1 < b.sha1 := by
  have hnodup := nodup_sha1 h
  exact Pages.pairwise_insertionSort hnodup.of_map
    fun jar hjar jar' hjar' => List.inj_on_of_nodup_map hnodup hjar hjar'

theorem mem_here : jar ∈ here none files ↔ ∃ file ∈ files, jarOf none file = some jar := by
  rw [here, List.mem_insertionSort, List.mem_filterMap]

end Jars

/-! ## Directories -/

section Directories

variable {after : Option String} {take : Option ℕ} {cache : Cache} {a b : List Char}

/-- What begins with less is less. -/
theorem lt_of_take_lt {n : ℕ} (h : a.take n < b.take n) : a < b := by
  induction n generalizing a b with
  | zero => exact absurd h (List.lt_irrefl [])
  | succ n ih =>
    rcases a with _ | ⟨x, a⟩
    · rcases b with _ | ⟨y, b⟩
      · exact absurd h (List.lt_irrefl [])
      · exact List.nil_lt_cons y b
    · rcases b with _ | ⟨y, b⟩
      · exact absurd h (List.not_lt_nil _)
      · rw [List.take_succ_cons, List.take_succ_cons, List.cons_lt_cons_iff] at h
        exact List.cons_lt_cons_iff.2 (h.imp_right fun h => ⟨h.1, ih h.2⟩)

theorem lt_of_sha1Shard_lt {s t : String} (h : sha1Shard s < sha1Shard t) : s < t := by
  rw [String.lt_iff_toList_lt, sha1Shard, sha1Shard, String.toList_ofList,
    String.toList_ofList] at h
  exact String.lt_iff_toList_lt.2 (lt_of_take_lt h)

/-- What a directory of a well placed cache is. -/
structure Shard (d : String × Files) : Prop where
  files : (d.2.map Prod.fst).Nodup
  placed : ∀ jar ∈ here none d.2, sha1Shard jar.sha1 = d.1

/-- A directory that is skipped has no jars after the cursor. -/
theorem Shard.skipped {d : String × Files} (h : Shard d) (hs : skipped after d.1 = true) :
    Pages.after CacheInventoryEntry.sha1 after (here none d.2) = [] := by
  obtain ⟨cursor, rfl, hlt⟩ := (Option.any_eq_true _ _).1 hs
  refine List.filter_eq_nil_iff.2 fun jar hjar => ?_
  rw [decide_eq_true_iff]
  intro hafter
  have hbefore : jar.sha1 < cursor := lt_of_sha1Shard_lt (h.placed jar hjar ▸ of_decide_eq_true hlt)
  exact absurd (hafter cursor rfl) hbefore.asymm

/-- The jars of the directories, as many as there are to be. -/
theorem collect_eq {dirs : List (String × Files)} (hdirs : ∀ d ∈ dirs, Shard d)
    {out : List CacheInventoryEntry} (hout : ∀ n ∈ take, out.length < n) :
    collect after take out dirs = Pages.limited take (out ++ dirs.flatMap fun d =>
      Pages.after CacheInventoryEntry.sha1 after (here none d.2)) := by
  induction dirs generalizing out with
  | nil =>
    rw [collect, List.flatMap_nil, List.append_nil]
    rcases take with _ | n
    · rfl
    · exact (List.take_of_length_le (hout n rfl).le).symm
  | cons d dirs ih =>
    obtain ⟨name, files⟩ := d
    obtain ⟨hd, hdirs⟩ := List.forall_mem_cons.1 hdirs
    rw [collect, List.flatMap_cons]
    by_cases hskip : skipped after name = true
    · rw [if_pos hskip, ih hdirs hout, hd.skipped hskip, List.nil_append]
    rw [if_neg hskip, ← here_eq hd.files, ← List.append_assoc]
    by_cases hfull : (take.any fun n => n ≤ (out ++ here after files).length) = true
    · obtain ⟨n, rfl, hn⟩ := (Option.any_eq_true _ _).1 hfull
      rw [if_pos hfull]
      exact (List.take_append_of_le_length (of_decide_eq_true hn)).symm
    · rw [if_neg hfull]
      refine ih hdirs fun n hn => Nat.lt_of_not_le fun hle => hfull ?_
      exact (Option.any_eq_true _ _).2 ⟨n, hn, decide_eq_true hle⟩

theorem mem_prefixes {d : String × Files} :
    d ∈ prefixes cache ↔ (d.1, some d.2) ∈ cache.getD [] := by
  rw [prefixes, List.mem_insertionSort, List.mem_filterMap]
  constructor
  · rintro ⟨⟨name, entry⟩, hentry, hd⟩
    obtain ⟨files, rfl, rfl⟩ := Option.map_eq_some_iff.1 hd
    exact hentry
  · exact fun hd => ⟨_, hd, rfl⟩

theorem WellPlaced.shard (h : WellPlaced cache) : ∀ d ∈ prefixes cache, Shard d := fun d hd =>
  ⟨h.files d.1 d.2 (mem_prefixes.1 hd), fun jar hjar =>
    let ⟨file, hfile, hjar⟩ := mem_here.1 hjar
    h.placed d.1 d.2 (mem_prefixes.1 hd) file hfile jar hjar⟩

theorem listCacheInventory_eq (h : WellPlaced cache) :
    listCacheInventory cache = (prefixes cache).flatMap fun d => here none d.2 := by
  have hall := @collect_eq none none (prefixes cache) h.shard [] nofun
  simp only [Pages.after_none, List.nil_append] at hall
  exact hall

/-- A page is what comes after the cursor in the inventory, as far as it goes. -/
theorem cacheInventoryAfter_eq (h : WellPlaced cache) (htake : ∀ n ∈ take, 0 < n) :
    cacheInventoryAfter after take cache = Pages.limited take
      (Pages.after CacheInventoryEntry.sha1 after (listCacheInventory cache)) := by
  rw [cacheInventoryAfter, collect_eq h.shard htake, List.nil_append, listCacheInventory_eq h,
    Pages.after, List.filter_flatMap]
  rfl

/-- The directories are in the order of their names. -/
theorem WellPlaced.pairwise (h : WellPlaced cache) :
    (prefixes cache).Pairwise fun d e => d.1 < e.1 := by
  have hnames : (((cache.getD []).filterMap fun entry =>
      entry.2.map fun files => (entry.1, files)).map Prod.fst).Nodup := by
    have hne := h.names
    rw [List.Nodup, List.pairwise_map] at hne ⊢
    rw [List.pairwise_filterMap]
    refine hne.imp fun {d e} hde d' hd e' he hname => hde ?_
    obtain ⟨_, -, rfl⟩ := Option.map_eq_some_iff.1 hd
    obtain ⟨_, -, rfl⟩ := Option.map_eq_some_iff.1 he
    exact hname
  exact Pages.pairwise_insertionSort hnames.of_map
    fun d hd e he => List.inj_on_of_nodup_map hnames hd he

/-- The inventory is in the order of the hashes. -/
theorem pairwise_listCacheInventory (h : WellPlaced cache) :
    (listCacheInventory cache).Pairwise fun a b => a.sha1 < b.sha1 := by
  rw [listCacheInventory_eq h, List.pairwise_flatMap]
  refine ⟨fun d hd => pairwise_here (h.shard d hd).files, ?_⟩
  refine h.pairwise.imp_of_mem fun {d e} hd he hde jar hjar jar' hjar' => lt_of_sha1Shard_lt ?_
  rwa [(h.shard d hd).placed jar hjar, (h.shard e he).placed jar' hjar']

theorem mem_listCacheInventory (h : WellPlaced cache) {jar : CacheInventoryEntry} :
    jar ∈ listCacheInventory cache ↔ ∃ name files, (name, some files) ∈ cache.getD [] ∧
      ∃ file ∈ files, jarOf none file = some jar := by
  rw [listCacheInventory_eq h, List.mem_flatMap]
  constructor
  · rintro ⟨d, hd, hjar⟩
    exact ⟨d.1, d.2, mem_prefixes.1 hd, mem_here.1 hjar⟩
  · rintro ⟨name, files, hd, hjar⟩
    exact ⟨(name, files), mem_prefixes.2 hd, mem_here.2 hjar⟩

end Directories

/-! ## Pages -/

section Paging

variable {cache : Cache} {n : ℕ}

theorem page_eq (h : WellPlaced cache) (hn : 1 ≤ n) {after : Option String} :
    cacheInventoryAfter after (some n) cache =
      (Pages.after CacheInventoryEntry.sha1 after (listCacheInventory cache)).take n :=
  cacheInventoryAfter_eq h fun _ hm => Option.some.inj hm ▸ hn

/-- The pages from a cursor on are what comes after it. -/
theorem pages_eq (h : WellPlaced cache) (hn : 1 ≤ n) {m : ℕ} {after : Option String}
    (hm : (Pages.after CacheInventoryEntry.sha1 after (listCacheInventory cache)).length ≤ m) :
    ∃ read, (∀ fuel, m < fuel → pages cache n fuel after = some read) ∧
      read.flatten = Pages.after CacheInventoryEntry.sha1 after (listCacheInventory cache) ∧
      ∀ page ∈ read, page ≠ [] ∧ page.length ≤ n := by
  induction m generalizing after with
  | zero =>
    have hnil := List.length_eq_zero_iff.1 (Nat.le_zero.1 hm)
    refine ⟨[], fun fuel hfuel => ?_, hnil.symm, nofun⟩
    obtain ⟨k, rfl⟩ : ∃ k, fuel = k + 1 := ⟨fuel - 1, by omega⟩
    rw [pages, page_eq h hn, hnil, List.take_nil, List.getLast?_nil]
  | succ m ih =>
    rcases hlast : (cacheInventoryAfter after (some n) cache).getLast? with _ | last
    · -- an empty page, though it may have a jar: nothing is left
      have hempty := List.getLast?_eq_none_iff.1 hlast
      rw [page_eq h hn] at hempty
      have hnil := (List.take_eq_nil_iff.1 hempty).resolve_left (Nat.one_le_iff_ne_zero.1 hn)
      refine ⟨[], fun fuel hfuel => ?_, hnil.symm, nofun⟩
      obtain ⟨k, rfl⟩ : ∃ k, fuel = k + 1 := ⟨fuel - 1, by omega⟩
      rw [pages, hlast]
    · obtain ⟨front, hfront⟩ := List.getLast?_eq_some_iff.1 hlast
      have hcut := List.take_append_drop n
        (Pages.after CacheInventoryEntry.sha1 after (listCacheInventory cache))
      have hlen : (front ++ [last]).length ≤ n := by
        rw [← hfront, page_eq h hn]
        exact List.length_take_le _ _
      rw [← page_eq h hn, hfront, List.append_assoc, List.singleton_append] at hcut
      have hrest := Pages.after_append (pairwise_listCacheInventory h) hcut.symm
      have hshort : (Pages.after CacheInventoryEntry.sha1 (some last.sha1)
          (listCacheInventory cache)).length ≤ m := by
        rw [← hcut, List.length_append, List.length_cons] at hm
        rw [hrest]
        omega
      obtain ⟨read, hread, hflat, hall⟩ := ih hshort
      refine ⟨(front ++ [last]) :: read, fun fuel hfuel => ?_, ?_, ?_⟩
      · obtain ⟨k, rfl⟩ : ∃ k, fuel = k + 1 := ⟨fuel - 1, by omega⟩
        rw [pages, hlast]
        dsimp only
        rw [hread k (by omega), Option.map_some, hfront]
      · rw [List.flatten_cons, hflat, hrest, List.append_assoc, List.singleton_append, hcut]
      · exact List.forall_mem_cons.2 ⟨⟨List.concat_ne_nil _ _, hlen⟩, hall⟩

/-- The hash of a jar. -/
def hash : String := "7f00000000000000000000000000000000000000"

/-- A cache of one jar, beside a file that is none. -/
def oneJar : Cache := some [("7f", some [(hash ++ ".jar", 3)]), ("notes.txt", none)]

theorem wellPlaced_oneJar : WellPlaced oneJar where
  names := by decide
  files name files h := by
    obtain ⟨-, rfl⟩ : name = "7f" ∧ files = [(hash ++ ".jar", 3)] := by simpa [oneJar] using h
    decide
  placed name files h file hfile jar hjar := by
    obtain ⟨rfl, rfl⟩ : name = "7f" ∧ files = [(hash ++ ".jar", 3)] := by simpa [oneJar] using h
    obtain rfl := List.mem_singleton.1 hfile
    have hone : jarOf none (hash ++ ".jar", 3) = some ⟨hash, 3⟩ := by decide +kernel
    obtain rfl := Option.some.inj (hone.symm.trans hjar)
    decide +kernel

end Paging

end Inventory

end Smrt
