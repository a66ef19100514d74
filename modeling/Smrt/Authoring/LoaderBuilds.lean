import Mathlib.Data.List.Lex
import Mathlib.Data.List.Sort
import Mathlib.Data.Prod.Lex
import Smrt.Domain.Version
import Smrt.Lib.Json
import Smrt.Lib.Split

/-!
# The builds of a loader

What the builds of a loader are is read from what its makers publish: for Forge from a document that
names each build with the game version it is for (`parseForge`), for NeoForge from a list of build
numbers that tell it (`parseNeoforge`), for Fabric and Quilt from a list that says which are stable
(`parseFabric`). The newest come first, by the numbers in them (`sortNewestFirst`).

* `parseNeoforge_spec`: the list holds every build once, in order, and marks the newest of each game
  version;
* `parseForge_document`: a document is read as it was written, whatever else is in it.
-/

namespace Smrt

namespace LoaderBuilds

structure LoaderBuild where
  version : String
  minecraft : Option String
  recommended : Bool
  latest : Bool
  deriving DecidableEq

/-- A version as the numbers in it. A number that is too large is passed over. -/
def versionKey (version : String) : List ℕ :=
  ((version.toList.splitOnP fun c => ¬ c.isDigit).filter fun s => s ≠ []).filterMap fun s =>
    (parseU64 (String.ofList s)).map UInt64.toNat

/-- What builds are sorted by: their game version, and then their own. -/
def buildKey (b : LoaderBuild) : List ℕ ×ₗ List ℕ :=
  toLex (versionKey (b.minecraft.getD ""), versionKey b.version)

/-- The newest builds first. Builds that the numbers do not tell apart stay as they are. -/
def sortNewestFirst (builds : List LoaderBuild) : List LoaderBuild :=
  builds.insertionSort fun a b => buildKey b ≤ buildKey a

/-- A text that is cut at the first letter of a kind. -/
def splitOnce (c : Char) (l : List Char) : Option (List Char × List Char) :=
  if c ∈ l then some (l.takeWhile (· ≠ c), (l.dropWhile (· ≠ c)).tail) else none

/-! ## Forge -/

/-- Which build of a game version is recommended, and which is the latest, if that can be read. -/
def promosOf (promotions : Option Json) : List (String × String) :=
  ((promotions.bind fun v => match v with
    | .obj members => members.lookup "promos"
    | _ => none).bind fun p => match p with
      | .obj members => members.mapM fun m => m.2.asStr.map fun v => (m.1, v)
      | _ => none).getD []

def forgeBuild (promos : List (String × String)) (mc version : String) : LoaderBuild where
  version := version
  minecraft := some mc
  recommended := promos.lookup (mc ++ "-recommended") = some version
  latest := promos.lookup (mc ++ "-latest") = some version

/-- What is before each build in a document. -/
def openMark : List Char := "<version>".toList

/-- What is behind it. -/
def closeMark : List Char := "</version>".toList

/-- What is between a mark and the next, and before its end. -/
def forgeEntries (xml : String) : List (List Char) :=
  ((pieces openMark 0 [] xml.toList).drop 1).filterMap fun chunk =>
    (pieces closeMark 0 [] chunk).head?

def parseForge (xml : String) (promotions : Option Json) : List LoaderBuild :=
  sortNewestFirst ((forgeEntries xml).filterMap fun raw =>
    (splitOnce '-' (trim (String.ofList raw)).toList).map fun e =>
      forgeBuild (promosOf promotions) (String.ofList e.1) (String.ofList e.2))

/-! ## NeoForge -/

/-- The game version that the first two parts of a build number tell. -/
def neoforgeMinecraft (version : String) : Option String :=
  match version.toList.splitOn '.' with
  | major :: minor :: _ =>
    if major.all Char.isDigit then some ("1." ++ String.ofList major ++ "." ++ String.ofList minor)
    else none
  | _ => none

/-- Whether a build is the first of its game version. -/
def isFirst (seen : List String) (b : LoaderBuild) : Bool :=
  b.minecraft.any fun mc => ¬ seen.contains mc

/-- Marks the first build of each game version. -/
def markLatestPerMinecraft : List String → List LoaderBuild → List LoaderBuild
  | _, [] => []
  | seen, b :: builds =>
    (if isFirst seen b then { b with latest := true } else b) ::
      markLatestPerMinecraft (b.minecraft.toList ++ seen) builds

def neoforgeBuild (version : String) : LoaderBuild :=
  ⟨version, neoforgeMinecraft version, false, false⟩

/-- The builds of the build numbers, the newest first. -/
def neoforgeBuilds (versions : List String) : List LoaderBuild :=
  markLatestPerMinecraft [] (sortNewestFirst (versions.map neoforgeBuild))

def parseNeoforge (body : Json) : Option (List LoaderBuild) := do
  let fields ← body.record ["versions"]
  let versions ← Json.must (Json.listOf Json.asStr) (fields.lookup "versions")
  pure (neoforgeBuilds versions)

/-! ## Fabric and Quilt -/

def fabricBuild (entry : Json) : Option LoaderBuild := do
  let fields ← entry.record ["version", "stable"]
  let version ← Json.must Json.asStr (fields.lookup "version")
  let stable ← Json.orDefault Json.asBool false (fields.lookup "stable")
  pure ⟨version, none, stable, false⟩

def parseFabric (body : Json) : Option (List LoaderBuild) := Json.listOf fabricBuild body

/-! ## The order of builds -/

theorem perm_sortNewestFirst (builds : List LoaderBuild) : (sortNewestFirst builds).Perm builds :=
  List.perm_insertionSort _ builds

theorem pairwise_sortNewestFirst (builds : List LoaderBuild) :
    (sortNewestFirst builds).Pairwise fun a b => buildKey b ≤ buildKey a :=
  have : Std.Total fun a b : LoaderBuild => buildKey b ≤ buildKey a :=
    ⟨fun a b => le_total (buildKey b) (buildKey a)⟩
  have : IsTrans LoaderBuild fun a b => buildKey b ≤ buildKey a :=
    ⟨fun _ _ _ h h' => h'.trans h⟩
  List.pairwise_insertionSort _ builds

/-- Of two builds of one game version in their order the first is the newer. -/
theorem version_le_of_buildKey_le {a b : LoaderBuild} (h : buildKey b ≤ buildKey a)
    (hmc : a.minecraft = b.minecraft) : versionKey b.version ≤ versionKey a.version := by
  rw [buildKey, buildKey, Prod.Lex.toLex_le_toLex, hmc] at h
  exact h.elim (fun hlt => absurd hlt (lt_irrefl _)) And.right

/-! ## The newest build of each game version -/

/-- A build without its mark. -/
def unmarked (b : LoaderBuild) : LoaderBuild := { b with latest := false }

theorem unmarked_ite {p : Prop} [Decidable p] {b : LoaderBuild} :
    unmarked (if p then { b with latest := true } else b) = unmarked b := by
  split_ifs
  · rfl
  · rfl

theorem map_unmarked_mark {seen : List String} {builds : List LoaderBuild} :
    (markLatestPerMinecraft seen builds).map unmarked = builds.map unmarked := by
  induction builds generalizing seen with
  | nil => rfl
  | cons b builds ih => rw [markLatestPerMinecraft, List.map_cons, List.map_cons, unmarked_ite, ih]

/-- A build is marked if its game version was not seen, and none of it comes before. -/
theorem latest_of_mark {seen : List String} {builds u w : List LoaderBuild} {b : LoaderBuild}
    (hplain : ∀ b ∈ builds, b.latest = false)
    (h : markLatestPerMinecraft seen builds = u ++ b :: w) :
    b.latest = true ↔
      ∃ mc, b.minecraft = some mc ∧ mc ∉ seen ∧ ∀ c ∈ u, c.minecraft ≠ some mc := by
  induction builds generalizing seen u with
  | nil => exact absurd h.symm (List.append_ne_nil_of_right_ne_nil _ (List.cons_ne_nil _ _))
  | cons a builds ih =>
    have hmc := congrArg LoaderBuild.minecraft
      (unmarked_ite (p := isFirst seen a = true) (b := a))
    rw [markLatestPerMinecraft] at h
    rcases u with _ | ⟨x, u⟩
    · obtain ⟨hb, -⟩ := List.cons.inj h
      have hlatest : b.latest = isFirst seen a := by
        rw [← hb]
        split_ifs with hfirst
        · exact hfirst.symm
        · exact (hplain a List.mem_cons_self).trans (Bool.eq_false_iff.2 hfirst).symm
      have hbmc : b.minecraft = a.minecraft := hb ▸ hmc
      rw [hlatest, hbmc, isFirst, Option.any_eq_true]
      refine exists_congr fun mc => and_congr_right fun _ => ?_
      rw [decide_eq_true_iff, List.contains_iff_mem]
      exact (and_iff_left fun c hc => absurd hc List.not_mem_nil).symm
    · obtain ⟨hx, htail⟩ := List.cons.inj h
      have hxmc : x.minecraft = a.minecraft := hx ▸ hmc
      rw [ih (fun c hc => hplain c (List.mem_cons_of_mem _ hc)) htail]
      refine exists_congr fun mc => and_congr_right fun _ => ?_
      rw [List.mem_append, not_or, Option.mem_toList, List.forall_mem_cons, hxmc, and_assoc,
        and_left_comm]

/-- What is made of build numbers. -/
structure Listed (versions : List String) (builds : List LoaderBuild) : Prop where
  /-- Every build is there, as often as it is named. -/
  perm : (builds.map LoaderBuild.version).Perm versions
  sorted : builds.Pairwise fun a b => buildKey b ≤ buildKey a
  told : ∀ b ∈ builds, b.minecraft = neoforgeMinecraft b.version ∧ b.recommended = false
  unknown : ∀ b ∈ builds, b.minecraft = none → b.latest = false
  /-- Of each game version one build is marked, and none of it is newer. -/
  newest : ∀ mc, (∃ b ∈ builds, b.minecraft = some mc) → ∃ u b w, builds = u ++ b :: w ∧
    b.minecraft = some mc ∧ b.latest = true ∧ (∀ c ∈ u, c.minecraft ≠ some mc) ∧
    ∀ c ∈ w, c.minecraft = some mc → c.latest = false ∧ versionKey c.version ≤ versionKey b.version

/-- What is published of NeoForge is listed. -/
theorem neoforgeBuilds_listed (versions : List String) :
    Listed versions (neoforgeBuilds versions) := by
  have hsorted := pairwise_sortNewestFirst (versions.map neoforgeBuild)
  have hperm := perm_sortNewestFirst (versions.map neoforgeBuild)
  have hplain : ∀ b ∈ sortNewestFirst (versions.map neoforgeBuild), b.latest = false := by
    intro b hb
    obtain ⟨v, -, rfl⟩ := List.mem_map.1 (hperm.mem_iff.1 hb)
    rfl
  have hunmarked : (neoforgeBuilds versions).map unmarked =
      (sortNewestFirst (versions.map neoforgeBuild)).map unmarked := map_unmarked_mark
  have hpairwise : (neoforgeBuilds versions).Pairwise fun a b => buildKey b ≤ buildKey a := by
    -- the mark has no part in the order
    have h : ((sortNewestFirst (versions.map neoforgeBuild)).map unmarked).Pairwise
        fun a b => buildKey b ≤ buildKey a := List.pairwise_map.2 hsorted
    rw [← hunmarked] at h
    exact List.pairwise_map.1 h
  constructor
  case perm =>
    have hversions := congrArg (List.map LoaderBuild.version) hunmarked
    rw [List.map_map, List.map_map] at hversions
    have h := hperm.map LoaderBuild.version
    rw [List.map_map] at h
    have hid : (versions.map fun v => (neoforgeBuild v).version) = versions := List.map_id versions
    exact (List.Perm.of_eq hversions).trans (h.trans (List.Perm.of_eq hid))
  case sorted => exact hpairwise
  case told =>
    intro b hb
    have hmem : unmarked b ∈ (neoforgeBuilds versions).map unmarked := List.mem_map_of_mem hb
    rw [hunmarked] at hmem
    obtain ⟨a, ha, he⟩ := List.mem_map.1 hmem
    obtain ⟨v, -, rfl⟩ := List.mem_map.1 (hperm.mem_iff.1 ha)
    have hversion : v = b.version := congrArg LoaderBuild.version he
    exact ⟨hversion ▸ (congrArg LoaderBuild.minecraft he).symm,
      (congrArg LoaderBuild.recommended he).symm⟩
  case unknown =>
    intro b hb hnone
    obtain ⟨u, w, he⟩ := List.append_of_mem hb
    refine Bool.eq_false_iff.2 fun hlatest => ?_
    obtain ⟨mc, hmc, -⟩ := (latest_of_mark hplain he).1 hlatest
    rw [hnone] at hmc
    cases hmc
  case newest =>
    rintro mc ⟨b₀, hb₀, hmc₀⟩
    obtain ⟨b, hfind⟩ : ∃ b, (neoforgeBuilds versions).find? (fun b => b.minecraft = some mc) =
        some b := by
      rw [← Option.isSome_iff_exists, List.find?_isSome]
      exact ⟨b₀, hb₀, decide_eq_true hmc₀⟩
    obtain ⟨hmc, u, w, he, hu⟩ := List.find?_eq_some_iff_append.1 hfind
    have hmc := of_decide_eq_true hmc
    have hbefore : ∀ c ∈ u, c.minecraft ≠ some mc := by
      intro c hc
      simpa using hu c hc
    refine ⟨u, b, w, he, hmc, ?_, hbefore, fun c hc hcmc => ⟨?_, ?_⟩⟩
    · exact (latest_of_mark hplain he).2 ⟨mc, hmc, List.not_mem_nil, hbefore⟩
    · obtain ⟨w₁, w₂, rfl⟩ := List.append_of_mem hc
      rw [← List.cons_append, ← List.append_assoc] at he
      refine Bool.eq_false_iff.2 fun hlatest => ?_
      obtain ⟨mc', hmc', -, hfirst⟩ := (latest_of_mark hplain he).1 hlatest
      rw [hcmc, Option.some.injEq] at hmc'
      refine hfirst b (List.mem_append_right _ List.mem_cons_self) ?_
      rw [hmc, hmc']
    · have hrel := hpairwise
      rw [he] at hrel
      have hle := List.rel_of_pairwise_cons (List.pairwise_append.1 hrel).2.1 hc
      exact version_le_of_buildKey_le hle (hmc.trans hcmc.symm)

/-- What is read is listed. -/
theorem parseNeoforge_spec (body : Json) (builds : List LoaderBuild)
    (h : parseNeoforge body = some builds) : ∃ fields versions,
      body.record ["versions"] = some fields ∧
      Json.must (Json.listOf Json.asStr) (fields.lookup "versions") = some versions ∧
      Listed versions builds := by
  obtain ⟨fields, hfields, h⟩ := Option.bind_eq_some_iff.1 h
  obtain ⟨versions, hversions, h⟩ := Option.bind_eq_some_iff.1 h
  refine ⟨fields, versions, hfields, hversions, ?_⟩
  rw [← Option.some.inj h]
  exact neoforgeBuilds_listed versions

/-- Two builds for one version of the game and one for an older. -/
def threeNumbers : Json :=
  .obj [("isSnapshot", .bool false),
    ("versions", .arr [.str "21.1.9", .str "21.1.10", .str "20.4.1-beta"])]

theorem parseNeoforge_spec_three : ∃ fields versions,
    threeNumbers.record ["versions"] = some fields ∧
    Json.must (Json.listOf Json.asStr) (fields.lookup "versions") = some versions ∧
    Listed versions [⟨"21.1.10", some "1.21.1", false, true⟩,
      ⟨"21.1.9", some "1.21.1", false, false⟩, ⟨"20.4.1-beta", some "1.20.4", false, true⟩] :=
  parseNeoforge_spec threeNumbers _ (by decide +kernel)

/-! ## The document of Forge -/

/-- A build in the document, and what follows it. -/
structure Entry where
  minecraft : String
  version : String
  gap : String

def Entry.text (e : Entry) : List Char := e.minecraft.toList ++ '-' :: e.version.toList

/-- No mark begins in a text that a mark may follow. -/
def Quiet (gap : String) : Prop := ¬ openMark <:+: gap.toList ++ openMark.dropLast

instance : DecidablePred Quiet := fun _ => inferInstanceAs (Decidable (¬ _))

/-- A build that can be told: its game version has no hyphen, and there are no marks and no white
    space in it. -/
structure Entry.Plain (e : Entry) : Prop where
  hyphen : '-' ∉ e.minecraft.toList
  letters : ∀ c ∈ e.text, c ≠ '<' ∧ isWhiteSpace c = false
  gap : Quiet e.gap

/-- A build with its marks, and what follows. -/
def Entry.block (e : Entry) : List Char :=
  openMark ++ (e.text ++ closeMark ++ e.gap.toList)

def document (head : String) (entries : List Entry) : String :=
  String.ofList (head.toList ++ entries.flatMap Entry.block)

theorem splitOnce_append {c : Char} {a b : List Char} (h : c ∉ a) :
    splitOnce c (a ++ c :: b) = some (a, b) := by
  have hall : ∀ d ∈ a, decide (d ≠ c) = true := fun d hd =>
    decide_eq_true fun he => h (he ▸ hd)
  rw [splitOnce, if_pos (List.mem_append_right _ List.mem_cons_self),
    List.takeWhile_append_of_pos hall, List.dropWhile_append_of_pos hall]
  simp

/-- No mark begins in a quiet text, whether a mark follows it or nothing. -/
theorem Quiet.clear {gap : String} (h : Quiet gap) {b : List Char}
    (hb : b = [] ∨ ∃ c, b = openMark ++ c) :
    Clear openMark gap.toList b := by
  rintro u v he hv hp
  refine h ?_
  have hinfix : v ++ openMark.dropLast <:+: gap.toList ++ openMark.dropLast := by
    rw [← he, List.append_assoc]
    exact (List.suffix_append u _).isInfix
  refine List.IsInfix.trans ?_ hinfix
  rcases hb with rfl | ⟨c, rfl⟩
  · rw [List.append_nil] at hp
    exact (hp.trans (List.prefix_append _ _)).isInfix
  · -- a mark that begins in the text is over before the one that follows is
    have hlong : v ++ openMark.dropLast <+: v ++ (openMark ++ c) :=
      ⟨'>' :: c, by rw [List.append_assoc]; rfl⟩
    refine (List.prefix_of_prefix_length_le hp hlong ?_).isInfix
    have hpos := List.length_pos_iff.2 hv
    rw [List.length_append]
    have hmark : openMark.length = 9 := by decide
    have hshort : openMark.dropLast.length = 8 := by decide
    omega

theorem Entry.Plain.clear {e : Entry} (h : e.Plain) {b : List Char}
    (hb : b = [] ∨ ∃ c, b = openMark ++ c) :
    Clear openMark (e.text ++ closeMark ++ e.gap.toList) b := by
  have hopen : openMark = '<' :: openMark.tail := by decide
  have hclose : closeMark = '<' :: closeMark.tail := by decide
  have htext : '<' ∉ e.text := fun hmem => (h.letters '<' hmem).1 rfl
  rw [List.append_assoc]
  refine clear_append ?_ (clear_append ?_ (h.gap.clear hb))
  · rw [hopen]
    exact clear_of_not_mem htext
  · rw [hclose]
    refine clear_cons ?_ ?_
    · rw [hopen]
      intro hp
      have hletter : openMark.tail = 'v' :: openMark.tail.tail := by decide
      have hslash : closeMark.tail = '/' :: closeMark.tail.tail := by decide
      have htail := (List.cons_prefix_cons.1 hp).2
      rw [hletter, hslash] at htail
      exact absurd (List.cons_prefix_cons.1 htail).1 (by decide)
    · rw [hopen]
      exact clear_of_not_mem (by decide)

/-- The blocks of a document begin with a mark, or there are none. -/
theorem blocks_begin (entries : List Entry) : entries.flatMap Entry.block = [] ∨
    ∃ c, entries.flatMap Entry.block = openMark ++ c := by
  rcases entries with _ | ⟨e, entries⟩
  · exact .inl rfl
  · rw [List.flatMap_cons, Entry.block, List.append_assoc]
    exact .inr ⟨_, rfl⟩

theorem pieces_blocks {entries : List Entry} (h : ∀ e ∈ entries, e.Plain) (m : List Char) :
    pieces openMark 0 m (entries.flatMap Entry.block) =
      m :: entries.map fun e => e.text ++ closeMark ++ e.gap.toList := by
  have hsep : openMark ≠ [] := by decide
  induction entries generalizing m with
  | nil => exact pieces_nil
  | cons e entries ih =>
    have hblocks := blocks_begin entries
    rw [List.flatMap_cons, Entry.block, List.append_assoc, pieces_sep hsep,
      pieces_append ((h e List.mem_cons_self).clear hblocks), List.nil_append,
      ih fun d hd => h d (List.mem_cons_of_mem _ hd)]
    rfl

theorem forgeEntries_document {head : String} {entries : List Entry} (hhead : Quiet head)
    (h : ∀ e ∈ entries, e.Plain) :
    forgeEntries (document head entries) = entries.map Entry.text := by
  have hclose : closeMark = '<' :: closeMark.tail := by decide
  have hsep : closeMark ≠ [] := by decide
  rw [forgeEntries, document, String.toList_ofList,
    pieces_append (hhead.clear (blocks_begin entries)), pieces_blocks h, List.drop_succ_cons,
    List.drop_zero, List.filterMap_map]
  rw [← List.filterMap_eq_map]
  refine List.filterMap_congr fun e he => ?_
  have htext : '<' ∉ e.text := fun hmem => ((h e he).letters '<' hmem).1 rfl
  have hclear : Clear closeMark e.text (closeMark ++ e.gap.toList) := by
    rw [hclose]
    exact clear_of_not_mem htext
  rw [Function.comp_apply, List.append_assoc, pieces_append hclear, List.nil_append,
    pieces_sep hsep]
  rfl

/-- A document is read as it was written: every build in it is offered, with what is promoted, and
    the newest come first. -/
theorem parseForge_document {head : String} {entries : List Entry} (hhead : Quiet head)
    (h : ∀ e ∈ entries, e.Plain) (promotions : Option Json) :
    parseForge (document head entries) promotions =
        sortNewestFirst (entries.map fun e =>
          forgeBuild (promosOf promotions) e.minecraft e.version) ∧
      (parseForge (document head entries) promotions).Perm (entries.map fun e =>
        forgeBuild (promosOf promotions) e.minecraft e.version) ∧
      (parseForge (document head entries) promotions).Pairwise fun a b =>
        buildKey b ≤ buildKey a := by
  have hread : parseForge (document head entries) promotions = sortNewestFirst
      (entries.map fun e => forgeBuild (promosOf promotions) e.minecraft e.version) := by
    rw [parseForge, forgeEntries_document hhead h, List.filterMap_map, ← List.filterMap_eq_map]
    refine congrArg sortNewestFirst (List.filterMap_congr fun e he => ?_)
    have htrim : trim (String.ofList e.text) = String.ofList e.text := by
      refine trim_eq_self fun c hc => ?_
      rw [String.toList_ofList] at hc
      exact ((h e he).letters c hc).2
    rw [Function.comp_apply, htrim, String.toList_ofList, Entry.text,
      splitOnce_append (h e he).hyphen, Option.map_some, String.ofList_toList,
      String.ofList_toList]
    rfl
  rw [hread]
  exact ⟨rfl, perm_sortNewestFirst _, pairwise_sortNewestFirst _⟩

/-- A build that is neither the latest nor recommended, among others. -/
def threeEntries : List Entry :=
  [⟨"1.12.2", "14.23.5.2860", "\n  "⟩, ⟨"1.12.2", "14.23.5.2859", "\n  "⟩,
    ⟨"1.12.2", "14.23.5.2864", "</versions></metadata>"⟩]

theorem parseForge_document_three :
    parseForge (document "<metadata><versions>" threeEntries) none =
        sortNewestFirst (threeEntries.map fun e =>
          forgeBuild (promosOf none) e.minecraft e.version) ∧
      (parseForge (document "<metadata><versions>" threeEntries) none).Perm
        (threeEntries.map fun e => forgeBuild (promosOf none) e.minecraft e.version) ∧
      (parseForge (document "<metadata><versions>" threeEntries) none).Pairwise fun a b =>
        buildKey b ≤ buildKey a := by
  have hplain : (threeEntries.all fun e => '-' ∉ e.minecraft.toList ∧
      (e.text.all fun c => c ≠ '<' ∧ isWhiteSpace c = false) ∧ Quiet e.gap) = true := by
    decide +kernel
  refine parseForge_document (by decide +kernel) (fun e he => ?_) none
  obtain ⟨hhyphen, hletters, hgap⟩ := of_decide_eq_true (List.all_eq_true.1 hplain e he)
  exact ⟨hhyphen, fun c hc => of_decide_eq_true (List.all_eq_true.1 hletters c hc), hgap⟩

example : (parseForge (document "<metadata><versions>" threeEntries) none).map
    LoaderBuild.version = ["14.23.5.2864", "14.23.5.2860", "14.23.5.2859"] := by
  decide +kernel

end LoaderBuilds

end Smrt
