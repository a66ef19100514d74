import Mathlib.Data.Prod.Lex
import Smrt.Lib.Decimal
import Smrt.Lib.Pages
import Smrt.Lib.Worklist
import Smrt.Registry.Tables

/-!
# Browsing the registry

The mods of the registry by name, narrowed to a text, a loader and a version of the game
(`Catalog.listMods`). A loader accepts what suits one of its ancestors (`ancestors`). The listing goes
on after a mod that is named by its id: the name that it sorts under is looked up.

* `pairwise_modRows`, `modRows_after`: the listing is in the order of names and ids, and goes on in it;
* `modRows_extends`: rows that are added to the tables take nothing out of the listing;
* `listMods_eq`: what is shown of a mod does not depend on which others are on its page.
-/

namespace Smrt

namespace Registry

open Tables

/-! ## Texts -/

/-- `text LIKE pattern`, with `\` before a letter that stands for itself. -/
def like : List Char → List Char → Bool
  | [], text => text.isEmpty
  | '%' :: pattern, text => text.tails.any (like pattern)
  | '_' :: _, [] => false
  | '_' :: pattern, _ :: text => like pattern text
  | ['\\'], _ => false
  | '\\' :: _ :: _, [] => false
  | '\\' :: c :: pattern, d :: text => c.toLower = d.toLower && like pattern text
  | _ :: _, [] => false
  | c :: pattern, d :: text => c.toLower = d.toLower && like pattern text

def likeEscape (s : String) : List Char :=
  s.toList.flatMap fun c => if c = '\\' ∨ c = '%' ∨ c = '_' then ['\\', c] else [c]

/-- Text without case, as it is sorted. -/
def lower (s : String) : String := String.ofList (noCase s)

/-- A letter in a JSON string. -/
def jsonLetter (c : Char) : List Char :=
  match c.toNat with
  | 0x08 => ['\\', 'b']
  | 0x09 => ['\\', 't']
  | 0x0A => ['\\', 'n']
  | 0x0C => ['\\', 'f']
  | 0x0D => ['\\', 'r']
  | 0x22 => ['\\', '"']
  | 0x5C => ['\\', '\\']
  | n => if n < 0x20 then ['\\', 'u', '0', '0', (n / 16).digitChar, (n % 16).digitChar] else [c]

/-- The cell of the game versions of a file: an array of JSON, or nothing. -/
def mcCell (versions : List String) : Option (List Char) :=
  if versions = [] then none
  else some ('[' :: [','].intercalate (versions.map fun v =>
    '"' :: v.toList.flatMap jsonLetter ++ ['"']) ++ [']'])

/-- The numbers of a game version; a segment without one comes first. -/
def mcVersionKey (v : String) : List ℤ :=
  (v.toList.splitOnP fun c => c = '.').map fun seg =>
    (parseI64 (String.ofList (seg.takeWhile Char.isDigit))).getD (-1)

def sortMc (versions : List String) : List String :=
  versions.insertionSort fun v w =>
    mcVersionKey v < mcVersionKey w ∨ mcVersionKey v = mcVersionKey w ∧ v ≤ w

/-- The texts of a list in their order, each once. -/
def sortedSet (l : List String) : List String := (l.insertionSort (· ≤ ·)).dedup

/-! ## Loaders -/

/-- What is reached from a loader by going to parents, and itself. -/
def family (parents : List (String × String)) (loader : String) : Finset String :=
  Worklist.closure (fun l => (parents.filter fun p => p.1 = l).map Prod.snd)
    (parents.map Prod.fst).toFinset ∅ [loader]

theorem mem_family {parents : List (String × String)} {loader l : String} :
    l ∈ family parents loader ↔
      Relation.ReflTransGen (fun x y => (x, y) ∈ parents) loader l := by
  have hU : Worklist.Supported (fun l => (parents.filter fun p => p.1 = l).map Prod.snd)
      (parents.map Prod.fst).toFinset := by
    intro l hl
    refine List.map_eq_nil_iff.2 (List.filter_eq_nil_iff.2 fun p hp he => hl ?_)
    rw [List.mem_toFinset]
    exact List.mem_map.2 ⟨p, hp, of_decide_eq_true he⟩
  have hsucc : (fun x y => y ∈ (parents.filter fun p => p.1 = x).map Prod.snd) =
      fun x y => (x, y) ∈ parents := by
    funext x y
    simp
  rw [family, Worklist.mem_closure hU fun _ h => absurd h (Finset.notMem_empty _), hsucc]
  simp

/-- The loaders that a loader descends from, and itself. -/
def ancestors (parents : List (String × String)) (loader : String) : Finset String :=
  Worklist.closure (fun l => (parents.filter fun p => p.1 = l).map Prod.snd)
    (parents.map Prod.fst).toFinset ∅ [lower loader]

theorem ancestors_eq {parents : List (String × String)} {loader : String} :
    ancestors parents loader = family parents (lower loader) := rfl

theorem mem_ancestors {parents : List (String × String)} {loader l : String} :
    l ∈ ancestors parents loader ↔
      Relation.ReflTransGen (fun x y => (x, y) ∈ parents) (lower loader) l := mem_family

/-! ## The listing -/

/-- The registry with the family of the loaders, a loader and its parent in a row. -/
structure Catalog extends Tables where
  loaderParents : List (String × String)

/-- What the listing is narrowed to. -/
structure ModsFilter where
  q : Option String
  loader : Option String
  mc : Option String

/-- A line of the listing. -/
structure ModSummary where
  modId : ℕ
  name : String
  slug : Option String
  loaders : List String
  mcVersions : List String
  versionCount : ℕ
  modrinthProjectId : Option String
  iconSha1 : Option String
  deriving DecidableEq

/-- The name that a mod sorts under. -/
def orderName (m : ModRow) : String := lower ((m.canonicalName.or m.slug).getD "")

/-- The order of the listing. -/
def modKey (r : ℕ × ModRow) : String ×ₗ ℕ := toLex (orderName r.2, r.1)

namespace Catalog

variable (t : Catalog) (f : ModsFilter)

/-- Whether a mod is in the listing. -/
def Lists (r : ℕ × ModRow) : Prop :=
  (∀ q ∈ f.q, (∃ name ∈ r.2.canonicalName, like ('%' :: likeEscape q ++ ['%']) name.toList) ∨
    (∃ slug ∈ r.2.slug, like ('%' :: likeEscape q ++ ['%']) slug.toList) ∨
    ∃ a ∈ t.aliases, a.modId = r.1 ∧ like ('%' :: likeEscape q ++ ['%']) a.externalKey.toList) ∧
  (∀ loader ∈ f.loader, ∃ v ∈ t.versions.rows, v.2.modId = r.1 ∧ ∃ target ∈ t.targets,
    target.1 = v.1 ∧ (target.2 = "any" ∨ lower target.2 ∈ ancestors t.loaderParents loader)) ∧
  ∀ mc ∈ f.mc, ∃ v ∈ t.versions.rows, v.2.modId = r.1 ∧ ∃ cell ∈ mcCell v.2.mcVersions,
    like ('%' :: '"' :: likeEscape mc ++ ['"', '%']) cell

instance : DecidablePred (t.Lists f) := fun _ => inferInstanceAs (Decidable (_ ∧ _ ∧ _))

/-- Whether a mod comes after the one that is named. -/
def Resumes (after : Option ℤ) (r : ℕ × ModRow) : Prop :=
  ∀ last ∈ after, ∃ c ∈ t.mods.rows, (c.1 : ℤ) = last ∧
    (orderName c.2 < orderName r.2 ∨ orderName r.2 = orderName c.2 ∧ last < r.1)

instance {after : Option ℤ} : DecidablePred (t.Resumes after) := fun _ =>
  inferInstanceAs (Decidable (∀ _ ∈ after, _))

def modRows (after : Option ℤ) (take : Option ℕ) : List (ℕ × ModRow) :=
  Pages.limited take ((t.mods.rows.filter fun r => t.Lists f r ∧ t.Resumes after r).insertionSort
    fun r s => modKey r ≤ modKey s)

/-- The files of a mod, read only for some mods. -/
def filesOf (only : Option (List ℕ)) (modId : ℕ) : List (ℕ × VersionRow) :=
  t.versions.rows.filter fun v => v.2.modId = modId ∧ ∀ ids ∈ only, v.2.modId ∈ ids

def summary (only : Option (List ℕ)) (r : ℕ × ModRow) : ModSummary where
  modId := r.1
  name := ((r.2.canonicalName.or r.2.slug).or (t.nameOf .modid r.1)).getD ("#" ++ toString r.1)
  slug := r.2.slug
  loaders := sortedSet ((t.filesOf only r.1).flatMap fun v =>
    (t.targets.filter fun target => target.1 = v.1).map Prod.snd)
  mcVersions := sortMc (sortedSet ((t.filesOf only r.1).flatMap fun v => v.2.mcVersions))
  versionCount := (t.filesOf none r.1).length
  modrinthProjectId := t.nameOf .modrinth r.1
  iconSha1 := (t.filesOf none r.1).getLast?.map fun v => v.2.sha1

/-- The mods of the listing, on from a mod and so many at most. What their files say is read only for
    the mods of a page. -/
def listMods (after : Option ℤ) (take : Option ℕ) : List ModSummary :=
  let rows := t.modRows f after take
  rows.map (t.summary (take.map fun _ => rows.map Prod.fst))

variable {t f}

/-- What is read for some mods is, for one of them, what is read for all. -/
theorem summary_some {ids : List ℕ} {r : ℕ × ModRow} (h : r.1 ∈ ids) :
    t.summary (some ids) r = t.summary none r := by
  have hfiles : t.filesOf (some ids) r.1 = t.filesOf none r.1 := by
    refine List.filter_congr fun v _ => ?_
    simp only [Option.mem_some_iff, forall_eq', Option.not_mem_none, IsEmpty.forall_iff,
      implies_true, and_true, decide_eq_decide]
    exact ⟨And.left, fun hv => ⟨hv, hv ▸ h⟩⟩
  rw [summary, summary, hfiles]

/-- What is shown of a mod does not depend on which others are on its page. -/
theorem listMods_eq {after : Option ℤ} {take : Option ℕ} :
    t.listMods f after take = (t.modRows f after take).map (t.summary none) := by
  cases take with
  | none => rfl
  | some n => exact List.map_congr_left fun r hr => summary_some (List.mem_map_of_mem hr)

/-! ## The order of the listing -/

/-- A mod is known by its place. -/
theorem eq_of_modKey_eq {r s : ℕ × ModRow} (hr : r ∈ t.mods.rows) (hs : s ∈ t.mods.rows)
    (h : modKey r = modKey s) : r = s :=
  Table.eq_of_id_eq t.mods.increasing hr hs (congrArg (fun k => (ofLex k).2) h)

theorem mem_modRows {r : ℕ × ModRow} :
    r ∈ t.modRows f none none ↔ r ∈ t.mods.rows ∧ t.Lists f r := by
  rw [modRows, Pages.limited, List.mem_insertionSort, List.mem_filter]
  simp [Resumes]

theorem pairwise_modRows :
    (t.modRows f none none).Pairwise fun r s => modKey r < modKey s :=
  Pages.pairwise_insertionSort (t.mods.nodup_rows.filter _) fun _ hr _ hs =>
    eq_of_modKey_eq (List.mem_of_mem_filter hr) (List.mem_of_mem_filter hs)

/-- After a mod, the listing goes on in its order. -/
theorem modRows_after {c : ℕ × ModRow} (hc : c ∈ t.mods.rows) (take : Option ℕ) :
    t.modRows f (some (c.1 : ℤ)) take =
      Pages.limited take (Pages.after modKey (some (modKey c)) (t.modRows f none none)) := by
  have hresumes : ∀ r, t.Resumes (some (c.1 : ℤ)) r ↔ ∀ k ∈ some (modKey c), k < modKey r := by
    intro r
    simp only [Resumes, Option.mem_some_iff, forall_eq', modKey, Prod.Lex.toLex_lt_toLex]
    constructor
    · rintro ⟨d, hd, hid, h⟩
      obtain rfl := Table.eq_of_id_eq t.mods.increasing hd hc (Int.ofNat_inj.1 hid)
      exact h.imp_right fun h => ⟨h.1.symm, Int.ofNat_lt.1 h.2⟩
    · exact fun h => ⟨c, hc, rfl, h.imp_right fun h => ⟨h.1.symm, Int.ofNat_lt.2 h.2⟩⟩
  have hall : ∀ r, t.Resumes none r := fun _ _ h => absurd h (Option.not_mem_none _)
  rw [modRows, modRows, Pages.after, Pages.limited, ← Pages.insertionSort_filter
    (t.mods.nodup_rows.filter _) fun _ hr _ hs =>
      eq_of_modKey_eq (List.mem_of_mem_filter hr) (List.mem_of_mem_filter hs), List.filter_filter]
  congr 2
  refine List.filter_congr fun r _ => ?_
  rw [← Bool.decide_and, decide_eq_decide, hresumes, and_iff_left (hall r)]
  exact and_comm

/-! ## Added rows -/

/-- The rows that the listing reads are there in the other catalog. -/
structure Extends (t t' : Catalog) : Prop where
  mods : t.mods.Extends t'.mods
  aliases : t.aliases ⊆ t'.aliases
  versions : t.versions.Extends t'.versions
  targets : t.targets ⊆ t'.targets
  loaderParents : t.loaderParents ⊆ t'.loaderParents

theorem extends_self (t : Catalog) : t.Extends t :=
  ⟨fun _ h => h, fun _ h => h, fun _ h => h, fun _ h => h, fun _ h => h⟩

theorem Extends.ancestors {t t' : Catalog} (h : t.Extends t') (loader : String) :
    ancestors t.loaderParents loader ⊆ ancestors t'.loaderParents loader := by
  intro l hl
  rw [mem_ancestors] at hl ⊢
  exact Relation.ReflTransGen.mono (fun _ _ hxy => h.loaderParents hxy) _ _ hl

/-- A mod that is listed stays listed when rows are added. -/
theorem Extends.lists {t t' : Catalog} (h : t.Extends t') {r : ℕ × ModRow} (hr : t.Lists f r) :
    t'.Lists f r := by
  refine ⟨fun q hq => ?_, fun loader hloader => ?_, fun mc hmc => ?_⟩
  · refine (hr.1 q hq).imp_right fun h' => h'.imp_right ?_
    rintro ⟨a, ha, hlike⟩
    exact ⟨a, h.aliases ha, hlike⟩
  · obtain ⟨v, hv, hmod, target, htarget, hfile, hsuits⟩ := hr.2.1 loader hloader
    exact ⟨v, h.versions hv, hmod, target, h.targets htarget, hfile,
      hsuits.imp_right fun hl => h.ancestors loader hl⟩
  · obtain ⟨v, hv, hmod, hcell⟩ := hr.2.2 mc hmc
    exact ⟨v, h.versions hv, hmod, hcell⟩

/-- Rows that are added to the tables take nothing out of the listing. -/
theorem modRows_extends {t t' : Catalog} (h : t.Extends t') :
    t.modRows f none none ⊆ t'.modRows f none none := by
  intro r hr
  rw [mem_modRows] at hr ⊢
  exact ⟨h.mods hr.1, h.lists hr.2⟩

end Catalog

end Registry

end Smrt
