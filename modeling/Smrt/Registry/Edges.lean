import Mathlib.Data.List.Sort
import Smrt.Lib.Glob
import Smrt.Lib.Rows
import Smrt.Registry.Tables

/-!
# The edges of a mod

The relations that touch a mod, in both directions (`edgesForMod`): those that start at it, with the
mods that their targets name, and those of other mods whose targets are written like one of its
names.

The two directions read the targets in different ways: one resolves a target to a mod, the other
compares it with the names of the mod. Where every target is spelled as these names are
(`Spelled`), the two ends of an edge agree (`edgesForMod_agree`).
-/

namespace Smrt

namespace Registry

open Tables

/-! ## Edges -/

/-- Whether an edge starts at the mod or ends there. -/
inductive Dir
  | out
  | in
  deriving DecidableEq

structure ModEdge where
  dir : Dir
  otherModId : Option ℕ
  otherName : String
  kind : RelKind
  source : Source
  deriving DecidableEq

/-- The order of the kinds, by their words. -/
def RelKind.rank : RelKind → ℕ
  | .conflicts => 0
  | .optionalDep => 1
  | .provides => 2
  | .recommends => 3
  | .requires => 4

/-- A mod's name as it is shown. -/
def Tables.modName (t : Tables) (modId : ℕ) : Except DbError String :=
  match t.mods.get? modId with
  | none => .error .noRows
  | some m => .ok (((m.canonicalName.or m.slug).or (t.modidForMod modId)).getD
      ("#" ++ toString modId))

def outOrder (r r' : RelationRow) : Prop :=
  r.kind.rank < r'.kind.rank ∨ (r.kind.rank = r'.kind.rank ∧ r.target ≤ r'.target)

instance : DecidableRel outOrder := fun _ _ => inferInstanceAs (Decidable (_ ∨ _))

def inOrder (r r' : RelationRow) : Prop :=
  r.kind.rank < r'.kind.rank ∨ (r.kind.rank = r'.kind.rank ∧ r.fromModId ≤ r'.fromModId)

instance : DecidableRel inOrder := fun _ _ => inferInstanceAs (Decidable (_ ∨ _))

/-- The edge of a relation that starts at the mod. -/
def Tables.outEdge (t : Tables) (r : RelationRow) : Except DbError ModEdge := do
  let other := t.modIdForSelector r.target
  let name ← match other with
    | some id => t.modName id
    | none => pure r.target
  pure { dir := .out, otherModId := other, otherName := name, kind := r.kind, source := r.source }

/-- The edge of a relation that ends at the mod. -/
def Tables.inEdge (t : Tables) (r : RelationRow) : Except DbError ModEdge := do
  let name ← t.modName r.fromModId
  pure { dir := .in, otherModId := some r.fromModId, otherName := name, kind := r.kind,
         source := r.source }

def Tables.modids (t : Tables) (modId : ℕ) : List String :=
  (t.aliases.filter fun a => a.modId = modId ∧ a.source = .modid).map AliasRow.externalKey

/-- The names of a mod, as a target may be written: its modids, and its project. -/
def Tables.selectors (t : Tables) (modId : ℕ) : List String :=
  t.modids modId ++
    ((t.modrinthIdForMod modId).map fun pid => "modrinth:" ++ pid).toList

/-- A target is written like a name, perhaps with a range behind it. -/
def matchesSelector (sel target : String) : Bool := target = sel || glob (sel ++ "@" ++ "*") target

/-- What an edge is listed once for. -/
def ModEdge.key (e : ModEdge) : Dir × Option ℕ × String × RelKind :=
  (e.dir, e.otherModId, e.otherName, e.kind)

/-- The edges, each once, but for those that were seen. -/
def collapse (seen : List (Dir × Option ℕ × String × RelKind)) : List ModEdge → List ModEdge
  | [] => []
  | e :: l => if e.key ∈ seen then collapse seen l else e :: collapse (e.key :: seen) l

def Tables.edgesForMod (t : Tables) (modId : ℕ) : Except DbError (List ModEdge) := do
  let outgoing ← ((t.relations.filter fun r => r.fromModId = modId).insertionSort outOrder).mapM
    t.outEdge
  let incoming ← (t.selectors modId).mapM fun sel =>
    ((t.relations.filter fun r =>
      matchesSelector sel r.target ∧ r.fromModId ≠ modId).insertionSort inOrder).mapM t.inEdge
  pure (collapse [] (outgoing ++ incoming.flatten))

/-! ## The two ends -/

/-- A target without the range behind `@`. -/
def withoutRange (target : String) : String :=
  String.ofList (target.toList.takeWhile fun c => c ≠ '@')

/-- A target is spelled as the names of a mod are, or it has nothing to do with them. -/
structure Tables.Spelled (t : Tables) (modId : ℕ) (target : String) : Prop where
  /-- It is written like a name of the mod exactly if it is that name, apart from the range: no
      letter of the name means anything to a pattern. -/
  literal : ∀ sel ∈ t.selectors modId, matchesSelector sel target = true ↔ withoutRange target = sel
  /-- A project of the mod is the one that the mod is known by. -/
  project : ∀ pid, t.modIdForAlias .modrinth pid = some modId →
    withoutRange target = "modrinth:" ++ pid → t.modrinthIdForMod modId = some pid
  /-- A modid of the mod is spelled in its own case. -/
  letterCase : stripPrefix (withoutRange target) "modrinth:" = none →
    ∀ a ∈ t.aliases, a.source = .modid → noCase a.externalKey = noCase (withoutRange target) →
      a.modId = modId → withoutRange target ∈ t.modids modId
  /-- A modid of the mod is no project, and no modid of another mod in another case. -/
  only : withoutRange target ∈ t.modids modId →
    stripPrefix (withoutRange target) "modrinth:" = none ∧
      ∀ a ∈ t.aliases, a.source = .modid → noCase a.externalKey = noCase (withoutRange target) →
        a.modId = modId

/-- A name without letters that mean something to a pattern is matched by itself only, with a range
    behind it or without one. -/
theorem matchesSelector_of_plain {sel target : String} (hp : Plain sel.toList)
    (hat : ∀ c ∈ sel.toList, c ≠ '@') :
    matchesSelector sel target = true ↔ withoutRange target = sel := by
  have hplain : Plain (sel ++ "@").toList := by
    rw [String.toList_append]
    exact List.forall_mem_append.2 ⟨hp, (by decide : Plain "@".toList)⟩
  have hname : withoutRange target = sel ↔
      (target.toList.takeWhile fun c => c ≠ '@') = sel.toList := by
    rw [withoutRange, ← String.toList_inj, String.toList_ofList]
  have htake : ∀ l, ((sel.toList ++ l).takeWhile fun c => c ≠ '@') =
      sel.toList ++ l.takeWhile fun c => c ≠ '@' :=
    fun l => List.takeWhile_append_of_pos fun c hc => decide_eq_true (hat c hc)
  rw [matchesSelector, Bool.or_eq_true, decide_eq_true_eq, glob_plain_star hplain, hname,
    String.toList_append]
  constructor
  · rintro (rfl | ⟨range, he⟩)
    · simpa using htake []
    · rw [← he, List.append_assoc, htake]
      simp
  · intro he
    have hsplit := List.takeWhile_append_dropWhile (p := fun c => c ≠ '@') (l := target.toList)
    rcases hrest : target.toList.dropWhile (fun c => c ≠ '@') with _ | ⟨c, range⟩
    · rw [hrest, List.append_nil, he] at hsplit
      exact .inl (String.toList_inj.1 hsplit.symm)
    · have hc : c = '@' := by
        have hhead := List.head?_dropWhile_not (fun c => c ≠ '@') target.toList
        rw [hrest] at hhead
        simpa using hhead
      rw [hrest, he, hc] at hsplit
      exact .inr ⟨range, by rw [← hsplit]; simp⟩

section Ends

variable {t : Tables}

theorem modIdForSelector_eq (selector : String) : t.modIdForSelector selector =
    match stripPrefix (withoutRange selector) "modrinth:" with
    | some pid => t.modIdForAlias .modrinth pid
    | none => (t.aliases.find? fun a =>
        a.source = .modid ∧ noCase a.externalKey = noCase (withoutRange selector)).map
          AliasRow.modId := rfl

theorem mem_modids {modId : ℕ} {m : String} : m ∈ t.modids modId ↔
    ∃ a ∈ t.aliases, a.modId = modId ∧ a.source = .modid ∧ a.externalKey = m := by
  simp only [Tables.modids, List.mem_map, List.mem_filter, decide_eq_true_eq, and_assoc]

/-- What is known of a mod's project is one of its names. -/
theorem Tables.Integrity.owner_of_modrinthIdForMod (ht : t.Integrity) {modId : ℕ} {pid : String}
    (h : t.modrinthIdForMod modId = some pid) : t.modIdForAlias .modrinth pid = some modId := by
  obtain ⟨a, ha, rfl⟩ := Option.map_eq_some_iff.1 h
  have hkey : a.modId = modId ∧ a.source = .modrinth := of_decide_eq_true
    (List.find?_some (p := fun a : AliasRow => a.modId = modId ∧ a.source = .modrinth) ha)
  exact ht.modIdForAlias_eq_some.2 ⟨a, List.mem_of_find?_eq_some ha, hkey.2, rfl, hkey.1⟩

/-- What is spelled as the names of a mod are is written like one exactly if it names the mod. -/
theorem Tables.Spelled.matches_iff {modId : ℕ} {target : String} (h : t.Spelled modId target)
    (ht : t.Integrity) : (∃ sel ∈ t.selectors modId, matchesSelector sel target = true) ↔
      t.modIdForSelector target = some modId := by
  have hsel : (∃ sel ∈ t.selectors modId, matchesSelector sel target = true) ↔
      withoutRange target ∈ t.selectors modId :=
    ⟨fun ⟨sel, hmem, hm⟩ => (h.literal sel hmem).1 hm ▸ hmem,
      fun hmem => ⟨_, hmem, (h.literal _ hmem).2 rfl⟩⟩
  rw [hsel, modIdForSelector_eq, selectors, List.mem_append]
  rcases hstrip : stripPrefix (withoutRange target) "modrinth:" with _ | pid
  · -- A modid: the names without regard to case are of one mod.
    have hproject : withoutRange target ∉
        ((t.modrinthIdForMod modId).map fun pid => "modrinth:" ++ pid).toList := by
      intro hmem
      obtain ⟨pid, -, he⟩ := Option.map_eq_some_iff.1 (Option.mem_toList.1 hmem)
      exact absurd (hstrip.symm.trans (stripPrefix_eq_some.2 he.symm)) nofun
    rw [or_iff_left hproject]
    dsimp only
    rw [Option.map_eq_some_iff]
    constructor
    · intro hmem
      obtain ⟨a, ha, hmod, hsource, hkey⟩ := mem_modids.1 hmem
      rcases hfind : t.aliases.find? (fun a =>
          a.source = .modid ∧ noCase a.externalKey = noCase (withoutRange target)) with _ | a'
      · exact absurd (decide_eq_true ⟨hsource, congrArg noCase hkey⟩)
          (List.find?_eq_none.1 hfind a ha)
      · have hkey' : a'.source = .modid ∧ noCase a'.externalKey = noCase (withoutRange target) :=
          of_decide_eq_true (List.find?_some (p := fun a : AliasRow =>
            a.source = .modid ∧ noCase a.externalKey = noCase (withoutRange target)) hfind)
        exact ⟨a', hfind, (h.only hmem).2 a' (List.mem_of_find?_eq_some hfind) hkey'.1 hkey'.2⟩
    · rintro ⟨a, ha, hmod⟩
      have hkey : a.source = .modid ∧ noCase a.externalKey = noCase (withoutRange target) :=
        of_decide_eq_true (List.find?_some (p := fun a : AliasRow =>
          a.source = .modid ∧ noCase a.externalKey = noCase (withoutRange target)) ha)
      exact h.letterCase hstrip a (List.mem_of_find?_eq_some ha) hkey.1 hkey.2 hmod
  · -- A project: the one that the mod is known by.
    have hname := stripPrefix_eq_some.1 hstrip
    have hmodid : withoutRange target ∉ t.modids modId := fun hmem =>
      absurd ((h.only hmem).1.symm.trans hstrip) nofun
    rw [or_iff_right hmodid, Option.mem_toList]
    constructor
    · intro hmem
      obtain ⟨pid', hpid', he⟩ := Option.map_eq_some_iff.1 hmem
      have hpid := Option.some.inj ((stripPrefix_eq_some.2 he.symm).symm.trans hstrip)
      exact ht.owner_of_modrinthIdForMod (hpid ▸ hpid')
    · intro howner
      rw [h.project pid howner hname, hname]
      rfl

/-! ## The edges that are listed -/

theorem exists_mem_collapse {seen : List (Dir × Option ℕ × String × RelKind)} {l : List ModEdge}
    {k : Dir × Option ℕ × String × RelKind} :
    (∃ e ∈ collapse seen l, e.key = k) ↔ k ∉ seen ∧ ∃ e ∈ l, e.key = k := by
  induction l generalizing seen with
  | nil => simp [collapse]
  | cons e l ih =>
    rw [collapse]
    split_ifs with hseen
    · rw [ih, List.exists_mem_cons_iff]
      refine and_congr_right fun hk => (or_iff_right fun he => hk ?_).symm
      exact he ▸ hseen
    · rw [List.exists_mem_cons_iff, ih, List.exists_mem_cons_iff, List.mem_cons, not_or]
      by_cases hk : e.key = k
      · exact ⟨fun _ => ⟨hk ▸ hseen, .inl hk⟩, fun _ => .inl hk⟩
      · have hne : k ≠ e.key := fun h => hk h.symm
        simp [hk, hne]

theorem Tables.modName_of_hasMod {modId : ℕ} (h : t.HasMod modId) : ∃ name, t.modName modId = .ok name := by
  obtain ⟨m, hm⟩ := Option.isSome_iff_exists.1 h
  rw [modName, hm]
  exact ⟨_, rfl⟩

/-- The edges have what is asked for. -/
def Lists (edges : List ModEdge) (dir : Dir) (other : Option ℕ) (kind : RelKind) : Prop :=
  ∃ e ∈ edges, e.dir = dir ∧ e.otherModId = other ∧ e.kind = kind

theorem Tables.Integrity.outEdge_spec (ht : t.Integrity) (r : RelationRow) : ∃ e,
    t.outEdge r = .ok e ∧ e.dir = .out ∧ e.otherModId = t.modIdForSelector r.target ∧
      e.kind = r.kind := by
  rw [outEdge]
  dsimp only
  rcases hother : t.modIdForSelector r.target with _ | id
  · exact ⟨_, rfl, rfl, rfl, rfl⟩
  · obtain ⟨name, hname⟩ := modName_of_hasMod (ht.hasMod_of_selector hother)
    dsimp only
    rw [hname]
    exact ⟨_, rfl, rfl, rfl, rfl⟩

theorem Tables.Integrity.inEdge_spec (ht : t.Integrity) {r : RelationRow} (hr : r ∈ t.relations) :
    ∃ e, t.inEdge r = .ok e ∧ e.dir = .in ∧ e.otherModId = some r.fromModId ∧ e.kind = r.kind := by
  obtain ⟨name, hname⟩ := modName_of_hasMod (ht.relationMod r hr)
  rw [inEdge, hname]
  exact ⟨_, rfl, rfl, rfl, rfl⟩

theorem lists_collapse {l : List ModEdge} {dir : Dir} {other : Option ℕ} {kind : RelKind} :
    Lists (collapse [] l) dir other kind ↔ Lists l dir other kind := by
  constructor
  · rintro ⟨e, he, hdir, hother, hkind⟩
    obtain ⟨-, e', he', hkey⟩ := exists_mem_collapse.1 ⟨e, he, rfl⟩
    simp only [ModEdge.key, Prod.mk.injEq] at hkey
    exact ⟨e', he', hkey.1.trans hdir, hkey.2.1.trans hother, hkey.2.2.2.trans hkind⟩
  · rintro ⟨e, he, hdir, hother, hkind⟩
    obtain ⟨e', he', hkey⟩ := exists_mem_collapse.2 ⟨List.not_mem_nil, e, he, rfl⟩
    simp only [ModEdge.key, Prod.mk.injEq] at hkey
    exact ⟨e', he', hkey.1.trans hdir, hkey.2.1.trans hother, hkey.2.2.2.trans hkind⟩

/-- The edges that are listed for a mod: its own relations, with the mods that their targets name,
    and the relations of others that are written like one of its names. -/
theorem Tables.Integrity.edgesForMod_spec (ht : t.Integrity) (modId : ℕ) : ∃ edges,
    t.edgesForMod modId = .ok edges ∧
      (∀ other kind, Lists edges .out other kind ↔ ∃ r ∈ t.relations, r.fromModId = modId ∧
        t.modIdForSelector r.target = other ∧ r.kind = kind) ∧
      ∀ other kind, Lists edges .in other kind ↔ ∃ r ∈ t.relations, r.fromModId ≠ modId ∧
        (∃ sel ∈ t.selectors modId, matchesSelector sel r.target = true) ∧
          some r.fromModId = other ∧ r.kind = kind := by
  obtain ⟨outgoing, hout⟩ := exists_mapM_eq_ok (f := t.outEdge)
    (l := (t.relations.filter fun r => r.fromModId = modId).insertionSort outOrder) fun r _ =>
      (ht.outEdge_spec r).imp fun _ h => h.1
  have hin : ∀ sel ∈ t.selectors modId, ∃ es, ((t.relations.filter fun r =>
      matchesSelector sel r.target ∧ r.fromModId ≠ modId).insertionSort inOrder).mapM t.inEdge =
        .ok es := fun sel _ => exists_mapM_eq_ok fun r hr => by
    rw [List.mem_insertionSort] at hr
    exact (ht.inEdge_spec (List.mem_of_mem_filter hr)).imp fun _ h => h.1
  obtain ⟨incoming, hinc⟩ := exists_mapM_eq_ok hin
  have houtgoing : ∀ e, e ∈ outgoing ↔ ∃ r ∈ t.relations, r.fromModId = modId ∧ t.outEdge r = .ok e := by
    intro e
    rw [mem_of_mapM_eq_ok hout]
    simp only [List.mem_insertionSort, List.mem_filter, decide_eq_true_eq, and_assoc]
  have hincoming : ∀ e, e ∈ incoming.flatten ↔ ∃ r ∈ t.relations, r.fromModId ≠ modId ∧
      (∃ sel ∈ t.selectors modId, matchesSelector sel r.target = true) ∧ t.inEdge r = .ok e := by
    intro e
    rw [List.mem_flatten]
    constructor
    · rintro ⟨es, hes, he⟩
      obtain ⟨sel, hsel, hrun⟩ := (mem_of_mapM_eq_ok hinc).1 hes
      obtain ⟨r, hr, hedge⟩ := (mem_of_mapM_eq_ok hrun).1 he
      rw [List.mem_insertionSort, List.mem_filter] at hr
      obtain ⟨hmatch, hmod⟩ := of_decide_eq_true hr.2
      exact ⟨r, hr.1, hmod, ⟨sel, hsel, hmatch⟩, hedge⟩
    · rintro ⟨r, hr, hmod, ⟨sel, hsel, hmatch⟩, hedge⟩
      obtain ⟨es, hes⟩ := hin sel hsel
      refine ⟨es, (mem_of_mapM_eq_ok hinc).2 ⟨sel, hsel, hes⟩, (mem_of_mapM_eq_ok hes).2 ⟨r, ?_, hedge⟩⟩
      rw [List.mem_insertionSort, List.mem_filter]
      exact ⟨hr, decide_eq_true ⟨hmatch, hmod⟩⟩
  refine ⟨collapse [] (outgoing ++ incoming.flatten), ?_, fun other kind => ?_, fun other kind => ?_⟩
  · rw [edgesForMod, hout, hinc]
    rfl
  · rw [lists_collapse]
    constructor
    · rintro ⟨e, he, hdir, hother, hkind⟩
      rcases List.mem_append.1 he with he | he
      · obtain ⟨r, hr, hmod, hedge⟩ := (houtgoing e).1 he
        obtain ⟨e', hedge', -, hother', hkind'⟩ := ht.outEdge_spec r
        obtain rfl := Except.ok.inj (hedge.symm.trans hedge')
        exact ⟨r, hr, hmod, hother'.symm.trans hother, hkind'.symm.trans hkind⟩
      · obtain ⟨r, hr, -, -, hedge⟩ := (hincoming e).1 he
        obtain ⟨e', hedge', hdir', -⟩ := ht.inEdge_spec hr
        obtain rfl := Except.ok.inj (hedge.symm.trans hedge')
        exact absurd (hdir.symm.trans hdir') (by decide)
    · rintro ⟨r, hr, hmod, hother, hkind⟩
      obtain ⟨e, hedge, hdir, hother', hkind'⟩ := ht.outEdge_spec r
      exact ⟨e, List.mem_append_left _ ((houtgoing e).2 ⟨r, hr, hmod, hedge⟩), hdir,
        hother'.trans hother, hkind'.trans hkind⟩
  · rw [lists_collapse]
    constructor
    · rintro ⟨e, he, hdir, hother, hkind⟩
      rcases List.mem_append.1 he with he | he
      · obtain ⟨r, -, -, hedge⟩ := (houtgoing e).1 he
        obtain ⟨e', hedge', hdir', -⟩ := ht.outEdge_spec r
        obtain rfl := Except.ok.inj (hedge.symm.trans hedge')
        exact absurd (hdir.symm.trans hdir') (by decide)
      · obtain ⟨r, hr, hmod, hsel, hedge⟩ := (hincoming e).1 he
        obtain ⟨e', hedge', -, hother', hkind'⟩ := ht.inEdge_spec hr
        obtain rfl := Except.ok.inj (hedge.symm.trans hedge')
        exact ⟨r, hr, hmod, hsel, hother'.symm.trans hother, hkind'.symm.trans hkind⟩
    · rintro ⟨r, hr, hmod, hsel, hother, hkind⟩
      obtain ⟨e, hedge, hdir, hother', hkind'⟩ := ht.inEdge_spec hr
      exact ⟨e, List.mem_append_right _ ((hincoming e).2 ⟨r, hr, hmod, hsel, hedge⟩), hdir,
        hother'.trans hother, hkind'.trans hkind⟩

/-- The two ends of an edge agree: one mod lists an edge to another exactly if that one lists an edge
    from it, where the targets are spelled as the names of the other mod are. -/
theorem edgesForMod_agree (s : Stored Tables.Integrity) {a b : ℕ} (hne : a ≠ b) (kind : RelKind)
    (h : ∀ r ∈ s.1.relations, r.fromModId = a → r.kind = kind → s.1.Spelled b r.target) :
    ∃ ea eb, s.1.edgesForMod a = .ok ea ∧ s.1.edgesForMod b = .ok eb ∧
      ((∃ e ∈ ea, e.dir = .out ∧ e.otherModId = some b ∧ e.kind = kind) ↔
        ∃ e ∈ eb, e.dir = .in ∧ e.otherModId = some a ∧ e.kind = kind) := by
  obtain ⟨ea, hea, hout, -⟩ := s.2.edgesForMod_spec a
  obtain ⟨eb, heb, -, hin⟩ := s.2.edgesForMod_spec b
  refine ⟨ea, eb, hea, heb, (hout _ _).trans (Iff.trans ?_ (hin _ _).symm)⟩
  constructor
  · rintro ⟨r, hr, hmod, hsel, hkind⟩
    refine ⟨r, hr, hmod ▸ hne, ((h r hr hmod hkind).matches_iff s.2).2 hsel, ?_, hkind⟩
    rw [hmod]
  · rintro ⟨r, hr, -, hsel, hmod, hkind⟩
    have hmod := Option.some.inj hmod
    exact ⟨r, hr, hmod, ((h r hr hmod hkind).matches_iff s.2).1 hsel, hkind⟩

end Ends

/-- A mod that depends on another one, as its target is spelled. -/
def dependence (target : String) : Tables :=
  { empty with
    mods := (Table.empty.insert ⟨none, none, .harvested⟩).insert ⟨none, none, .harvested⟩
    aliases := [⟨1, .modid, "addon"⟩, ⟨2, .modid, "jei"⟩, ⟨2, .modrinth, "first"⟩,
      ⟨2, .modrinth, "second"⟩]
    relations := [⟨1, none, target, none, .requires, none, .jarMeta, 55⟩] }

/-- A range is no obstacle. -/
theorem edgesForMod_agree_range : ∃ ea eb,
    (dependence "jei@[1,)").edgesForMod 1 = .ok ea ∧ (dependence "jei@[1,)").edgesForMod 2 = .ok eb ∧
      ((∃ e ∈ ea, e.dir = .out ∧ e.otherModId = some 2 ∧ e.kind = .requires) ↔
        ∃ e ∈ eb, e.dir = .in ∧ e.otherModId = some 1 ∧ e.kind = .requires) := by
  have hname : stripPrefix (withoutRange "jei@[1,)") "modrinth:" = none := by decide
  refine edgesForMod_agree ⟨dependence "jei@[1,)", by decide⟩ (by decide) .requires
    fun r hr _ _ => ?_
  obtain rfl := List.mem_singleton.1 hr
  refine ⟨fun sel hsel => ?_, fun pid _ he => ?_, by decide, by decide⟩
  · have hplain : ∀ sel ∈ (dependence "jei@[1,)").selectors 2,
        Plain sel.toList ∧ (sel.toList.all fun c => c ≠ '@') = true := by decide
    exact matchesSelector_of_plain (hplain sel hsel).1 fun c hc =>
      of_decide_eq_true (List.all_eq_true.1 (hplain sel hsel).2 c hc)
  · exact nomatch (stripPrefix_eq_some.2 he).symm.trans hname

/-- The dependence is listed at the first mod, and not at the second. -/
def OneEnded (target : String) : Prop :=
  ∃ s : Stored Tables.Integrity, s.1 = dependence target ∧
    (∃ ea, s.1.edgesForMod 1 = .ok ea ∧ Lists ea .out (some 2) .requires) ∧
    ∃ eb, s.1.edgesForMod 2 = .ok eb ∧ ¬ Lists eb .in (some 1) .requires

/-- A modid in another case is resolved, but it is not found from the other end; nor is a second
    project of the mod. -/
theorem edgesForMod_disagree : OneEnded "JEI" ∧ OneEnded "modrinth:second" := by
  have hjei : (dependence "JEI").Integrity := by decide
  have hsecond : (dependence "modrinth:second").Integrity := by decide
  constructor
  · exact ⟨⟨_, hjei⟩, rfl, ⟨_, rfl, _, List.mem_singleton_self _, rfl, rfl, rfl⟩, [], rfl, nofun⟩
  · exact ⟨⟨_, hsecond⟩, rfl, ⟨_, rfl, _, List.mem_singleton_self _, rfl, rfl, rfl⟩, [], rfl, nofun⟩

end Registry

end Smrt
