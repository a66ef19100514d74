import Smrt.Authoring.Resolve

/-!
# Classes that mixins miss

A mixin of a row of the pack asks for a class of another mod (`Asks`). It is missed for certain if
the pack has that mod, and no file of it that the pack places has the class (`Missed`). The report asks
only one file, that of the last row of the mod (`reports_iff`): so it says what is missed, in every
order of the rows, just when the files of one mod that the pack places agree on every class that is
asked for (`gaps_iff`).
-/

namespace Smrt

namespace Registry

/-- One mod defines a package, and no other one. -/
def Tables.SoleOwner (t : Tables) (pkg : String) (id : ℕ) : Prop :=
  (id, pkg) ∈ t.packages ∧ ∀ p ∈ t.packages, p.2 = pkg → p.1 = id

theorem Tables.ownerModForPrefix_eq_some {t : Tables} {pkg : String} {id : ℕ} :
    t.ownerModForPrefix pkg = some id ↔ t.SoleOwner pkg id := by
  have hmem : ∀ i, i ∈ ((t.packages.filter fun p => p.2 = pkg).map Prod.fst).dedup ↔
      (i, pkg) ∈ t.packages := by
    intro i
    simp
  have hnodup := List.nodup_dedup ((t.packages.filter fun p => p.2 = pkg).map Prod.fst)
  rw [ownerModForPrefix, SoleOwner]
  rcases hl : ((t.packages.filter fun p => p.2 = pkg).map Prod.fst).dedup with _ | ⟨i, _ | ⟨j, l⟩⟩
  · rw [hl] at hmem ⊢
    exact iff_of_false (Option.some_ne_none id).symm fun h => List.not_mem_nil ((hmem id).2 h.1)
  · rw [hl] at hmem ⊢
    rw [Option.some_inj]
    constructor
    · rintro rfl
      refine ⟨(hmem i).1 List.mem_cons_self, ?_⟩
      rintro ⟨k, _⟩ hp rfl
      exact List.mem_singleton.1 ((hmem k).2 hp)
    · rintro ⟨h, -⟩
      exact (List.mem_singleton.1 ((hmem id).2 h)).symm
  · -- Two owners of the package: nobody is the sole one.
    rw [hl] at hmem hnodup ⊢
    refine iff_of_false (Option.some_ne_none id).symm ?_
    rintro ⟨-, h⟩
    have hi := h _ ((hmem i).1 List.mem_cons_self) rfl
    have hj := h _ ((hmem j).1 (List.mem_cons_of_mem _ List.mem_cons_self)) rfl
    exact List.ne_of_not_mem_cons (List.nodup_cons.1 hnodup).1 (hi.trans hj.symm)

end Registry

namespace Resolve

open Registry

section Gaps

variable {s : Registry.Shelf} {present : List Present} {m : ℕ} {needed : String} {owner : ℕ}

variable (s present m needed owner) in
/-- A mixin of a row of the mod needs a class that another mod, and it alone, has the package of. -/
def Asks : Prop :=
  (∃ p ∈ present, p.modId = m ∧ ∃ v config, p.versionId = some v ∧ (v, config, needed) ∈ s.needs) ∧
    isPlatform needed = false ∧
    (∃ pkg, packagePrefix needed = some pkg ∧ s.SoleOwner pkg owner) ∧ owner ≠ m

variable (s needed) in
/-- The classes of the file of a row are known, and this is not one of them. -/
def LacksClass (q : Present) : Prop := ∃ v, q.versionId = some v ∧ (s.classDigest v).Lacks needed

variable (s present m needed) in
/-- A class of another mod is needed, and no file of that mod in the pack has it. -/
def Missed : Prop :=
  ∃ owner, Asks s present m needed owner ∧ (∃ q ∈ present, q.modId = owner) ∧
    ∀ q ∈ present, q.modId = owner → LacksClass s needed q

theorem gap_eq_some {p : Present} {need : String × String} {g : MixinGap} :
    gap s present p need = some g ↔
      isPlatform need.2 = false ∧ ∃ pkg ownerMod owner ownerVersion,
        packagePrefix need.2 = some pkg ∧ s.ownerModForPrefix pkg = some ownerMod ∧
        ownerMod ≠ p.modId ∧ lastOf present ownerMod = some owner ∧
        owner.versionId = some ownerVersion ∧ s.artifactHasClass ownerVersion need.2 = some false ∧
        { filename := p.filename, config := need.1, needed := need.2, owner := owner.filename } = g := by
  simp [gap, Option.bind_eq_some_iff, guard]

theorem mem_mixinGaps {g : MixinGap} :
    (m, g) ∈ mixinGaps s present ↔ ∃ p ∈ present, p.modId = m ∧ g ∈ gapsOf s present p := by
  rw [mixinGaps, List.mem_insertionSort, List.mem_flatMap]
  constructor
  · rintro ⟨p, hp, hg⟩
    obtain ⟨g', hg', he⟩ := List.mem_map.1 hg
    obtain ⟨rfl, rfl⟩ := Prod.mk.inj he
    exact ⟨p, hp, rfl, hg'⟩
  · rintro ⟨p, hp, rfl, hg⟩
    exact ⟨p, hp, List.mem_map_of_mem hg⟩

theorem mem_mixinNeeds {v : ℕ} {need : String × String} :
    need ∈ s.mixinNeeds v ↔ (v, need) ∈ s.needs := by
  rw [Registry.Shelf.mixinNeeds, List.mem_insertionSort, List.mem_map]
  constructor
  · rintro ⟨⟨v', _⟩, h, rfl⟩
    obtain ⟨hmem, he⟩ := List.mem_filter.1 h
    obtain rfl : v' = v := of_decide_eq_true he
    exact hmem
  · intro h
    exact ⟨_, List.mem_filter.2 ⟨h, decide_eq_true rfl⟩, rfl⟩

/-- A gap is reported if the last row of the mod that is asked does not have the class. -/
theorem reports_iff :
    (∃ g, (m, g) ∈ mixinGaps s present ∧ g.needed = needed) ↔
      ∃ owner q, Asks s present m needed owner ∧ lastOf present owner = some q ∧
        LacksClass s needed q := by
  constructor
  · rintro ⟨g, hg, rfl⟩
    obtain ⟨p, hp, rfl, hmem⟩ := mem_mixinGaps.1 hg
    obtain ⟨need, hneed, hgap⟩ := List.mem_filterMap.1 hmem
    obtain ⟨hplatform, pkg, owner, q, v, hpkg, howner, hne, hlast, hv, hno, rfl⟩ :=
      gap_eq_some.1 hgap
    rcases hversion : p.versionId with _ | w
    · rw [hversion] at hneed
      exact absurd hneed List.not_mem_nil
    · rw [hversion] at hneed
      refine ⟨owner, q, ⟨⟨p, hp, rfl, w, need.1, hversion, mem_mixinNeeds.1 hneed⟩, hplatform,
        ⟨pkg, hpkg, Tables.ownerModForPrefix_eq_some.1 howner⟩, hne⟩, hlast, v, hv, ?_⟩
      exact ClassDigest.has_eq_false.1 hno
  · rintro ⟨owner, q, ⟨⟨p, hp, rfl, w, config, hw, hneed⟩, hplatform, ⟨pkg, hpkg, howner⟩, hne⟩,
      hlast, v, hv, hno⟩
    refine ⟨_, mem_mixinGaps.2 ⟨p, hp, rfl, List.mem_filterMap.2 ⟨(config, needed), ?_,
      gap_eq_some.2 ⟨hplatform, pkg, owner, q, v, hpkg, Tables.ownerModForPrefix_eq_some.2 howner,
        hne, hlast, hv, ClassDigest.has_eq_false.2 hno, rfl⟩⟩⟩, rfl⟩
    rw [hw]
    exact mem_mixinNeeds.2 hneed

/-- Who asks for a class does not depend on the order of the rows. -/
theorem Asks.of_perm {present' : List Present} (hp : present'.Perm present)
    (h : Asks s present m needed owner) : Asks s present' m needed owner := by
  obtain ⟨⟨p, hmem, hrow⟩, h⟩ := h
  exact ⟨⟨p, hp.mem_iff.2 hmem, hrow⟩, h⟩

/-- A class has one owner at most. -/
theorem Asks.owner_unique {owner' : ℕ} (h : Asks s present m needed owner)
    (h' : Asks s present m needed owner') : owner = owner' := by
  obtain ⟨-, -, ⟨pkg, hpkg, hsole⟩, -⟩ := h
  obtain ⟨-, -, ⟨pkg', hpkg', hsole'⟩, -⟩ := h'
  obtain rfl := Option.some.inj (hpkg.symm.trans hpkg')
  exact hsole'.2 _ hsole.1 rfl

theorem lastOf_eq_some {q : Present} (h : lastOf present owner = some q) :
    q ∈ present ∧ q.modId = owner :=
  ⟨List.mem_reverse.1 (List.mem_of_find?_eq_some h),
    of_decide_eq_true (List.find?_some (p := fun q : Present => q.modId = owner) h)⟩

theorem exists_lastOf {q : Present} (hq : q ∈ present) (howner : q.modId = owner) :
    ∃ q', lastOf present owner = some q' := by
  rw [← Option.isSome_iff_exists, lastOf, List.find?_isSome]
  exact ⟨q, List.mem_reverse.2 hq, decide_eq_true howner⟩

theorem presentMods_perm {mods mods' : List DeclaredMod} (h : mods'.Perm mods) :
    (presentMods s mods').Perm (presentMods s mods) := h.filterMap _

/-- Any row that is placed is the last one of its mod in some order of the rows. -/
theorem exists_perm_lastOf {mods : List DeclaredMod} {q : Present} (hq : q ∈ presentMods s mods) :
    ∃ mods', mods'.Perm mods ∧ lastOf (presentMods s mods') q.modId = some q := by
  obtain ⟨d, hd, hplace⟩ := List.mem_filterMap.1 hq
  obtain ⟨before, after, rfl⟩ := List.append_of_mem hd
  refine ⟨before ++ after ++ [d], ?_, ?_⟩
  · exact (List.perm_append_singleton d (before ++ after)).trans List.perm_middle.symm
  · have hlast : presentMods s (before ++ after ++ [d]) = presentMods s (before ++ after) ++ [q] := by
      rw [presentMods, List.filterMap_append]
      exact congrArg _ (List.filterMap_cons_some hplace)
    rw [hlast, lastOf, List.reverse_append]
    exact List.find?_cons_of_pos (decide_eq_true rfl)

end Gaps

/-- The gaps that are reported, in every order of the rows, are the classes that are missed if and
only if the rows of one mod agree: where a class of it is asked for, and one of its files is known to
lack it, all of them are. -/
theorem gaps_iff (s : Registry.Shelf) (classify : ℕ → Option String → Classification) (cfg : PackConfig) :
    (∀ mods', mods'.Perm cfg.mods → ∀ m needed,
      (∃ g, (m, g) ∈ (resolvePack s classify { cfg with mods := mods' }).mixinGaps ∧
        g.needed = needed) ↔ Missed s (presentMods s cfg.mods) m needed) ↔
    ∀ m needed owner, Asks s (presentMods s cfg.mods) m needed owner →
      ∀ q ∈ presentMods s cfg.mods, ∀ q' ∈ presentMods s cfg.mods,
        q.modId = owner → q'.modId = owner → LacksClass s needed q → LacksClass s needed q' := by
  constructor
  · intro h m needed owner hasks q hq q' hq' howner howner' hlacks
    subst howner
    -- Ask the pack in the order in which `q` is the last row of its mod.
    obtain ⟨mods', hperm, hlast⟩ := exists_perm_lastOf hq
    obtain ⟨o, hasks', -, hall⟩ := (h mods' hperm m needed).1
      (reports_iff.2 ⟨_, q, hasks.of_perm (presentMods_perm hperm), hlast, hlacks⟩)
    exact hall q' hq' (howner'.trans (hasks.owner_unique hasks'))
  · intro h mods' hperm m needed
    have hp := presentMods_perm (s := s) hperm
    refine reports_iff.trans ⟨?_, ?_⟩
    · rintro ⟨owner, q, hasks, hlast, hlacks⟩
      obtain ⟨hq, howner⟩ := lastOf_eq_some hlast
      have hasks := hasks.of_perm hp.symm
      exact ⟨owner, hasks, ⟨q, hp.mem_iff.1 hq, howner⟩, fun q' hq' howner' =>
        h m needed owner hasks q (hp.mem_iff.1 hq) q' hq' howner howner' hlacks⟩
    · rintro ⟨owner, hasks, ⟨q, hq, howner⟩, hall⟩
      obtain ⟨q', hlast⟩ := exists_lastOf (hp.mem_iff.2 hq) howner
      obtain ⟨hq', howner'⟩ := lastOf_eq_some hlast
      exact ⟨owner, q', hasks.of_perm hp, hlast, hall q' (hp.mem_iff.1 hq') howner'⟩

/-! ## A mod that is placed twice -/

/-- A class that one version of a mod has and the next one does not. -/
def gameOptions : String := "net/caffeinemc/mods/sodium/client/gui/SodiumGameOptions"

/-- A mod with two files, the older of which has the class, and a mod with a mixin into it. -/
def sodiumShelf : Registry.Shelf :=
  let row (modId : ℕ) (version sha1 : String) : VersionRow :=
    { modId, version, sha1, filename := none, mcVersions := [], releaseId := none, source := .jarMeta }
  { Tables.empty with
    mods := (Table.empty.insert ⟨some "sable", none, .jarMeta⟩).insert ⟨some "sodium", none, .jarMeta⟩
    versions := ((Table.empty.insert (row 1 "1.0" "000000000000000000000000000000000000000a")).insert
      (row 2 "0.6.13" "000000000000000000000000000000000000000b")).insert
      (row 2 "0.8.12" "000000000000000000000000000000000000000c")
    packages := [(1, "dev/sable/client"), (2, "net/caffeinemc/mods")]
    needs := [(1, "sable.mixins.json", gameOptions)]
    loaderParents := []
    loaderProvides := []
    modrinthVersionId := fun _ => none
    classDigest := fun id =>
      if id = 2 then .ofNames [gameOptions]
      else if id = 3 then .ofNames ["net/caffeinemc/mods/sodium/client/SodiumClientMod"]
      else .absent }

/-- A pack that ships both files. -/
def sodiumTwice : PackConfig :=
  let row (filename sha1 : String) : DeclaredMod :=
    { filename
      defaultEnabled := true
      source := .smrtCache sha1
      display := none
      slug := none
      pulled := false }
  { PackConfig.empty "sodium" with
    mods := [row "sable.jar" "000000000000000000000000000000000000000a",
      row "sodium-0.6.13.jar" "000000000000000000000000000000000000000b",
      row "sodium-0.8.12.jar" "000000000000000000000000000000000000000c"] }

/-- The class is there in one file of the mod, and reported as a gap all the same. -/
theorem sodiumTwice_gap :
    ¬ ∀ m needed, (∃ g, (m, g) ∈ (resolvePack sodiumShelf unclassified sodiumTwice).mixinGaps ∧
      g.needed = needed) ↔ Missed sodiumShelf (presentMods sodiumShelf sodiumTwice.mods) m needed := by
  intro h
  have hgap : (resolvePack sodiumShelf unclassified sodiumTwice).mixinGaps =
      [(1, { filename := "sable.jar", config := "sable.mixins.json", needed := gameOptions
             owner := "sodium-0.8.12.jar" })] := by decide +kernel
  obtain ⟨owner, hasks, -, hall⟩ := (h 1 gameOptions).1 ⟨_, hgap ▸ List.mem_cons_self, rfl⟩
  obtain ⟨-, -, ⟨pkg, hpkg, hsole⟩, -⟩ := hasks
  have hpre : packagePrefix gameOptions = some "net/caffeinemc/mods" := by decide +kernel
  obtain rfl := Option.some.inj (hpre.symm.trans hpkg)
  have howner : 2 = owner := hsole.2 (2, "net/caffeinemc/mods") (by decide) rfl
  -- The file of the second row has the class.
  have hrow : ∃ q ∈ presentMods sodiumShelf sodiumTwice.mods, q.modId = 2 ∧ q.versionId = some 2 := by
    decide +kernel
  obtain ⟨q, hq, hmod, hversion⟩ := hrow
  obtain ⟨v, hv, -, hno⟩ := hall q hq (hmod.trans howner)
  obtain rfl := Option.some.inj (hversion.symm.trans hv)
  exact hno (by decide +kernel)

end Resolve

end Smrt
