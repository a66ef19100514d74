import Smrt.Authoring.HarvestLands
import Smrt.Registry.Edges

/-!
# How a mod is spelled

A selector finds its mod whatever the case of its letters, but a jar is put down to the mod of the
very names it carries. So a mod gets a twin when a jar spells its modid in another way, and then the
selector may mean either. It means one mod (`OneMod`) as long as every new spelling is of the mod
that the jar is put down to (`SpelledAlike`): that is so after such a jar and not after any other one
(`oneMod_collapsed_iff`), and nothing else breaks it (`modid_oneMod`).
-/

namespace Smrt

namespace Harvest

open Registry Registry.Tables Txn

/-- Modids that differ in case only are of one mod. -/
def OneMod (t : Tables) : Prop :=
  ∀ a ∈ t.aliases, ∀ b ∈ t.aliases, a.source = .modid → b.source = .modid →
    noCase a.externalKey = noCase b.externalKey → a.modId = b.modId

instance : DecidablePred OneMod := fun t =>
  inferInstanceAs (Decidable (∀ a ∈ t.aliases, ∀ b ∈ t.aliases, _))

/-- A modid that is new is, but for its case, one of the mod that the names are put down to, or of
one that is folded into that. -/
def SpelledAlike (t : Tables) (aliases : List Alias) : Prop :=
  ∀ k ∈ aliases, k.1 = .modid → t.owner k = none → ∀ a ∈ t.aliases, a.source = .modid →
    noCase a.externalKey = noCase k.2 →
      a.modId = t.aliasMod aliases ∨ a.modId ∈ t.foldedAway (t.matched aliases)

instance (t : Tables) (aliases : List Alias) : Decidable (SpelledAlike t aliases) :=
  inferInstanceAs (Decidable (∀ k ∈ aliases, _))

/-- The names of the jars are spelled so, each when the jar is put down to its mod. -/
def AllSpelledAlike (t : Tables) : List JarSeed → Prop
  | [] => True
  | jar :: jars => SpelledAlike t jar.aliases ∧ AllSpelledAlike (putDown t jar) jars

/-! ## One step -/

section Step

variable {t : Tables}

/-- The same, by the mods that the names belong to. -/
theorem oneMod_iff (ht : t.Integrity) : OneMod t ↔ ∀ x y id id',
    t.owner (.modid, x) = some id → t.owner (.modid, y) = some id' → noCase x = noCase y →
      id = id' := by
  simp only [owner, ht.modIdForAlias_eq_some]
  constructor
  · rintro h x y id id' ⟨a, ha, hsource, rfl, rfl⟩ ⟨b, hb, hsource', rfl, rfl⟩
    exact h a ha b hb hsource hsource'
  · intro h a ha b hb hsource hsource'
    exact h _ _ _ _ ⟨a, ha, hsource, rfl, rfl⟩ ⟨b, hb, hsource', rfl, rfl⟩

/-- A jar leaves the modids of one mod if it spells them alike, and only then. -/
theorem oneMod_collapsed_iff (ht : t.Integrity) (h : OneMod t) (aliases : List Alias) :
    OneMod (t.collapsed aliases) ↔ SpelledAlike t aliases := by
  have hone := (oneMod_iff ht).1 h
  have hrenamed : ∀ id, t.renamed aliases id = t.aliasMod aliases ↔
      id = t.aliasMod aliases ∨ id ∈ t.foldedAway (t.matched aliases) := by
    intro id
    rw [renamed, moveAll]
    split_ifs with hid
    · exact ⟨fun _ => .inr hid, fun _ => rfl⟩
    · exact ⟨.inl, fun h => h.resolve_right hid⟩
  rw [oneMod_iff (ht.collapsed aliases)]
  simp only [owner_collapsed]
  constructor
  · intro hnew k hk hsource hnone a ha hsource' hcase
    obtain ⟨source, key⟩ := k
    obtain rfl : source = .modid := hsource
    have howner : t.owner (.modid, a.externalKey) = some a.modId :=
      ht.modIdForAlias_eq_some.2 ⟨a, ha, hsource', rfl, rfl⟩
    refine (hrenamed _).1 (hnew a.externalKey key _ _ ?_ ?_ hcase)
    · rw [howner, Option.map_some, Option.some_or]
    · rw [hnone, Option.map_none, Option.none_or, if_pos hk]
  · intro hspelled x y id id' hx hy hcase
    -- Whether a modid was known, or is new and of the mod that the jar is put down to.
    have hcases : ∀ z i, ((t.owner (.modid, z)).map (t.renamed aliases)).or
        (if (.modid, z) ∈ aliases then some (t.aliasMod aliases) else none) = some i →
          (∃ j, t.owner (.modid, z) = some j ∧ t.renamed aliases j = i) ∨
            t.owner (.modid, z) = none ∧ (.modid, z) ∈ aliases ∧ t.aliasMod aliases = i := by
      intro z i hz
      rcases hown : t.owner (.modid, z) with _ | j <;> rw [hown] at hz
      · rw [Option.map_none, Option.none_or] at hz
        split_ifs at hz with hmem
        exact .inr ⟨rfl, hmem, Option.some.inj hz⟩
      · exact .inl ⟨j, rfl, Option.some.inj hz⟩
    have hnew : ∀ z w j, t.owner (.modid, z) = none → (.modid, z) ∈ aliases →
        t.owner (.modid, w) = some j → noCase w = noCase z →
          t.renamed aliases j = t.aliasMod aliases := by
      intro z w j hz hmem hw hzw
      obtain ⟨a, ha, hsource, hkey, rfl⟩ := ht.modIdForAlias_eq_some.1 hw
      subst hkey
      exact (hrenamed _).2 (hspelled _ hmem rfl hz a ha hsource hzw)
    rcases hcases x id hx with ⟨j, hj, rfl⟩ | ⟨hnone, hmem, rfl⟩ <;>
      rcases hcases y id' hy with ⟨j', hj', rfl⟩ | ⟨hnone', hmem', rfl⟩
    · rw [hone x y j j' hj hj' hcase]
    · exact hnew y x j hnone' hmem' hj hcase
    · exact (hnew x y j' hnone hmem hj' hcase.symm).symm
    · rfl

/-- What looks at the aliases only is the same. -/
theorem OneMod.of_aliases {t' : Tables} (h : OneMod t) (haliases : t'.aliases = t.aliases) :
    OneMod t' := by
  rw [OneMod, haliases]
  exact h

/-- Folding a mod into another keeps the names of one mod together. -/
theorem OneMod.folded (h : OneMod t) (fromModId intoModId : ℕ) :
    OneMod (t.folded fromModId intoModId) := by
  refine List.forall_mem_map.2 fun a ha => List.forall_mem_map.2 fun b hb => ?_
  intro hsource hsource' hcase
  exact congrArg (moveId fromModId intoModId) (h a ha b hb hsource hsource' hcase)

theorem OneMod.foldAll (h : OneMod t) (gone : List ℕ) (intoModId : ℕ) :
    OneMod (t.foldAll gone intoModId) := by
  induction gone generalizing t with
  | nil => exact h
  | cons other gone ih => exact ih (h.folded other intoModId)

/-- The name of a project is not a modid. -/
theorem OneMod.attach (h : OneMod t) (modId : ℕ) (pid : String) :
    OneMod (t.attach modId (.modrinth, pid)) := by
  rw [Tables.attach]
  split_ifs
  · exact h
  · have hne : AliasSource.modrinth ≠ .modid := by decide
    refine List.forall_mem_append.2 ⟨fun a ha => List.forall_mem_append.2 ⟨h a ha, ?_⟩, ?_⟩
    · exact List.forall_mem_singleton.2 fun _ hsource => absurd hsource hne
    · exact List.forall_mem_singleton.2 fun _ _ hsource => absurd hsource hne

theorem OneMod.linkAll (h : OneMod t) (projects : List (String × String)) :
    OneMod (projects.foldl linkStep t) := by
  induction projects generalizing t with
  | nil => exact h
  | cons project projects ih =>
    refine ih ?_
    rw [linkStep]
    split
    · exact h.attach _ _
    · exact h

theorem OneMod.reconciled (h : OneMod t) (plan : Plan) : OneMod (Harvest.reconciled plan t).1 := by
  have hall : ∀ (pairs : List (ℕ × ℕ)) (acc : Tables × List ℕ), OneMod acc.1 →
      OneMod (pairs.foldl reconcileStep acc).1 := by
    intro pairs
    induction pairs with
    | nil => exact fun _ h => h
    | cons pair pairs ih =>
      intro acc hacc
      refine ih _ ?_
      rw [reconcileStep]
      split_ifs
      · exact hacc
      · exact hacc.foldAll _ _
  exact hall _ _ h

theorem OneMod.putAllDown (ht : t.Integrity) (h : OneMod t) {jars : List JarSeed}
    (hjars : AllSpelledAlike t jars) : OneMod (putAllDown t jars) := by
  induction jars generalizing t with
  | nil => exact h
  | cons jar jars ih =>
    refine ih (integrity_putDown ht jar) ?_ hjars.2
    rw [putDown]
    split_ifs
    · exact h
    · exact ((oneMod_collapsed_iff ht h jar.aliases).2 hjars.1).of_aliases rfl

/-- A harvest whose jars spell their modids alike leaves them of one mod. -/
theorem OneMod.namesAfter (ht : t.Integrity) (h : OneMod t) {plan : Plan} {scan : ScanData}
    (hscan : AllSpelledAlike (bare t) scan.jars) : OneMod (namesAfter plan t scan) := by
  have hbare : (bare t).Integrity := ht.of_packages nofun .nil
  have hone : OneMod (bare t) := h.of_aliases rfl
  exact ((OneMod.putAllDown hbare hone hscan).reconciled plan).linkAll _

end Step

/-! ## What an operator decides -/

/-- The names stay, perhaps with other mods, the same one for all names of a mod. -/
def Renames (t t' : Tables) : Prop :=
  ∃ f : ℕ → ℕ, t'.aliases = t.aliases.map fun a => { a with modId := f a.modId }

theorem Renames.of_eq {t t' : Tables} (h : t'.aliases = t.aliases) : Renames t t' :=
  ⟨id, h.trans (List.map_id _).symm⟩

theorem OneMod.renames {t t' : Tables} (h : OneMod t) (hr : Renames t t') : OneMod t' := by
  obtain ⟨f, hf⟩ := hr
  rw [OneMod, hf]
  refine List.forall_mem_map.2 fun a ha => List.forall_mem_map.2 fun b hb => ?_
  intro hsource hsource' hcase
  exact congrArg f (h a ha b hb hsource hsource' hcase)

theorem along_decision (d : Decision) : Along Renames d.write := by
  have hof : ∀ {α : Type} {m : Conn α}, Along (Same Tables.aliases) m → Along Renames m :=
    fun h => h.imp fun _ _ he => .of_eq he
  cases d with
  | conflict aModid bModid remove =>
    exact hof ((along_setConflict aModid bModid remove).same_of Tables.aliases)
  | relation fromModId target kind severity remove =>
    exact hof ((along_authorRelation _ _ _ _ _).same_of Tables.aliases)
  | jarClass sha1 kind side matchPolicy remove =>
    exact hof ((along_setAuthoredJarClass _ _ _ _ _).same_of Tables.aliases)
  | fileIdentity id => exact hof ((along_authorFileIdentity id).bind fun _ => Along.pure)
  | rename modId name slug => exact hof (along_renameMod modId name slug)
  | release releaseId versionNumber channel =>
    exact hof ((along_editRelease _ _ _).same_of Tables.aliases)
  | merge fromModId intoModId =>
    exact along_mergeMods fun t _ _ _ _ => ⟨moveId fromModId intoModId, rfl⟩

/-! ## The runs -/

/-- A harvest that spells its modids like the registry does. -/
def spelledAlike (s : Stored Integrity) : Write → Prop
  | .harvest _ scan => AllSpelledAlike (bare s.1) scan.jars
  | .decide _ => True

/-- In every run whose harvests spell modids alike, a selector means one mod. -/
theorem modid_oneMod : ∀ s, registry.Reach spelledAlike s → OneMod s.1 ∧
    ∀ selector, stripPrefix (withoutRange selector) "modrinth:" = none →
      ∀ a ∈ s.1.aliases, a.source = .modid →
        noCase a.externalKey = noCase (withoutRange selector) →
          s.1.modIdForSelector selector = some a.modId := by
  intro s hs
  have hone : OneMod s.1 := by
    refine hs.invariant (P := fun s => OneMod s.1) (fun s h => ?_) fun s w s' h hok hstep => ?_
    · have hempty : s.1 = Tables.empty := h
      rw [hempty]
      exact nofun
    · have hrun := registry_step hstep
      cases w with
      | harvest plan scan =>
        have hnames := ensures_writeScan s.2 s rfl _ s' hrun
        exact (OneMod.namesAfter s.2 h hok).of_aliases (same_names_iff.1 hnames).2.1
      | decide d => exact h.renames (along_decision d s _ s' hrun)
  refine ⟨hone, fun selector hbare a ha hsource hcase => ?_⟩
  rw [modIdForSelector_eq, hbare]
  rcases hfind : s.1.aliases.find? (fun a =>
      a.source = .modid ∧ noCase a.externalKey = noCase (withoutRange selector)) with _ | b
  · exact absurd (decide_eq_true ⟨hsource, hcase⟩) (List.find?_eq_none.1 hfind a ha)
  · have hb : b.source = .modid ∧ noCase b.externalKey = noCase (withoutRange selector) :=
      of_decide_eq_true (List.find?_some (p := fun a : AliasRow =>
        a.source = .modid ∧ noCase a.externalKey = noCase (withoutRange selector)) hfind)
    dsimp only
    rw [hfind]
    exact congrArg some (hone b (List.mem_of_find?_eq_some hfind) a ha hb.1 hsource
      (hb.2.trans hcase.symm))

/-- Two files of one mod, the second of which spells its modid in display case. -/
def displayJar : JarSeed := { JarSeed.ofSha1 "6" with modid := some "JEI" }

def plainJar : JarSeed := { JarSeed.ofSha1 "7" with modid := some "jei" }

theorem modid_oneMod_plain : ∃ s, registry.Reachable s ∧ OneMod s.1 ∧
    s.1.modIdForSelector "JEI@[4.16,)" = some 1 := by
  obtain ⟨s, hs, hp⟩ := exists_reach spelledAlike
    (w := .harvest inOrder (.ofJars [plainJar]))
    (p := fun t => t.aliases.any fun a => a.source = .modid ∧ a.externalKey = "jei" ∧ a.modId = 1)
    ⟨by show SpelledAlike _ _; decide +kernel, trivial⟩ (by decide +kernel)
  obtain ⟨a, ha, hkey⟩ := List.any_eq_true.1 hp
  obtain ⟨hsource, hkey, hmod⟩ := of_decide_eq_true hkey
  refine ⟨s, hs.mono fun _ _ _ => trivial, (modid_oneMod s hs).1, ?_⟩
  rw [← hmod]
  exact (modid_oneMod s hs).2 _ (by decide +kernel) a ha hsource (by rw [hkey]; decide +kernel)

/-- A mod gets a twin when a jar spells its modid in another way. -/
theorem modid_twoMods : ∃ s, registry.Reachable s ∧ ¬ OneMod s.1 := by
  obtain ⟨s, hs, hp⟩ := exists_reach System.anything
    (w := .harvest inOrder (.ofJars [displayJar, plainJar])) (p := fun t => ¬ OneMod t)
    trivial (by decide +kernel)
  exact ⟨s, hs, of_decide_eq_true hp⟩

end Harvest

end Smrt
