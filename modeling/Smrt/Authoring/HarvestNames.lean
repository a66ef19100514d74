import Smrt.Authoring.HarvestParts

/-!
# Who is who in a harvest

The mods, the names that they are known by and their packages are written by three parts of a
harvest only: as each jar is put down to its mod (`putDown`), as the mods are reconciled by their
slugs (`reconciled`), and as the projects that no mod has are attached. So what these do to them can
be told from the jars alone, whatever else is written.

It also tells which mods are folded away between the time that something is put off under the id of
a mod and the time that it is written (`waiting`).
-/

namespace Smrt

namespace Harvest

open Registry Registry.Tables Txn

/-- The mods, their names and their packages. -/
def names (t : Tables) : Table ModRow × List AliasRow × List (ℕ × String) :=
  (t.mods, t.aliases, t.packages)

/-! ## The jars -/

/-- The name and the slug of a jar fill in those of its mod. -/
def describe (jar : JarSeed) (m : ModRow) : ModRow :=
  if m.source.isPrecious then m
  else { m with canonicalName := jar.name.or m.canonicalName, slug := jar.slug.or m.slug }

/-- The packages with those of a mod. -/
def putPackages (modId : ℕ) (prefixes : List String) (l : List (ℕ × String)) : List (ℕ × String) :=
  prefixes.foldl (fun l pkg => l.insert (modId, pkg)) l

/-- A jar is put down to the mod of its names. -/
def putDown (t : Tables) (jar : JarSeed) : Tables :=
  if jar.aliases = [] then t
  else
    { t.collapsed jar.aliases with
      mods := (t.collapsed jar.aliases).mods.modify (t.aliasMod jar.aliases) (describe jar)
      packages := putPackages (t.aliasMod jar.aliases) jar.ownedPackages
        (t.collapsed jar.aliases).packages }

/-- All jars are put down to their mods, in turn. -/
def putAllDown (t : Tables) (jars : List JarSeed) : Tables := jars.foldl putDown t

/-- The mods that are folded away as the jars are put down. -/
def goneIn (t : Tables) : List JarSeed → List ℕ
  | [] => []
  | jar :: jars => t.foldedAway (t.matched jar.aliases) ++ goneIn (putDown t jar) jars

/-- A jar that was put down to a mod, and the mods that are folded away by the jars behind it. -/
structure Waiting where
  modId : ℕ
  jar : JarSeed
  gone : List ℕ

def waiting (t : Tables) : List JarSeed → List Waiting
  | [] => []
  | jar :: jars =>
    (if jar.aliases = [] then []
      else [⟨t.aliasMod jar.aliases, jar, goneIn (putDown t jar) jars⟩]) ++
        waiting (putDown t jar) jars

section Same

variable {t t' : Tables}

theorem same_names_iff : Same names t t' ↔
    t'.mods = t.mods ∧ t'.aliases = t.aliases ∧ t'.packages = t.packages := by
  rw [Same, names, names, Prod.mk.injEq, Prod.mk.injEq]

/-- Whatever looks at the names only is the same. -/
theorem eq_of_same_names {α : Type} {f : Tables → α} (h : Same names t t')
    (hf : ∀ t : Tables, f t = f { empty with
      mods := t.mods, aliases := t.aliases, packages := t.packages }) : f t' = f t := by
  obtain ⟨hmods, haliases, hpackages⟩ := same_names_iff.1 h
  rw [hf t', hf t, hmods, haliases, hpackages]

theorem same_hasMod (h : Same names t t') (id : ℕ) : t'.HasMod id ↔ t.HasMod id := by
  rw [HasMod, HasMod, (same_names_iff.1 h).1]

theorem same_matched (h : Same names t t') : t'.matched = t.matched :=
  eq_of_same_names h fun _ => rfl

theorem same_foldedAway (h : Same names t t') : t'.foldedAway = t.foldedAway :=
  eq_of_same_names h fun _ => rfl

theorem same_aliasMod (h : Same names t t') : t'.aliasMod = t.aliasMod :=
  eq_of_same_names h fun _ => rfl

theorem same_resolveEdgeTarget (h : Same names t t') : resolveEdgeTarget t' = resolveEdgeTarget t :=
  eq_of_same_names h fun _ => rfl

theorem same_splitPairs (h : Same names t t') : splitPairs t' = splitPairs t :=
  eq_of_same_names h fun _ => rfl

theorem same_foldAll (h : Same names t t') (gone : List ℕ) (intoModId : ℕ) :
    Same names (t.foldAll gone intoModId) (t'.foldAll gone intoModId) := by
  induction gone generalizing t t' with
  | nil => exact h
  | cons other gone ih =>
    have hfolded : names (t'.folded other intoModId) = names (t.folded other intoModId) :=
      eq_of_same_names (f := fun t => names (t.folded other intoModId)) h fun _ => rfl
    exact ih hfolded

theorem same_merged (h : Same names t t') (matched : List ℕ) :
    Same names (t.merged matched) (t'.merged matched) := by
  have hsurvivor : t'.survivor = t.survivor := eq_of_same_names h fun _ => rfl
  rw [merged, merged, same_foldedAway h, hsurvivor]
  exact same_foldAll h _ _

theorem same_collapsed (h : Same names t t') (aliases : List Alias) :
    Same names (t.collapsed aliases) (t'.collapsed aliases) := by
  have hfound : Same names (t.found aliases) (t'.found aliases) := by
    rw [found, found, same_matched h]
    split
    · exact eq_of_same_names (f := fun t => names t.newMod) h fun _ => rfl
    · exact same_merged h _
  have hattach : ∀ l : List Alias, ∀ {t₁ t₂ : Tables} (modId : ℕ), Same names t₁ t₂ →
      Same names (l.foldl (fun t k => t.attach modId k) t₁)
        (l.foldl (fun t k => t.attach modId k) t₂) := by
    intro l
    induction l with
    | nil => exact fun _ h => h
    | cons k l ih =>
      intro t₁ t₂ modId h
      exact ih modId (eq_of_same_names (f := fun t => names (t.attach modId k)) h fun _ => rfl)
  rw [collapsed, collapsed, same_aliasMod h]
  exact hattach _ _ hfound

end Same

/-! ## What becomes of the mods -/

section Mods

variable {t : Tables}

theorem mem_putPackages {modId : ℕ} {prefixes : List String} {l : List (ℕ × String)}
    {p : ℕ × String} :
    p ∈ putPackages modId prefixes l ↔ p ∈ l ∨ p.1 = modId ∧ p.2 ∈ prefixes := by
  induction prefixes generalizing l with
  | nil => simp [putPackages]
  | cons pkg prefixes ih =>
    refine ih.trans ?_
    rw [List.mem_insert_iff, Prod.ext_iff, List.mem_cons]
    tauto

theorem nodup_putPackages {modId : ℕ} {prefixes : List String} {l : List (ℕ × String)}
    (h : l.Nodup) : (putPackages modId prefixes l).Nodup := by
  induction prefixes generalizing l with
  | nil => exact h
  | cons pkg prefixes ih => exact ih h.insert

theorem integrity_putDown (ht : t.Integrity) (jar : JarSeed) : (putDown t jar).Integrity := by
  rw [putDown]
  split_ifs
  · exact ht
  have hmod := ht.hasMod_collapsed jar.aliases
  have hint := ht.collapsed jar.aliases
  have hpackages : ({ t.collapsed jar.aliases with
      packages := putPackages (t.aliasMod jar.aliases) jar.ownedPackages
        (t.collapsed jar.aliases).packages }).Integrity := by
    refine hint.of_packages (fun p hp => ?_) (nodup_putPackages hint.packageKey)
    rcases mem_putPackages.1 hp with hp | ⟨he, -⟩
    · exact hint.packageMod p hp
    · exact he ▸ hmod
  exact hpackages.of_mods fun _ hid => Table.isSome_get?_modify.trans hid

theorem integrity_putAllDown (ht : t.Integrity) (jars : List JarSeed) :
    (putAllDown t jars).Integrity := by
  induction jars generalizing t with
  | nil => exact ht
  | cons jar jars ih => exact ih (integrity_putDown ht jar)

/-- A mod that is not folded away stays. -/
theorem hasMod_putDown {id : ℕ} (hid : t.HasMod id) {jar : JarSeed}
    (hgone : id ∉ t.foldedAway (t.matched jar.aliases)) : (putDown t jar).HasMod id := by
  obtain ⟨m, hm⟩ := Option.isSome_iff_exists.1 hid
  rw [putDown]
  split_ifs
  · exact hid
  · refine Table.isSome_get?_modify.trans ?_
    rw [get?_mods_collapsed hm, if_neg hgone]
    rfl

theorem hasMod_putAllDown {id : ℕ} {jars : List JarSeed} (hid : t.HasMod id)
    (hgone : id ∉ goneIn t jars) : (putAllDown t jars).HasMod id := by
  induction jars generalizing t with
  | nil => exact hid
  | cons jar jars ih =>
    rw [goneIn, List.mem_append, not_or] at hgone
    exact ih (hasMod_putDown hid hgone.1) hgone.2

/-- The mod of a jar is there as long as no jar behind it folds it away. -/
theorem hasMod_of_waiting (ht : t.Integrity) {jars : List JarSeed} {w : Waiting}
    (hw : w ∈ waiting t jars) (hgone : w.modId ∉ w.gone) :
    (putAllDown t jars).HasMod w.modId := by
  induction jars generalizing t with
  | nil => cases hw
  | cons jar jars ih =>
    rw [waiting, List.mem_append] at hw
    rcases hw with hw | hw
    · split_ifs at hw with haliases
      · cases hw
      obtain rfl := List.mem_singleton.1 hw
      have hmod : (putDown t jar).HasMod (t.aliasMod jar.aliases) := by
        rw [putDown, if_neg haliases]
        exact Table.isSome_get?_modify.trans (ht.hasMod_collapsed jar.aliases)
      exact (hasMod_putAllDown hmod hgone :)
    · exact ih (integrity_putDown ht jar) hw

end Mods

/-! ## The reconciliation -/

/-- Two mods are folded into one, unless one of them is gone; the second component is those that
    are. -/
def reconcileStep (acc : Tables × List ℕ) (pair : ℕ × ℕ) : Tables × List ℕ :=
  if pair.1 ∈ acc.2 ∨ pair.2 ∈ acc.2 then acc
  else (acc.1.merged [pair.1, pair.2], acc.1.foldedAway [pair.1, pair.2] ++ acc.2)

/-- The mods are reconciled by their slugs. -/
def reconciled (plan : Plan) (t : Tables) : Tables × List ℕ :=
  (plan.order (splitPairs t)).foldl reconcileStep (t, [])

section Reconcile

variable {t : Tables}

theorem hasMod_merged {matched : List ℕ} {id : ℕ} :
    (t.merged matched).HasMod id ↔ t.HasMod id ∧ id ∉ t.foldedAway matched := by
  rw [HasMod, merged, get?_mods_foldAll]
  split_ifs with hid
  · simp [hid]
  · simp [hid]

/-- Of two mods the one that does not survive is folded away, or none is. -/
theorem foldedAway_pair {a b : ℕ} (hab : a ≠ b) : t.foldedAway [a, b] = [] ∨
    t.foldedAway [a, b] = [if t.survivor [a, b] = a then b else a] := by
  rw [foldedAway]
  split_ifs with htwo hs
  · exact .inl rfl
  · exact .inr (by simp [hs, hab.symm])
  · have hmem : t.survivor [a, b] ∈ [a, b] := survivor_mem (List.cons_ne_nil _ _)
    have hb : t.survivor [a, b] = b := by simpa [hs] using hmem
    exact .inr (by simp [hb, hab])

/-- The mods of a pair are two, and they are there. -/
theorem splitPairs_spec (ht : t.Integrity) {pair : ℕ × ℕ}
    (h : pair ∈ splitPairs t) : pair.1 ≠ pair.2 ∧ t.HasMod pair.1 ∧ t.HasMod pair.2 := by
  obtain ⟨b, hb, h⟩ := List.mem_flatMap.1 h
  obtain ⟨mr, -, h⟩ := List.mem_flatMap.1 h
  obtain ⟨a, ha, rfl⟩ := List.mem_map.1 h
  obtain ⟨hmem, hp⟩ := List.mem_filter.1 ha
  obtain ⟨-, -, hne⟩ := of_decide_eq_true hp
  exact ⟨hne, ht.aliasMod a hmem,
    Option.isSome_iff_exists.2 ⟨b.2, Table.get?_eq_some.2 hb⟩⟩

/-- What the reconciliation has come to: the mods that are gone are not there, and the others of
    the pairs that are left are. -/
structure Reconciling (pairs : List (ℕ × ℕ)) (acc : Tables × List ℕ) : Prop where
  integrity : acc.1.Integrity
  pairs : ∀ pair ∈ pairs, pair.1 ≠ pair.2 ∧ (pair.1 ∉ acc.2 → acc.1.HasMod pair.1) ∧
    (pair.2 ∉ acc.2 → acc.1.HasMod pair.2)

theorem Reconciling.step {pair : ℕ × ℕ} {pairs : List (ℕ × ℕ)} {acc : Tables × List ℕ}
    (h : Reconciling (pair :: pairs) acc) : Reconciling pairs (reconcileStep acc pair) := by
  obtain ⟨⟨hne, h₁, h₂⟩, hpairs⟩ := List.forall_mem_cons.1 h.pairs
  rw [reconcileStep]
  split_ifs with hgone
  · exact ⟨h.integrity, hpairs⟩
  rw [not_or] at hgone
  refine ⟨h.integrity.merged (List.cons_ne_nil _ _) ?_, fun q hq => ?_⟩
  · simpa using ⟨h₁ hgone.1, h₂ hgone.2⟩
  · obtain ⟨hqne, hq₁, hq₂⟩ := hpairs q hq
    simp only [List.mem_append, not_or, hasMod_merged]
    exact ⟨hqne, fun hq => ⟨hq₁ hq.2, hq.1⟩, fun hq => ⟨hq₂ hq.2, hq.1⟩⟩

/-- A mod that is not gone stays. -/
theorem hasMod_reconcileAll {id : ℕ} {pairs : List (ℕ × ℕ)} {acc : Tables × List ℕ}
    (hid : acc.1.HasMod id) (hgone : id ∉ (pairs.foldl reconcileStep acc).2) :
    (pairs.foldl reconcileStep acc).1.HasMod id := by
  have hsub : ∀ (pairs : List (ℕ × ℕ)) (acc : Tables × List ℕ), ∀ x ∈ acc.2,
      x ∈ (pairs.foldl reconcileStep acc).2 := by
    intro pairs
    induction pairs with
    | nil => exact fun _ _ h => h
    | cons pair pairs ih =>
      intro acc x hx
      refine ih _ x ?_
      rw [reconcileStep]
      split_ifs
      · exact hx
      · exact List.mem_append_right _ hx
  induction pairs generalizing acc with
  | nil => exact hid
  | cons pair pairs ih =>
    refine ih ?_ hgone
    have hnot : id ∉ (reconcileStep acc pair).2 := fun h => hgone (hsub pairs _ id h)
    rw [reconcileStep] at hnot ⊢
    split_ifs at hnot ⊢
    · exact hid
    · exact hasMod_merged.2 ⟨hid, fun h => hnot (List.mem_append_left _ h)⟩

end Reconcile

/-! ## The whole -/

/-- A project that no mod has is attached to the mod of its slug. -/
def linkStep (t : Tables) (project : String × String) : Tables :=
  match t.modIdForAlias .modrinth project.1, t.modIdForSelector project.2 with
  | none, some modId => t.attach modId (.modrinth, project.1)
  | _, _ => t

theorem same_linkStep {t t' : Tables} (h : Same names t t') (project : String × String) :
    Same names (linkStep t project) (linkStep t' project) := by
  have halias : t'.modIdForAlias = t.modIdForAlias := eq_of_same_names h fun _ => rfl
  have hselector : t'.modIdForSelector = t.modIdForSelector := eq_of_same_names h fun _ => rfl
  rw [linkStep, linkStep, halias, hselector]
  split
  · next modId _ _ =>
    exact eq_of_same_names (f := fun t => names (t.attach modId _)) h fun _ => rfl
  · exact h

/-- A mod is neither made nor folded away. -/
theorem mods_linkStep {t : Tables} (project : String × String) :
    (linkStep t project).mods = t.mods := by
  rw [linkStep]
  split <;> rfl

theorem mods_linkAll {t : Tables} (projects : List (String × String)) :
    (projects.foldl linkStep t).mods = t.mods := by
  induction projects generalizing t with
  | nil => rfl
  | cons project projects ih => exact ih.trans (mods_linkStep project)

/-- The packages are derived anew. -/
def bare (t : Tables) : Tables := { t with packages := [] }

/-- The mods, their names and their packages as a harvest leaves them. -/
def namesAfter (plan : Plan) (t : Tables) (scan : ScanData) : Tables :=
  scan.depProjectSlugs.foldl linkStep (reconciled plan (putAllDown (bare t) scan.jars)).1

end Harvest

end Smrt
