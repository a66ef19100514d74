import Smrt.Lib.Partition
import Smrt.Registry.Fold

/-!
# Identities that collide

A mod is found by any of the names that a jar carries for it (`upsertModByAlias`), and made if there
is none. Names of several mods mean that these are one mod under several identities: they are
folded into one (`mergeCollidedMods`), unless two of them are precious.

Without precious mods the names fall into classes as the jars connect them
(`upsertModByAlias_partition`); with them, a precious mod keeps all it has.
-/

namespace Smrt

namespace Registry

open Tables

/-- A name that a mod is known by. -/
abbrev Alias := AliasSource × String

/-- The mod that a name belongs to. -/
def Tables.owner (t : Tables) (k : Alias) : Option ℕ := t.modIdForAlias k.1 k.2

def Tables.isPrecious (t : Tables) (id : ℕ) : Bool :=
  (t.mods.get? id).any fun m => m.source.isPrecious

/-- A name is attached to a mod, unless it belongs to one. -/
def Tables.attach (t : Tables) (modId : ℕ) (k : Alias) : Tables :=
  { t with aliases :=
      if t.aliases.any fun a => a.source = k.1 ∧ a.externalKey = k.2 then t.aliases
      else t.aliases ++ [⟨modId, k.1, k.2⟩] }

/-- The precious ones among some mods, which have to be there. -/
def preciousOf : List ℕ → Conn (List ℕ)
  | [] => pure []
  | id :: ids => do
    let t ← Txn.read
    let m ← queryRow (t.mods.get? id)
    let precious ← preciousOf ids
    pure (if m.source.isPrecious then id :: precious else precious)

/-- Some mods are folded into one of them, which is returned; if two are precious, nothing is done. -/
def mergeCollidedMods (matched : List ℕ) : Conn ℕ := do
  let precious ← preciousOf matched
  if 2 ≤ precious.length then pure (precious.min?.getD 0) else do
    let canonical := precious.head?.getD (matched.min?.getD 0)
    matched.forM fun other => if other ≠ canonical then foldMods other canonical else pure ()
    pure canonical

/-- The mods that the names of a list belong to. -/
def Tables.matched (t : Tables) (aliases : List Alias) : List ℕ := (aliases.filterMap t.owner).eraseDups

/-- The tables with a new mod. -/
def Tables.newMod (t : Tables) : Tables :=
  { t with mods := t.mods.insert { slug := none, canonicalName := none, source := .harvested } }

/-- The mod of the names of a list: a new one, the only one, or the one that several become. -/
def findMod (aliases : List Alias) : Conn ℕ := do
  let t ← Txn.read
  match t.matched aliases with
  | [] => do
    execute Tables.newMod
    pure t.mods.nextId
  | [id] => pure id
  | matched => mergeCollidedMods matched

/-- The mod of the names of a list, to which those are attached that belong to no mod. -/
def upsertModByAlias (aliases : List Alias) : Conn ℕ := do
  let modId ← findMod aliases
  aliases.forM fun k => execute fun t => t.attach modId k
  pure modId

/-- The calls of a list, in turn. -/
def upsertAll : List (List Alias) → Conn (List ℕ)
  | [] => pure []
  | aliases :: calls => do
    let id ← upsertModByAlias aliases
    let ids ← upsertAll calls
    pure (id :: ids)

/-! ## What a call does -/

/-- The mods of a list are folded into one, in turn. -/
def Tables.foldAll (t : Tables) (gone : List ℕ) (intoModId : ℕ) : Tables :=
  gone.foldl (fun t fromModId => t.folded fromModId intoModId) t

/-- The mod that the mods of a list are folded into. -/
def Tables.survivor (t : Tables) (matched : List ℕ) : ℕ :=
  (matched.filter t.isPrecious).min?.getD (matched.min?.getD 0)

/-- The mods of a list that are folded away. -/
def Tables.foldedAway (t : Tables) (matched : List ℕ) : List ℕ :=
  if 2 ≤ (matched.filter t.isPrecious).length then []
  else matched.filter fun id => id ≠ t.survivor matched

/-- The tables after some mods are folded into one of them. -/
def Tables.merged (t : Tables) (matched : List ℕ) : Tables :=
  t.foldAll (t.foldedAway matched) (t.survivor matched)

/-- The mod of the names of a list. -/
def Tables.aliasMod (t : Tables) (aliases : List Alias) : ℕ :=
  match t.matched aliases with
  | [] => t.mods.nextId
  | matched => t.survivor matched

/-- The tables with the mod of the names of a list. -/
def Tables.found (t : Tables) (aliases : List Alias) : Tables :=
  match t.matched aliases with
  | [] => t.newMod
  | matched => t.merged matched

/-- The tables after the names of a list are put down to one mod. -/
def Tables.collapsed (t : Tables) (aliases : List Alias) : Tables :=
  aliases.foldl (fun t' k => t'.attach (t.aliasMod aliases) k) (t.found aliases)

section Lands

variable {t : Tables}

theorem lands_preciousOf {ids : List ℕ} (hids : ∀ id ∈ ids, t.HasMod id) :
    Txn.Lands (fun t' => t' = t) (preciousOf ids) fun precious t' =>
      precious = ids.filter t.isPrecious ∧ t' = t := by
  induction ids with
  | nil => exact Txn.Lands.pure fun t' _ he => ⟨rfl, he⟩
  | cons id ids ih =>
    obtain ⟨hid, hids⟩ := List.forall_mem_cons.1 hids
    obtain ⟨m, hm⟩ := Option.isSome_iff_exists.1 hid
    refine Txn.Lands.read_bind fun t₁ _ he => ?_
    subst he
    refine Txn.Lands.bind (Q := fun m' t' => m' = m ∧ t' = t₁)
      (lands_queryRow fun t' he => ⟨m, hm, rfl, he⟩) fun m' => ?_
    refine Txn.Lands.of_forall fun hm' => ?_
    subst hm'
    refine Txn.Lands.bind (ih hids) fun precious => Txn.Lands.pure fun t' _ ⟨hp, he⟩ => ⟨?_, he⟩
    have hid' : t₁.isPrecious id = m'.source.isPrecious := by rw [isPrecious, hm, Option.any_some]
    rw [List.filter_cons, hid', hp]

/-- The mods of a list are folded into one. -/
theorem lands_foldAll {gone : List ℕ} {intoModId : ℕ} (hgone : ∀ id ∈ gone, id ≠ intoModId)
    (ht : t.Integrity) (hinto : t.HasMod intoModId) :
    Txn.Lands (fun t' => t' = t) (gone.forM fun other => foldMods other intoModId) fun _ t' =>
      t' = t.foldAll gone intoModId := by
  induction gone generalizing t with
  | nil => exact Txn.Lands.pure fun t' _ he => he
  | cons other gone ih =>
    obtain ⟨hother, hgone⟩ := List.forall_mem_cons.1 hgone
    refine Txn.Lands.bind (lands_foldMods hother ht hinto) fun _ => Txn.Lands.of_eq fun t' ht' he => ?_
    subst he
    refine ih hgone ht' ?_
    rw [HasMod, get?_mods_folded, if_neg hother.symm]
    exact hinto

/-- The survivor is one of them. -/
theorem Tables.survivor_mem {matched : List ℕ} (h : matched ≠ []) : t.survivor matched ∈ matched := by
  rw [survivor]
  rcases hp : (matched.filter t.isPrecious).min? with _ | p
  · obtain ⟨m, hm⟩ := Option.isSome_iff_exists.1 (List.isSome_min?_iff.2 h)
    rw [hm]
    exact List.min?_mem hm
  · exact List.mem_of_mem_filter (List.min?_mem hp)

/-- The survivor is precious, or none of them is lower. -/
theorem Tables.survivor_lower {matched : List ℕ} {id : ℕ} (hid : id ∈ matched) :
    t.survivor matched ≤ id ∨ t.isPrecious (t.survivor matched) = true := by
  rw [survivor]
  rcases hp : (matched.filter t.isPrecious).min? with _ | p
  · obtain ⟨m, hm⟩ := Option.isSome_iff_exists.1 (List.isSome_min?_iff.2 (List.ne_nil_of_mem hid))
    rw [hm]
    exact .inl ((List.min?_eq_some_iff.1 hm).2 id hid)
  · exact .inr (List.mem_filter.1 (List.min?_mem hp)).2

theorem Tables.mem_of_mem_foldedAway {matched : List ℕ} {id : ℕ} (hid : id ∈ t.foldedAway matched) :
    id ∈ matched := by
  rw [foldedAway] at hid
  split_ifs at hid
  · cases hid
  · exact List.mem_of_mem_filter hid

theorem Tables.survivor_singleton (id : ℕ) : t.survivor [id] = id :=
  List.mem_singleton.1 (survivor_mem (List.cons_ne_nil id []))

theorem Tables.merged_singleton (id : ℕ) : t.merged [id] = t := by
  have hgone : t.foldedAway [id] = [] := by
    rw [foldedAway, survivor_singleton]
    split_ifs <;> simp
  rw [merged, hgone]
  rfl

theorem forM_foldMods {matched : List ℕ} {canonical : ℕ} :
    (matched.forM fun other => if other ≠ canonical then foldMods other canonical else pure ()) =
      (matched.filter fun id => id ≠ canonical).forM fun other => foldMods other canonical := by
  induction matched with
  | nil => rfl
  | cons other matched ih =>
    rw [List.filter_cons]
    by_cases hother : other = canonical
    · rw [if_neg (by simp [hother]), ← ih]
      exact congrArg (· >>= fun _ => _) (if_neg (not_not_intro hother))
    · rw [if_pos (decide_eq_true hother)]
      exact congrArg₂ (fun m k => m >>= fun _ : PUnit => k) (if_pos hother) ih

theorem lands_mergeCollidedMods {matched : List ℕ} (hmods : ∀ id ∈ matched, t.HasMod id)
    (hne : matched ≠ []) (ht : t.Integrity) :
    Txn.Lands (fun t' => t' = t) (mergeCollidedMods matched) fun id t' =>
      id = t.survivor matched ∧ t' = t.merged matched := by
  refine Txn.Lands.bind (lands_preciousOf hmods) fun precious => Txn.Lands.of_forall fun hp => ?_
  have hinto : t.HasMod (t.survivor matched) := hmods _ (survivor_mem hne)
  rw [merged, foldedAway, ← hp]
  dsimp only
  by_cases htwo : 2 ≤ precious.length
  · rw [if_pos htwo, if_pos htwo]
    refine Txn.Lands.pure fun t' _ he => ⟨?_, he⟩
    rw [survivor, ← hp]
    obtain ⟨p, hmin⟩ := Option.isSome_iff_exists.1 (List.isSome_min?_iff.2
      (List.ne_nil_of_length_pos (by omega : 0 < precious.length)))
    rw [hmin, Option.getD_some, Option.getD_some]
  · rw [if_neg htwo, if_neg htwo]
    have hcanonical : precious.head?.getD (matched.min?.getD 0) = t.survivor matched := by
      rw [survivor, ← hp]
      match precious, htwo with
      | [], _ => rfl
      | [p], _ => rfl
      | p :: q :: l, htwo => exact absurd (by simp) htwo
    rw [hcanonical, forM_foldMods]
    refine Txn.Lands.bind (lands_foldAll (fun id hid => ?_) ht hinto) fun _ =>
      Txn.Lands.pure fun t' _ he => ⟨rfl, he⟩
    exact of_decide_eq_true (List.mem_filter.1 hid).2

/-- The mod that a name belongs to is there. -/
theorem Tables.Integrity.hasMod_of_owner (ht : t.Integrity) {k : Alias} {id : ℕ}
    (h : t.owner k = some id) : t.HasMod id := by
  obtain ⟨a, ha, rfl⟩ := Option.map_eq_some_iff.1 h
  exact ht.aliasMod a (List.mem_of_find?_eq_some ha)

theorem Tables.mem_matched {aliases : List Alias} {id : ℕ} :
    id ∈ t.matched aliases ↔ ∃ k ∈ aliases, t.owner k = some id := by
  rw [matched, List.mem_eraseDups, List.mem_filterMap]

theorem lands_attach (ht : t.Integrity) {modId : ℕ} (hmod : t.HasMod modId) (k : Alias) :
    Txn.Lands (fun t' => t' = t) (execute fun t => t.attach modId k) fun _ t' =>
      t' = t.attach modId k := by
  refine lands_execute fun t' _ he => ?_
  subst he
  refine ⟨?_, rfl⟩
  rw [attach]
  split_ifs with hany
  · exact ht
  · refine ht.of_aliases ?_ ?_
    · exact List.forall_mem_append.2 ⟨ht.aliasMod, List.forall_mem_singleton.2 hmod⟩
    · rw [List.map_append, List.map_singleton]
      refine List.nodup_append.2 ⟨ht.aliasKey, List.nodup_singleton _, ?_⟩
      rintro x hx y hy rfl
      obtain ⟨a, ha, hak⟩ := List.mem_map.1 hx
      rw [List.mem_singleton.1 hy] at hak
      exact hany (List.any_eq_true.2 ⟨a, ha, decide_eq_true (Prod.mk.inj hak)⟩)

theorem lands_attachAll {aliases : List Alias} (ht : t.Integrity) {modId : ℕ}
    (hmod : t.HasMod modId) :
    Txn.Lands (fun t' => t' = t) (aliases.forM fun k => execute fun t => t.attach modId k)
      fun _ t' => t' = aliases.foldl (fun t' k => t'.attach modId k) t := by
  induction aliases generalizing t with
  | nil => exact Txn.Lands.pure fun t' _ he => he
  | cons k aliases ih =>
    refine Txn.Lands.bind (lands_attach ht hmod k) fun _ => Txn.Lands.of_eq fun t' ht' he => ?_
    subst he
    exact ih ht' hmod

theorem Tables.Integrity.newMod (ht : t.Integrity) : t.newMod.Integrity :=
  ht.of_mods fun _ hid => Table.isSome_get?_insert hid

theorem Tables.get?_mods_foldAll {gone : List ℕ} {intoModId id : ℕ} :
    (t.foldAll gone intoModId).mods.get? id = if id ∈ gone then none else t.mods.get? id := by
  induction gone generalizing t with
  | nil => exact (if_neg List.not_mem_nil).symm
  | cons other gone ih =>
    refine ih.trans ?_
    rw [get?_mods_folded]
    split_ifs with h₁ h₂ h₃ h₄ <;> simp_all

theorem Tables.survivor_notMem_foldedAway {matched : List ℕ} :
    t.survivor matched ∉ t.foldedAway matched := by
  rw [foldedAway]
  split_ifs
  · exact List.not_mem_nil
  · exact fun h => of_decide_eq_true (List.mem_filter.1 h).2 rfl

/-- The mod of the names of a list is found. -/
theorem Tables.hasMod_found {aliases : List Alias} (hmods : ∀ id ∈ t.matched aliases, t.HasMod id) :
    (t.found aliases).HasMod (t.aliasMod aliases) := by
  rw [found, aliasMod]
  split
  · exact Option.isSome_iff_exists.2 ⟨_, Table.get?_insert_nextId⟩
  · next hne =>
    rw [HasMod, merged, get?_mods_foldAll, if_neg survivor_notMem_foldedAway]
    exact hmods _ (survivor_mem hne)

theorem Tables.Integrity.hasMod_of_matched (ht : t.Integrity) (aliases : List Alias) :
    ∀ id ∈ t.matched aliases, t.HasMod id := by
  intro id hid
  obtain ⟨k, -, hk⟩ := mem_matched.1 hid
  exact ht.hasMod_of_owner hk

theorem lands_findMod (ht : t.Integrity) (aliases : List Alias) :
    Txn.Lands (fun t' => t' = t) (findMod aliases) fun id t' =>
      id = t.aliasMod aliases ∧ t' = t.found aliases := by
  refine Txn.Lands.read_bind fun t' _ he => ?_
  subst he
  rw [aliasMod, found]
  have hmods := ht.hasMod_of_matched aliases
  rcases hm : t'.matched aliases with _ | ⟨id, _ | ⟨id', ids⟩⟩
  · exact Txn.Lands.bind (lands_execute fun t₁ ht₁ he => ⟨ht₁.newMod, he ▸ rfl⟩) fun _ =>
      Txn.Lands.pure fun t₁ _ he => ⟨rfl, he⟩
  · exact Txn.Lands.pure fun t₁ _ he =>
      ⟨(survivor_singleton id).symm, he.trans (merged_singleton id).symm⟩
  · exact lands_mergeCollidedMods (hm ▸ hmods) (by simp) ht

/-- The names of a list are put down to one mod, and the call does not fail. -/
theorem lands_upsertModByAlias (ht : t.Integrity) (aliases : List Alias) :
    Txn.Lands (fun t' => t' = t) (upsertModByAlias aliases) fun id t' =>
      id = t.aliasMod aliases ∧ t' = t.collapsed aliases := by
  refine Txn.Lands.bind (lands_findMod ht aliases) fun id => Txn.Lands.of_forall fun hid =>
    Txn.Lands.of_eq fun t₁ ht₁ he => ?_
  subst hid he
  exact Txn.Lands.bind (lands_attachAll ht₁ (hasMod_found (ht.hasMod_of_matched aliases))) fun _ =>
    Txn.Lands.pure fun t₁ _ he => ⟨rfl, he⟩

end Lands

/-! ## Who owns what -/

section Owner

variable {t : Tables}

theorem Tables.owner_folded {fromModId intoModId : ℕ} {k : Alias} :
    (t.folded fromModId intoModId).owner k = (t.owner k).map (moveId fromModId intoModId) := by
  rw [owner, modIdForAlias, folded, List.find?_map, Option.map_map, owner, modIdForAlias,
    Option.map_map]
  rfl

theorem Tables.owner_attach {modId : ℕ} {k k' : Alias} :
    (t.attach modId k).owner k' = (t.owner k').or (if k' = k then some modId else none) := by
  have howner : ∀ {l : List AliasRow}, ({ t with aliases := l }).owner k' =
      (l.find? fun a => a.source = k'.1 ∧ a.externalKey = k'.2).map AliasRow.modId := rfl
  rw [attach]
  split_ifs with hany hk hk
  · obtain ⟨a, ha, hak⟩ := List.any_eq_true.1 hany
    have hsome : (t.owner k').isSome := by
      rw [owner, modIdForAlias, Option.isSome_map, List.find?_isSome, hk]
      exact ⟨a, ha, hak⟩
    obtain ⟨id, hid⟩ := Option.isSome_iff_exists.1 hsome
    show t.owner k' = (t.owner k').or _
    rw [hid, Option.some_or]
  · rw [Option.or_none]
  · rw [howner, List.find?_append, Option.map_or]
    congr 1
    simp [hk]
  · rw [howner, List.find?_append, Option.map_or]
    congr 1
    have hne : ¬ (k.1 = k'.1 ∧ k.2 = k'.2) := fun h => hk (Prod.ext h.1.symm h.2.symm)
    simp [hne]

theorem Tables.owner_attachAll {modId : ℕ} {aliases : List Alias} {k : Alias} :
    (aliases.foldl (fun t' k => t'.attach modId k) t).owner k =
      (t.owner k).or (if k ∈ aliases then some modId else none) := by
  induction aliases generalizing t with
  | nil => rw [if_neg List.not_mem_nil, Option.or_none]; rfl
  | cons k' aliases ih =>
    refine ih.trans ?_
    rw [owner_attach, Option.or_assoc]
    congr 1
    by_cases hk : k = k'
    · rw [if_pos hk, if_pos (List.mem_cons.2 (.inl hk)), Option.some_or]
    · rw [if_neg hk, Option.none_or]
      simp [hk]

/-- Attaching names changes nothing else. -/
theorem Tables.attachAll_eq {modId : ℕ} {aliases : List Alias} :
    aliases.foldl (fun t' k => t'.attach modId k) t =
      { t with aliases := (aliases.foldl (fun t' k => t'.attach modId k) t).aliases } := by
  induction aliases generalizing t with
  | nil => rfl
  | cons k aliases ih => exact ih.trans rfl

/-- The mod that a row is put down to when some mods are folded into one. -/
def moveAll (gone : List ℕ) (intoModId id : ℕ) : ℕ := if id ∈ gone then intoModId else id

theorem moveAll_nil {intoModId : ℕ} : moveAll [] intoModId = id :=
  funext fun _ => if_neg List.not_mem_nil

theorem moveAll_cons {other intoModId : ℕ} {gone : List ℕ} (hinto : intoModId ∉ gone) (id : ℕ) :
    moveAll gone intoModId (moveId other intoModId id) = moveAll (other :: gone) intoModId id := by
  rw [moveAll, moveAll, moveId]
  by_cases hid : id = other
  · rw [if_pos hid, if_neg hinto, if_pos (List.mem_cons.2 (.inl hid))]
  · simp [hid]

theorem Tables.owner_foldAll {gone : List ℕ} {intoModId : ℕ} (hinto : intoModId ∉ gone)
    {k : Alias} : (t.foldAll gone intoModId).owner k = (t.owner k).map (moveAll gone intoModId) := by
  induction gone generalizing t with
  | nil => rw [moveAll_nil, Option.map_id]; rfl
  | cons other gone ih =>
    obtain ⟨-, hgone⟩ := not_or.1 (mt List.mem_cons.2 hinto)
    refine (ih hgone).trans ?_
    rw [owner_folded, Option.map_map]
    exact congrArg (Option.map · _) (funext (moveAll_cons hgone))

/-- The mod of a file. -/
def Tables.fileMod (t : Tables) (id : ℕ) : Option ℕ := (t.versions.get? id).map VersionRow.modId

theorem Tables.fileMod_foldAll {gone : List ℕ} {intoModId : ℕ} (hinto : intoModId ∉ gone) {id : ℕ} :
    (t.foldAll gone intoModId).fileMod id = (t.fileMod id).map (moveAll gone intoModId) := by
  induction gone generalizing t with
  | nil => rw [moveAll_nil, Option.map_id]; rfl
  | cons other gone ih =>
    obtain ⟨-, hgone⟩ := not_or.1 (mt List.mem_cons.2 hinto)
    refine (ih hgone).trans ?_
    have hfile : (t.folded other intoModId).fileMod id = (t.fileMod id).map (moveId other intoModId) := by
      rw [fileMod, folded, Table.get?_map, Option.map_map, fileMod, Option.map_map]
      rfl
    rw [hfile, Option.map_map]
    exact congrArg (Option.map · _) (funext (moveAll_cons hgone))

/-- What belongs to the mods of the names of a list belongs to one mod. -/
def Tables.renamed (t : Tables) (aliases : List Alias) : ℕ → ℕ :=
  moveAll (t.foldedAway (t.matched aliases)) (t.aliasMod aliases)

theorem Tables.aliasMod_notMem_foldedAway {aliases : List Alias} :
    t.aliasMod aliases ∉ t.foldedAway (t.matched aliases) := by
  rw [aliasMod]
  split
  · next hm =>
    rw [hm, foldedAway]
    split_ifs <;> simp
  · exact survivor_notMem_foldedAway

theorem Tables.found_eq {aliases : List Alias} (hm : t.matched aliases ≠ []) :
    t.found aliases = t.foldAll (t.foldedAway (t.matched aliases)) (t.aliasMod aliases) := by
  rw [found, aliasMod]
  split
  · next h => exact absurd h hm
  · rfl

theorem Tables.foldedAway_nil : t.foldedAway [] = [] := by
  rw [foldedAway]
  split_ifs <;> rfl

/-- The names of the mods, and those of the list, belong to one mod; the others stay. -/
theorem Tables.owner_collapsed {aliases : List Alias} {k : Alias} :
    (t.collapsed aliases).owner k = ((t.owner k).map (t.renamed aliases)).or
      (if k ∈ aliases then some (t.aliasMod aliases) else none) := by
  rw [collapsed, owner_attachAll]
  congr 1
  by_cases hm : t.matched aliases = []
  · rw [found, renamed]
    simp only [hm, foldedAway_nil, moveAll_nil, Option.map_id]
    rfl
  · rw [found_eq hm, owner_foldAll aliasMod_notMem_foldedAway]
    rfl

theorem Tables.fileMod_collapsed {aliases : List Alias} {id : ℕ} :
    (t.collapsed aliases).fileMod id = (t.fileMod id).map (t.renamed aliases) := by
  rw [fileMod, collapsed, attachAll_eq]
  by_cases hm : t.matched aliases = []
  · rw [found, renamed]
    simp only [hm, foldedAway_nil, moveAll_nil, Option.map_id]
    rfl
  · rw [found_eq hm]
    exact fileMod_foldAll aliasMod_notMem_foldedAway

theorem Tables.mods_collapsed {aliases : List Alias} :
    (t.collapsed aliases).mods = (t.found aliases).mods := by
  rw [collapsed, attachAll_eq]

/-- A mod is folded away, or its row stays. -/
theorem Tables.get?_mods_collapsed {aliases : List Alias} {id : ℕ} {m : ModRow}
    (hm : t.mods.get? id = some m) : (t.collapsed aliases).mods.get? id =
      if id ∈ t.foldedAway (t.matched aliases) then none else some m := by
  rw [mods_collapsed]
  by_cases hmatched : t.matched aliases = []
  · rw [found]
    simp only [hmatched, foldedAway_nil, if_neg List.not_mem_nil]
    exact (Table.get?_insert_of_ne (Table.lt_nextId_of_get? hm).ne).trans hm
  · rw [found_eq hmatched, get?_mods_foldAll, hm]

theorem Tables.Integrity.collapsed (ht : t.Integrity) (aliases : List Alias) :
    (t.collapsed aliases).Integrity := by
  obtain ⟨id, s, -, -, he⟩ := lands_upsertModByAlias ht aliases ⟨t, ht⟩ rfl
  exact he ▸ s.2

theorem Tables.Integrity.merged (ht : t.Integrity) {matched : List ℕ} (hne : matched ≠ [])
    (hmods : ∀ id ∈ matched, t.HasMod id) : (t.merged matched).Integrity := by
  obtain ⟨id, s, -, -, he⟩ := lands_mergeCollidedMods hmods hne ht ⟨t, ht⟩ rfl
  exact he ▸ s.2

theorem Tables.isSome_fileMod {id : ℕ} : (t.fileMod id).isSome = (t.versions.get? id).isSome := by
  rw [fileMod, Option.isSome_map]

theorem Tables.hasVersion_collapsed {aliases : List Alias} {id : ℕ} :
    (t.collapsed aliases).HasVersion id ↔ t.HasVersion id := by
  rw [HasVersion, HasVersion, ← isSome_fileMod, ← isSome_fileMod, fileMod_collapsed,
    Option.isSome_map]

theorem Tables.hasVersion_merged {matched : List ℕ} {id : ℕ} :
    (t.merged matched).HasVersion id ↔ t.HasVersion id := by
  rw [HasVersion, HasVersion, ← isSome_fileMod, ← isSome_fileMod, merged,
    fileMod_foldAll survivor_notMem_foldedAway, Option.isSome_map]

/-- The mod of the names of a list is there. -/
theorem Tables.Integrity.hasMod_collapsed (ht : t.Integrity) (aliases : List Alias) :
    (t.collapsed aliases).HasMod (t.aliasMod aliases) := by
  rw [HasMod, mods_collapsed]
  exact hasMod_found (ht.hasMod_of_matched aliases)

/-- A mod that is new is harvested. -/
theorem Tables.mods_collapsed_all {p : ModRow → Prop} {aliases : List Alias} (h : t.mods.All p)
    (hnew : p { slug := none, canonicalName := none, source := .harvested }) :
    (t.collapsed aliases).mods.All p := by
  rw [mods_collapsed]
  by_cases hmatched : t.matched aliases = []
  · rw [found]
    simp only [hmatched]
    exact h.insert hnew
  · rw [found_eq hmatched]
    refine Table.all_of_get? fun id m hm => ?_
    rw [get?_mods_foldAll] at hm
    split_ifs at hm
    exact h.get hm

/-- No precious mod is folded away. -/
theorem Tables.isPrecious_foldedAway {matched : List ℕ} {id : ℕ} (h : id ∈ t.foldedAway matched) :
    t.isPrecious id = false := by
  by_contra hp
  rw [Bool.not_eq_false] at hp
  rw [foldedAway] at h
  split_ifs at h with htwo
  · cases h
  · obtain ⟨hid, hne⟩ := List.mem_filter.1 h
    -- It would be the only precious one, and so the one that survives.
    have hmem : id ∈ matched.filter t.isPrecious := List.mem_filter.2 ⟨hid, hp⟩
    refine of_decide_eq_true hne ?_
    rw [survivor]
    match hl : matched.filter t.isPrecious, hmem, htwo with
    | [q], hmem, _ => exact List.mem_singleton.1 hmem
    | _ :: _ :: _, _, htwo => exact absurd (by simp) htwo

end Owner

/-! ## The partition -/

section Partition

/-- No mod is precious. -/
def Tables.NoPrecious (t : Tables) : Prop := t.mods.All fun m => m.source.isPrecious = false

variable {t : Tables}

theorem Tables.NoPrecious.isPrecious (h : t.NoPrecious) (id : ℕ) : t.isPrecious id = false := by
  rw [Tables.isPrecious]
  rcases hm : t.mods.get? id with _ | m
  · rfl
  · exact h.get hm

/-- Without precious mods, all mods of the names but one are folded away. -/
theorem Tables.NoPrecious.foldedAway (h : t.NoPrecious) (matched : List ℕ) :
    t.foldedAway matched = matched.filter fun id => id ≠ t.survivor matched := by
  have hnone : matched.filter t.isPrecious = [] :=
    List.filter_eq_nil_iff.2 fun id _ => Bool.eq_false_iff.1 (h.isPrecious id)
  rw [Tables.foldedAway, hnone]
  exact if_neg (by simp)

theorem Tables.NoPrecious.renamed (h : t.NoPrecious) {aliases : List Alias} {id : ℕ} :
    t.renamed aliases id = if id ∈ t.matched aliases then t.aliasMod aliases else id := by
  rw [Tables.renamed, moveAll, h.foldedAway]
  by_cases hid : id ∈ t.matched aliases
  · rw [if_pos hid]
    by_cases hs : id = t.survivor (t.matched aliases)
    · have hmod : t.aliasMod aliases = t.survivor (t.matched aliases) := by
        rw [aliasMod]
        split
        · next hm =>
          rw [hm] at hid
          cases hid
        · rfl
      rw [if_neg (by simp [hs]), hmod]
      exact hs
    · exact if_pos (List.mem_filter.2 ⟨hid, decide_eq_true hs⟩)
  · rw [if_neg hid, if_neg fun hid' => hid (List.mem_of_mem_filter hid')]

/-- Without precious mods, a call joins the names of its list. -/
theorem Tables.NoPrecious.joined (h : t.NoPrecious) (ht : t.Integrity) (aliases : List Alias) :
    Joined aliases t.owner (t.collapsed aliases).owner := by
  have hgoes : ∀ k, GoesWith t.owner aliases k ↔
      k ∈ aliases ∨ ∃ id ∈ t.matched aliases, t.owner k = some id := by
    intro k
    refine or_congr_right ?_
    constructor
    · rintro ⟨a, ha, id, hida, hidk⟩
      exact ⟨id, mem_matched.2 ⟨a, ha, hida⟩, hidk⟩
    · rintro ⟨id, hid, hidk⟩
      obtain ⟨a, ha, hida⟩ := mem_matched.1 hid
      exact ⟨a, ha, id, hida, hidk⟩
  have hone : ∀ k, GoesWith t.owner aliases k →
      (t.collapsed aliases).owner k = some (t.aliasMod aliases) := by
    intro k hk
    rw [owner_collapsed]
    rcases howner : t.owner k with _ | id
    · rcases (hgoes k).1 hk with hmem | ⟨id, -, hid⟩
      · rw [Option.map_none, Option.none_or, if_pos hmem]
      · exact absurd (howner.symm.trans hid) nofun
    · have hid : id ∈ t.matched aliases := by
        rcases (hgoes k).1 hk with hmem | ⟨id', hid', hidk⟩
        · exact mem_matched.2 ⟨k, hmem, howner⟩
        · exact Option.some.inj (howner.symm.trans hidk) ▸ hid'
      rw [Option.map_some, Option.some_or, h.renamed, if_pos hid]
  have hother : ∀ k, ¬ GoesWith t.owner aliases k → (t.collapsed aliases).owner k = t.owner k := by
    intro k hk
    rw [hgoes, not_or] at hk
    rw [owner_collapsed, if_neg hk.1, Option.or_none]
    rcases howner : t.owner k with _ | id
    · rfl
    · rw [Option.map_some, h.renamed, if_neg fun hid => hk.2 ⟨id, hid, howner⟩]
  refine ⟨⟨_, hone⟩, hother, fun k k' hk hk' he => ?_⟩
  rw [hone k hk, hother k' hk'] at he
  rw [hgoes, not_or] at hk'
  -- The mod of the list is one of those that its names had, or it is new.
  rw [aliasMod] at he
  split at he
  · exact absurd (ht.hasMod_of_owner he.symm)
      (by rw [HasMod, Table.get?_of_nextId_le le_rfl]; exact Bool.false_ne_true)
  · next hne => exact hk'.2 ⟨_, survivor_mem hne, he.symm⟩

/-- A precious mod stays, with the names and the files it has. -/
structure PreciousStay (t t' : Tables) : Prop where
  row : ∀ id m, t.mods.get? id = some m → m.source.isPrecious = true → t'.mods.get? id = some m
  names : ∀ id k, t.isPrecious id = true → t.owner k = some id → t'.owner k = some id
  files : ∀ id f, t.isPrecious id = true → t.fileMod f = some id → t'.fileMod f = some id

theorem PreciousStay.trans {t₁ t₂ t₃ : Tables} (h : PreciousStay t₁ t₂) (h' : PreciousStay t₂ t₃) :
    PreciousStay t₁ t₃ := by
  have hprecious : ∀ id, t₁.isPrecious id = true → t₂.isPrecious id = true := by
    intro id hid
    rw [isPrecious, Option.any_eq_true] at hid ⊢
    obtain ⟨m, hm, hsource⟩ := hid
    exact ⟨m, h.row id m hm hsource, hsource⟩
  exact ⟨fun id m hm hs => h'.row id m (h.row id m hm hs) hs,
    fun id k hid hk => h'.names id k (hprecious id hid) (h.names id k hid hk),
    fun id f hid hf => h'.files id f (hprecious id hid) (h.files id f hid hf)⟩

theorem preciousStay_collapsed (aliases : List Alias) : PreciousStay t (t.collapsed aliases) := by
  have hstays : ∀ id, t.isPrecious id = true → id ∉ t.foldedAway (t.matched aliases) :=
    fun id hid haway => Bool.false_ne_true ((isPrecious_foldedAway haway).symm.trans hid)
  have hrenamed : ∀ id, t.isPrecious id = true → t.renamed aliases id = id :=
    fun id hid => if_neg (hstays id hid)
  refine ⟨fun id m hm hs => ?_, fun id k hid hk => ?_, fun id f hid hf => ?_⟩
  · have hid : t.isPrecious id = true := by rw [isPrecious, hm, Option.any_some, hs]
    rw [get?_mods_collapsed hm, if_neg (hstays id hid)]
  · rw [owner_collapsed, hk, Option.map_some, Option.some_or, hrenamed id hid]
  · rw [fileMod_collapsed, hf, Option.map_some, hrenamed id hid]

/-- A file belongs to the mod that its names belong to. -/
def FilesFollow (t t' : Tables) : Prop := ∀ f k m, t.fileMod f = some m → t.owner k = some m →
  ∃ m', t'.fileMod f = some m' ∧ t'.owner k = some m'

theorem filesFollow_collapsed (aliases : List Alias) : FilesFollow t (t.collapsed aliases) := by
  intro f k m hf hk
  refine ⟨t.renamed aliases m, ?_, ?_⟩
  · rw [fileMod_collapsed, hf, Option.map_some]
  · rw [owner_collapsed, hk, Option.map_some, Option.some_or]

theorem FilesFollow.trans {t₁ t₂ t₃ : Tables} (h : FilesFollow t₁ t₂) (h' : FilesFollow t₂ t₃) :
    FilesFollow t₁ t₃ := by
  intro f k m hf hk
  obtain ⟨m', hf', hk'⟩ := h f k m hf hk
  exact h' f k m' hf' hk'

/-- Any calls land; without precious mods they join the names of their lists. -/
theorem lands_upsertAll (ht : t.Integrity) (calls : List (List Alias)) :
    Txn.Lands (fun t' => t' = t) (upsertAll calls) fun _ t' =>
      PreciousStay t t' ∧ FilesFollow t t' ∧ (t.NoPrecious → Joins calls t.owner t'.owner) := by
  induction calls generalizing t with
  | nil =>
    refine Txn.Lands.pure fun t' _ he => ?_
    subst he
    exact ⟨⟨fun _ _ h _ => h, fun _ _ _ h => h, fun _ _ _ h => h⟩,
      fun _ _ m hf hk => ⟨m, hf, hk⟩, fun _ => .nil _⟩
  | cons aliases calls ih =>
    refine Txn.Lands.bind (lands_upsertModByAlias ht aliases) fun id => Txn.Lands.of_forall fun _ =>
      Txn.Lands.of_eq fun t₁ ht₁ he => ?_
    refine Txn.Lands.bind (ih ht₁) fun ids => Txn.Lands.pure fun t₂ _ h => ?_
    obtain ⟨hstay, hfollow, hjoins⟩ := h
    subst he
    refine ⟨(preciousStay_collapsed aliases).trans hstay,
      (filesFollow_collapsed aliases).trans hfollow, fun hnone => ?_⟩
    exact .cons (hnone.joined ht aliases) (hjoins (mods_collapsed_all hnone rfl))

/-- The names of the lists fall into classes. -/
structure Classes (calls : List (List Alias)) (t t' : Tables) : Prop where
  owned : ∀ k ∈ calls.flatten, ∃! id, t'.HasMod id ∧
    ∃ a ∈ t'.aliases, a.source = k.1 ∧ a.externalKey = k.2 ∧ a.modId = id
  together : ∀ k k', Together t'.owner k k' ↔ Relation.TransGen (Linked t.owner calls) k k'
  files : FilesFollow t t'

/-- A name belongs to one mod. -/
theorem Tables.Integrity.existsUnique_owner (ht : t.Integrity) {k : Alias} {id : ℕ}
    (h : t.owner k = some id) : ∃! id, t.HasMod id ∧
      ∃ a ∈ t.aliases, a.source = k.1 ∧ a.externalKey = k.2 ∧ a.modId = id := by
  obtain ⟨a, hfind, rfl⟩ := Option.map_eq_some_iff.1 h
  have ha := List.mem_of_find?_eq_some hfind
  have hkey : a.source = k.1 ∧ a.externalKey = k.2 := of_decide_eq_true
    (List.find?_some (p := fun a : AliasRow => a.source = k.1 ∧ a.externalKey = k.2) hfind)
  refine ⟨a.modId, ⟨ht.aliasMod a ha, a, ha, hkey.1, hkey.2, rfl⟩, ?_⟩
  rintro id ⟨-, a', ha', hs', hk', rfl⟩
  have he := List.inj_on_of_nodup_map ht.aliasKey ha' ha
    (Prod.ext (hs'.trans hkey.1.symm) (hk'.trans hkey.2.symm))
  rw [he]

/-- Identities collapse as in a union-find: without precious mods, two names belong to one mod if
    and only if the lists connect them, in whatever order they come; and precious mods are never
    merged. -/
theorem upsertModByAlias_partition (s : Stored Tables.Integrity) (calls : List (List Alias)) :
    (∃ ids s', upsertAll calls s = .ok (ids, s') ∧ PreciousStay s.1 s'.1 ∧
      (s.1.NoPrecious → Classes calls s.1 s'.1 ∧
        ∀ calls' ids' s'', calls.Perm calls' → upsertAll calls' s = .ok (ids', s'') →
          ∀ k k', Together s''.1.owner k k' ↔ Together s'.1.owner k k')) ∧
      ∀ aliases, ∃ id s', upsertModByAlias aliases s = .ok (id, s') ∧ s'.1.HasMod id := by
  constructor
  · obtain ⟨ids, s', hrun, hstay, hfollow, hjoins⟩ := lands_upsertAll s.2 calls s rfl
    refine ⟨ids, s', hrun, hstay, fun hnone => ⟨⟨fun k hk => ?_, fun k k' =>
      (hjoins hnone).together_iff, hfollow⟩, fun calls' ids' s'' hperm hrun' k k' => ?_⟩⟩
    · obtain ⟨l, hl, hkl⟩ := List.mem_flatten.1 hk
      obtain ⟨id, hid, -⟩ := (hjoins hnone).together_iff.2
        (.single (.inr ⟨l, hl, hkl, hkl⟩) : Relation.TransGen (Linked s.1.owner calls) k k)
      exact s'.2.existsUnique_owner hid
    · obtain ⟨ids₂, s₂, hrun₂, -, -, hjoins₂⟩ := lands_upsertAll s.2 calls' s rfl
      obtain ⟨-, rfl⟩ := Prod.mk.inj (Except.ok.inj (hrun'.symm.trans hrun₂))
      exact (hjoins₂ hnone).together_iff_of_perm (hjoins hnone) hperm.symm
  · intro aliases
    obtain ⟨id, s', hrun, hid, he⟩ := lands_upsertModByAlias s.2 aliases s rfl
    refine ⟨id, s', hrun, ?_⟩
    rw [HasMod, he, hid, mods_collapsed]
    exact hasMod_found (s.2.hasMod_of_matched aliases)

end Partition

end Registry

end Smrt
