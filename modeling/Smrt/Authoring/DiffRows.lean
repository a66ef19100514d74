import Smrt.Authoring.ConfigDiff
import Smrt.Lib.Accounts

/-!
# What the rows of a diff say

Every declared mod and every asset of two configs is accounted for once by the rows of their diff:
it is the same as one of the other config, or there is a row that says that it came or went
(`Accounted`). So the rows say how many mods and assets there are more, and read backwards the
diff has as many arrivals as it had departures, although which rows are paired depends on the order
of the keys.
-/

namespace Smrt

/-- The mods that a person declared. -/
def declaredMods (cfg : PackConfig) : List DeclaredMod := cfg.mods.filter fun m => !m.pulled

/-- The rows of a diff that say one thing of one part of the config. -/
def ofKind (group : ChangeGroup) (op : ChangeOp) (rows : List ConfigChange) : List ConfigChange :=
  rows.filter fun r => r.group = group ∧ r.op = op

section Reported

variable {α : Type} (group : ChangeGroup) (pin : α → String)
  (changes : String → α → α → List ConfigChange) (removed added : String → α → ConfigChange)

/-- What rows say of two lists of declarations, by an account of what these are under their keys. -/
structure Reported (was now : List α) (keyedWas keyedNow : List (String × α))
    (rows : List ConfigChange) (A : Account α) : Prop extends A.Of pin keyedWas keyedNow where
  nodup : was.Nodup ∧ now.Nodup
  was : (keyedWas.map Prod.snd).Perm was
  now : (keyedNow.map Prod.snd).Perm now
  changed : (ofKind group .change rows).Perm (A.changed changes)
  removed : (ofKind group .remove rows).Perm (A.gone.map fun p => removed p.1 p.2)
  added : (ofKind group .add rows).Perm (A.new.map fun p => added p.1 p.2)

end Reported

section Configs

variable (before after : PackConfig)

/-- What the diff says of the declared mods. -/
def ModsReported (A : Account DeclaredMod) : Prop :=
  Reported .mods (fun m => pin m.source) modChanges
    (fun key m => removed .mods key m.filename m.source)
    (fun key m => added .mods key m.filename m.source) (declaredMods before) (declaredMods after)
    (authoredMods before) (authoredMods after) (diffConfigs before after) A

/-- What the diff says of the assets. -/
def AssetsReported (A : Account DeclaredAsset) : Prop :=
  Reported .assets (fun a => pin a.source) assetChanges
    (fun dest a => removed .assets dest dest a.source)
    (fun dest a => added .assets dest dest a.source) before.assets after.assets
    (assetsByDest before) (assetsByDest after) (diffConfigs before after) A

/-- The declared mods and the assets of two configs are accounted for, and counted, by the rows of
    their diff. -/
structure Accounted : Prop where
  mods : ∃ A, ModsReported before after A
  assets : ∃ A, AssetsReported before after A
  modCount : ((ofKind .mods .add (diffConfigs before after)).length : ℤ) -
    (ofKind .mods .remove (diffConfigs before after)).length =
      (declaredMods after).length - (declaredMods before).length
  assetCount : ((ofKind .assets .add (diffConfigs before after)).length : ℤ) -
    (ofKind .assets .remove (diffConfigs before after)).length =
      after.assets.length - before.assets.length
  /-- Backwards, what came has gone. -/
  inverted : ∀ group, (ofKind group .add (diffConfigs after before)).length =
      (ofKind group .remove (diffConfigs before after)).length ∧
    (ofKind group .remove (diffConfigs after before)).length =
      (ofKind group .add (diffConfigs before after)).length

end Configs

/-! ## Kinds of rows -/

section Kinds

variable {group : ChangeGroup} {op : ChangeOp} {rows rows' : List ConfigChange}
  {before after : PackConfig}

theorem ofKind_append : ofKind group op (rows ++ rows') = ofKind group op rows ++
    ofKind group op rows' := List.filter_append ..

theorem perm_ofKind (h : rows.Perm rows') :
    (ofKind group op rows).Perm (ofKind group op rows') := h.filter _

theorem ofKind_eq_self (h : ∀ r ∈ rows, r.group = group ∧ r.op = op) :
    ofKind group op rows = rows :=
  List.filter_eq_self.2 fun r hr => decide_eq_true (h r hr)

theorem ofKind_eq_nil (h : ∀ r ∈ rows, ¬ (r.group = group ∧ r.op = op)) :
    ofKind group op rows = [] :=
  List.filter_eq_nil_iff.2 fun r hr => by simpa using h r hr

theorem perm_sortRows : (sortRows rows).Perm rows := List.perm_insertionSort _ _

theorem of_mem_ite {α : Type} {p : Prop} [Decidable p] {a b : α}
    (h : b ∈ if p then [a] else []) : b = a := by
  split_ifs at h
  · exact List.mem_singleton.1 h
  · exact absurd h List.not_mem_nil

theorem of_mem_packRows {r : ConfigChange} (h : r ∈ packRows before after) :
    r.group = .pack ∧ r.op = .change := by
  rw [packRows] at h
  simp only [List.mem_append] at h
  rcases h with ((((((((h | h) | h) | h) | h) | h) | h) | h) | h) | h <;>
    exact of_mem_ite h ▸ ⟨rfl, rfl⟩

theorem of_mem_modChanges {key : String} {was now : DeclaredMod} {r : ConfigChange}
    (h : r ∈ modChanges key was now) : r.group = .mods ∧ r.op = .change := by
  rw [modChanges] at h
  simp only [List.mem_append] at h
  rcases h with (((h | h) | h) | h) | h
  · split_ifs at h
    · exact List.mem_singleton.1 h ▸ ⟨rfl, rfl⟩
    · exact List.mem_singleton.1 h ▸ ⟨rfl, rfl⟩
    · exact absurd h List.not_mem_nil
  all_goals exact of_mem_ite h ▸ ⟨rfl, rfl⟩

theorem of_mem_assetChanges {dest : String} {was now : DeclaredAsset} {r : ConfigChange}
    (h : r ∈ assetChanges dest was now) : r.group = .assets ∧ r.op = .change := by
  rw [assetChanges] at h
  simp only [List.mem_append] at h
  rcases h with ((h | h) | h) | h <;> exact of_mem_ite h ▸ ⟨rfl, rfl⟩

end Kinds

section Keyed

variable {α : Type} {group : ChangeGroup} {pin : α → String}
  {changes : String → α → α → List ConfigChange} {removed added : String → α → ConfigChange}
  {was now : List α} {keyedWas keyedNow : List (String × α)}

/-- The three kinds of rows of a difference are the three parts of its account. -/
theorem ofKind_account {A : Account α}
    (hchanges : ∀ {k a b r}, r ∈ changes k a b → r.group = group ∧ r.op = .change)
    (hremoved : ∀ k a, (removed k a).group = group ∧ (removed k a).op = .remove)
    (hadded : ∀ k a, (added k a).group = group ∧ (added k a).op = .add) (op : ChangeOp) :
    ofKind group op (A.changed changes ++ A.gone.map (fun p => removed p.1 p.2) ++
      A.new.map fun p => added p.1 p.2) = match op with
        | .change => A.changed changes
        | .remove => A.gone.map fun p => removed p.1 p.2
        | .add => A.new.map fun p => added p.1 p.2 := by
  have hchange : ∀ r ∈ A.changed changes, r.group = group ∧ r.op = .change := by
    intro r hr
    obtain ⟨s, -, hr⟩ := List.mem_flatMap.1 hr
    exact hchanges hr
  have hremove : ∀ r ∈ A.gone.map (fun p => removed p.1 p.2), r.group = group ∧ r.op = .remove := by
    intro r hr
    obtain ⟨p, -, rfl⟩ := List.mem_map.1 hr
    exact hremoved _ _
  have hadd : ∀ r ∈ A.new.map (fun p => added p.1 p.2), r.group = group ∧ r.op = .add := by
    intro r hr
    obtain ⟨p, -, rfl⟩ := List.mem_map.1 hr
    exact hadded _ _
  have hother : ∀ {op'} {l : List ConfigChange}, (∀ r ∈ l, r.group = group ∧ r.op = op') →
      op' ≠ op → ofKind group op l = [] := fun hl hne =>
    ofKind_eq_nil fun r hr h => hne ((hl r hr).2.symm.trans h.2)
  rw [ofKind_append, ofKind_append]
  rcases op with _ | _ | _
  · rw [hother hchange nofun, hother hremove nofun, ofKind_eq_self hadd, List.nil_append,
      List.nil_append]
  · rw [hother hchange nofun, hother hadd nofun, ofKind_eq_self hremove, List.nil_append,
      List.append_nil]
  · rw [hother hremove nofun, hother hadd nofun, ofKind_eq_self hchange, List.append_nil,
      List.append_nil]

/-- The rows of a difference account for all rows. -/
theorem exists_reported {rows : List ConfigChange}
    (hchanges : ∀ {k a b r}, r ∈ changes k a b → r.group = group ∧ r.op = .change)
    (hremoved : ∀ k a, (removed k a).group = group ∧ (removed k a).op = .remove)
    (hadded : ∀ k a, (added k a).group = group ∧ (added k a).op = .add)
    (hincWas : Increasing keyedWas) (hincNow : Increasing keyedNow)
    (hwas : (keyedWas.map Prod.snd).Perm was) (hnow : (keyedNow.map Prod.snd).Perm now)
    (hnodup : was.Nodup ∧ now.Nodup)
    (hrows : ∀ op, (ofKind group op rows).Perm
      (ofKind group op (keyedRows pin changes removed added keyedWas keyedNow))) :
    ∃ A, Reported group pin changes removed added was now keyedWas keyedNow rows A ∧
      A.gone.length + common pin keyedWas keyedNow = (unmatched keyedWas keyedNow).length ∧
      A.new.length + common pin keyedWas keyedNow = (unmatched keyedNow keyedWas).length := by
  obtain ⟨A, hof, hperm, hgone, hnew⟩ := exists_account pin changes removed added
    hincWas hincNow
  have hkind : ∀ op, (ofKind group op rows).Perm _ := fun op =>
    ((hrows op).trans (perm_ofKind hperm)).trans
      (.of_eq (ofKind_account hchanges hremoved hadded op))
  exact ⟨A, ⟨hof, hnodup, hwas, hnow, hkind .change, hkind .remove, hkind .add⟩, hgone, hnew⟩

theorem group_of_mem_keyedRows {r : ConfigChange}
    (hchanges : ∀ {k a b r}, r ∈ changes k a b → r.group = group ∧ r.op = .change)
    (hremoved : ∀ k a, (removed k a).group = group ∧ (removed k a).op = .remove)
    (hadded : ∀ k a, (added k a).group = group ∧ (added k a).op = .add)
    (hincWas : Increasing keyedWas) (hincNow : Increasing keyedNow)
    (h : r ∈ keyedRows pin changes removed added keyedWas keyedNow) : r.group = group := by
  obtain ⟨A, -, hperm, -, -⟩ := exists_account pin changes removed added
    hincWas hincNow
  rcases List.mem_append.1 (hperm.mem_iff.1 h) with h | h
  · rcases List.mem_append.1 h with h | h
    · obtain ⟨s, -, h⟩ := List.mem_flatMap.1 h
      exact (hchanges h).1
    · obtain ⟨p, -, rfl⟩ := List.mem_map.1 h
      exact (hremoved _ _).1
  · obtain ⟨p, -, rfl⟩ := List.mem_map.1 h
    exact (hadded _ _).1

variable {rows : List ConfigChange} {A : Account α}

/-- How many rows there are of what was, of what is, and of what came and went. -/
theorem Reported.lengths
    (h : Reported group pin changes removed added was now keyedWas keyedNow rows A) :
    (ofKind group .add rows).length = A.new.length ∧
      (ofKind group .remove rows).length = A.gone.length ∧
      was.length = A.same.length + A.gone.length ∧ now.length = A.same.length + A.new.length := by
  have hbefore := h.before.length_eq
  have hafter := h.after.length_eq
  rw [List.length_append, List.length_map] at hbefore hafter
  refine ⟨?_, ?_, ?_, ?_⟩
  · rw [h.added.length_eq, List.length_map]
  · rw [h.removed.length_eq, List.length_map]
  · rw [← h.was.length_eq, List.length_map, hbefore]
  · rw [← h.now.length_eq, List.length_map, hafter]

end Keyed

/-! ## The diff of two configs -/

section Diff

variable {before after cfg : PackConfig} {op : ChangeOp}

theorem PackConfig.namedOnce_of_duplicateDeclaration (h : cfg.duplicateDeclaration = none) :
    cfg.NamedOnce :=
  have hdistinct := PackConfig.duplicateDeclaration_eq_none.1 h
  ⟨hdistinct.1.2, hdistinct.2⟩

theorem PackConfig.NamedOnce.declaredMods (h : cfg.NamedOnce) :
    ((declaredMods cfg).map DeclaredMod.filename).Nodup :=
  h.1.sublist (List.filter_sublist.map _)

/-- Under their keys the declared mods are all there. -/
theorem perm_authoredMods (h : cfg.NamedOnce) :
    ((authoredMods cfg).map Prod.snd).Perm (declaredMods cfg) :=
  perm_foldl_put Keyed.put ne_modKey (fun _ hp => absurd hp List.not_mem_nil)
    (fun _ hp => absurd hp List.not_mem_nil) (List.pairwise_map.1 h.declaredMods)

/-- Under their destinations the assets are all there. -/
theorem perm_assetsByDest (h : cfg.NamedOnce) :
    ((assetsByDest cfg).map Prod.snd).Perm cfg.assets := by
  refine perm_foldl_put (P := fun l => ∀ p ∈ l, p.1 = p.2.dest)
    (R := fun a b : DeclaredAsset => a.dest ≠ b.dest) ?_ ?_
    (fun _ hp => absurd hp List.not_mem_nil) (fun _ hp => absurd hp List.not_mem_nil)
    (List.pairwise_map.1 h.2)
  · intro l a hl p hp
    rcases mem_of_mem_put hp with rfl | hp
    · rfl
    · exact hl p hp
  · exact fun hl hne p hp he => hne p hp ((hl p hp).symm.trans he)

theorem group_of_mem_modRows {r : ConfigChange} (h : r ∈ modRows before after) :
    r.group = .mods :=
  group_of_mem_keyedRows of_mem_modChanges (fun _ _ => ⟨rfl, rfl⟩) (fun _ _ => ⟨rfl, rfl⟩)
    (increasing_authoredMods before) (increasing_authoredMods after) h

theorem group_of_mem_assetRows {r : ConfigChange} (h : r ∈ assetRows before after) :
    r.group = .assets :=
  group_of_mem_keyedRows of_mem_assetChanges (fun _ _ => ⟨rfl, rfl⟩) (fun _ _ => ⟨rfl, rfl⟩)
    (increasing_assetsByDest before) (increasing_assetsByDest after) h

/-- The rows of a group are those of its part of the diff. -/
theorem perm_ofKind_diffConfigs (group : ChangeGroup) :
    (ofKind group op (diffConfigs before after)).Perm (ofKind group op (match group with
      | .pack => packRows before after
      | .mods => modRows before after
      | .assets => assetRows before after)) := by
  have hpack : group ≠ .pack → ofKind group op (packRows before after) = [] := fun hne =>
    ofKind_eq_nil fun r hr h => hne (h.1.symm.trans (of_mem_packRows hr).1)
  have hmods : group ≠ .mods → ofKind group op (sortRows (modRows before after)) = [] := fun hne =>
    ofKind_eq_nil fun r hr h =>
      hne (h.1.symm.trans (group_of_mem_modRows (perm_sortRows.mem_iff.1 hr)))
  have hassets : group ≠ .assets → ofKind group op (sortRows (assetRows before after)) = [] :=
    fun hne => ofKind_eq_nil fun r hr h =>
      hne (h.1.symm.trans (group_of_mem_assetRows (perm_sortRows.mem_iff.1 hr)))
  rw [diffConfigs, ofKind_append, ofKind_append]
  rcases group with _ | _ | _
  · rw [hmods (by decide), hassets (by decide), List.append_nil, List.append_nil]
  · rw [hpack (by decide), hassets (by decide), List.nil_append, List.append_nil]
    exact perm_ofKind perm_sortRows
  · rw [hpack (by decide), hmods (by decide), List.nil_append, List.nil_append]
    exact perm_ofKind perm_sortRows

theorem ofKind_pack (h : op ≠ .change) : ofKind .pack op (diffConfigs before after) = [] := by
  have hnil : ofKind .pack op (packRows before after) = [] :=
    ofKind_eq_nil fun r hr hkind => h (hkind.2.symm.trans (of_mem_packRows hr).2)
  exact List.perm_nil.1 (hnil ▸ perm_ofKind_diffConfigs .pack)

theorem exists_modsReported (hbefore : before.NamedOnce) (hafter : after.NamedOnce) :
    ∃ A, ModsReported before after A ∧
      A.gone.length + common (fun m => pin m.source) (authoredMods before) (authoredMods after) =
        (unmatched (authoredMods before) (authoredMods after)).length ∧
      A.new.length + common (fun m => pin m.source) (authoredMods before) (authoredMods after) =
        (unmatched (authoredMods after) (authoredMods before)).length :=
  exists_reported of_mem_modChanges (fun _ _ => ⟨rfl, rfl⟩) (fun _ _ => ⟨rfl, rfl⟩)
    (increasing_authoredMods before) (increasing_authoredMods after)
    (perm_authoredMods hbefore) (perm_authoredMods hafter)
    ⟨hbefore.declaredMods.of_map _, hafter.declaredMods.of_map _⟩
    fun _ => perm_ofKind_diffConfigs .mods

theorem exists_assetsReported (hbefore : before.NamedOnce) (hafter : after.NamedOnce) :
    ∃ A, AssetsReported before after A ∧
      A.gone.length + common (fun a => pin a.source) (assetsByDest before) (assetsByDest after) =
        (unmatched (assetsByDest before) (assetsByDest after)).length ∧
      A.new.length + common (fun a => pin a.source) (assetsByDest before) (assetsByDest after) =
        (unmatched (assetsByDest after) (assetsByDest before)).length :=
  exists_reported of_mem_assetChanges (fun _ _ => ⟨rfl, rfl⟩) (fun _ _ => ⟨rfl, rfl⟩)
    (increasing_assetsByDest before) (increasing_assetsByDest after)
    (perm_assetsByDest hbefore) (perm_assetsByDest hafter)
    ⟨hbefore.2.of_map _, hafter.2.of_map _⟩
    fun _ => perm_ofKind_diffConfigs .assets

/-- Every row of two configs without duplicate declarations is accounted for once by their diff. -/
theorem accounted_of_duplicateDeclaration (hbefore : before.duplicateDeclaration = none)
    (hafter : after.duplicateDeclaration = none) : Accounted before after := by
  have hb := PackConfig.namedOnce_of_duplicateDeclaration hbefore
  have ha := PackConfig.namedOnce_of_duplicateDeclaration hafter
  obtain ⟨M, hM, hgone, hnew⟩ := exists_modsReported hb ha
  obtain ⟨M', hM', hgone', hnew'⟩ := exists_modsReported ha hb
  obtain ⟨S, hS, hleft, hcame⟩ := exists_assetsReported hb ha
  obtain ⟨S', hS', hleft', hcame'⟩ := exists_assetsReported ha hb
  obtain ⟨hMadd, hMremove, hMbefore, hMafter⟩ := hM.lengths
  obtain ⟨hSadd, hSremove, hSbefore, hSafter⟩ := hS.lengths
  rw [common_comm] at hgone' hnew' hleft' hcame'
  refine ⟨⟨M, hM⟩, ⟨S, hS⟩, by omega, by omega, fun group => ?_⟩
  rcases group with _ | _ | _
  · have hadd : ∀ b a, ofKind .pack .add (diffConfigs b a) = [] := fun _ _ => ofKind_pack nofun
    have hremove : ∀ b a, ofKind .pack .remove (diffConfigs b a) = [] :=
      fun _ _ => ofKind_pack nofun
    rw [hadd, hadd, hremove, hremove]
    exact ⟨rfl, rfl⟩
  · obtain ⟨hadd, hremove, -, -⟩ := hM'.lengths
    omega
  · obtain ⟨hadd, hremove, -, -⟩ := hS'.lengths
    omega

end Diff

/-- A pack with a jar that the mirror knows by its hash only. -/
def withJar : PackConfig :=
  { PackConfig.empty "Industrial" with
    mods := [⟨"ae2.jar", true, .smrtCache "5afb", none, none, false⟩] }

/-- The same pack, after the jar was renamed and a mod was declared. -/
def withJarRenamed : PackConfig :=
  { PackConfig.empty "Industrial" with
    mods := [⟨"rei.jar", true, .modrinth "rei" "1", none, none, false⟩,
      ⟨"ae2-1.0.jar", true, .smrtCache "5afb", none, none, false⟩] }

theorem accounted_withJarRenamed : Accounted withJar withJarRenamed :=
  accounted_of_duplicateDeclaration (by decide) (by decide)

end Smrt
