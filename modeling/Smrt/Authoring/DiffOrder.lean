import Smrt.Authoring.DiffRows

/-!
# The order of the rows of a diff

The diff of two configs is meant not to see in what order the rows of a config are. It sees it of
rows that share an identity, as jars with one slug do: the first of them is identified by it, and
the other one by its filename.

`OrderUnseen` says that nothing changes if the rows of either config are listed in another order. It
is so if and only if the declared mods of both have distinct identities (`orderUnseen_iff`).
-/

namespace Smrt

/-- The same config, with its rows in another order. -/
structure Reordered (c c' : PackConfig) : Prop where
  mods : c'.mods.Perm c.mods
  assets : c'.assets.Perm c.assets
  rest : c' = { c with mods := c'.mods, assets := c'.assets }

/-- The diff of two configs, and of each of them with itself, whatever the order of the rows is. -/
structure OrderUnseen (a b : PackConfig) : Prop where
  before : ∀ a', Reordered a a' → diffConfigs a a' = []
  after : ∀ b', Reordered b b' → diffConfigs b b' = []
  both : ∀ a' b', Reordered a a' → Reordered b b' → diffConfigs a' b' = diffConfigs a b

/-- No two declared mods of a config have one identity. -/
def Identities (c : PackConfig) : Prop := ((declaredMods c).map identity).Nodup

section Order

variable {a a' b b' c c' : PackConfig} {l : List (String × DeclaredMod)} {m n : DeclaredMod}

theorem Reordered.refl (c : PackConfig) : Reordered c c := ⟨.refl _, .refl _, rfl⟩

theorem Reordered.declaredMods (h : Reordered c c') : (declaredMods c').Perm (declaredMods c) :=
  h.mods.filter _

theorem Reordered.namedOnce (h : Reordered c c') (hc : c.NamedOnce) : c'.NamedOnce :=
  ⟨(h.mods.map _).nodup_iff.2 hc.1, (h.assets.map _).nodup_iff.2 hc.2⟩

theorem Reordered.identities (h : Reordered c c') (hc : Identities c) : Identities c' :=
  (h.declaredMods.map _).nodup_iff.2 hc

/-! ## Distinct identities -/

theorem modKey_eq_identity (h : ∀ p ∈ l, p.1 ≠ identity m) : modKey l m = identity m := by
  have hnone : l.lookup (identity m) = none :=
    List.lookup_eq_none_iff.2 fun p hp => by simpa using (h p hp).symm
  rw [modKey, hnone]
  rfl

/-- Mods with distinct identities are listed under these. -/
theorem Identities.perm (h : Identities c) :
    (authoredMods c).Perm ((Smrt.declaredMods c).map fun m => (identity m, m)) :=
  perm_foldl_put_name (fun _ _ => modKey_eq_identity) (fun _ hp => absurd hp List.not_mem_nil) h

theorem assetsByDest_perm (h : c.NamedOnce) :
    (assetsByDest c).Perm (c.assets.map fun a => (a.dest, a)) := by
  refine perm_foldl_put_name ?_ (fun _ hp => absurd hp List.not_mem_nil) h.2
  exact fun _ _ _ => rfl

theorem Reordered.authoredMods (h : Reordered c c') (hc : Identities c) :
    authoredMods c' = authoredMods c :=
  (increasing_authoredMods c').eq_of_perm (increasing_authoredMods c)
    (((h.identities hc).perm.trans (h.declaredMods.map _)).trans hc.perm.symm)

theorem Reordered.assetsByDest (h : Reordered c c') (hc : c.NamedOnce) :
    assetsByDest c' = assetsByDest c :=
  (increasing_assetsByDest c').eq_of_perm (increasing_assetsByDest c)
    (((assetsByDest_perm (h.namedOnce hc)).trans (h.assets.map _)).trans
      (assetsByDest_perm hc).symm)

/-- The order of rows with distinct identities is not seen. -/
theorem diffConfigs_reordered (ha : Reordered a a') (hb : Reordered b b') (hna : a.NamedOnce)
    (hnb : b.NamedOnce) (hida : Identities a) (hidb : Identities b) :
    diffConfigs a' b' = diffConfigs a b := by
  have hpack : packRows a' b' = packRows a b := by
    rw [ha.rest, hb.rest]
    rfl
  rw [diffConfigs, diffConfigs, hpack, modRows, modRows, assetRows, assetRows,
    ha.authoredMods hida, hb.authoredMods hidb, ha.assetsByDest hna, hb.assetsByDest hnb]

/-! ## Rows that share an identity -/

/-- A key under which there are mods with two filenames makes a difference. -/
theorem diffConfigs_ne_nil {k : String} (hm : (k, m) ∈ authoredMods a)
    (hn : (k, n) ∈ authoredMods b) (hne : m.filename ≠ n.filename) : diffConfigs a b ≠ [] := by
  intro h
  rw [diffConfigs] at h
  have hrows := sortRows_eq_nil (List.append_eq_nil_iff.1 (List.append_eq_nil_iff.1 h).1).2
  obtain ⟨hmoved, -⟩ := List.append_eq_nil_iff.1 hrows
  obtain ⟨hkept, -⟩ := List.append_eq_nil_iff.1 hmoved
  have hnone := List.flatMap_eq_nil_iff.1 hkept _ hn
  rw [(increasing_authoredMods a).lookup hm] at hnone
  exact hne (sameMod_of_modChanges hnone).filename

/-- What is put first stays under its identity. -/
theorem mem_authoredMods_of_cons {mods : List DeclaredMod} (hc : c.NamedOnce)
    (hmods : Smrt.declaredMods c = m :: mods) : (identity m, m) ∈ authoredMods c := by
  have hnames := List.pairwise_map.1 hc.declaredMods
  rw [hmods, List.pairwise_cons] at hnames
  have hall : authoredMods c = mods.foldl (fun l m => put (modKey l m) m l) [(identity m, m)] := by
    rw [authoredMods, ← Smrt.declaredMods, hmods]
    rfl
  rw [hall]
  refine (foldl_put Keyed.put ne_modKey (List.pairwise_singleton _ _) ?_ ?_ hnames.2).2.1 _
    (List.mem_singleton_self _)
  · exact fun p hp => .inl (by rw [List.mem_singleton.1 hp])
  · intro p hp n hn
    rw [List.mem_singleton.1 hp]
    exact hnames.1 n hn

/-- The keys stay, and every identity is one of them. -/
theorem mem_keys_foldl_put (rows : List DeclaredMod) (l : List (String × DeclaredMod)) :
    (∀ k ∈ l.map Prod.fst, k ∈ (rows.foldl (fun l m => put (modKey l m) m l) l).map Prod.fst) ∧
      ∀ m ∈ rows, identity m ∈
        (rows.foldl (fun l m => put (modKey l m) m l) l).map Prod.fst := by
  induction rows generalizing l with
  | nil => exact ⟨fun k hk => hk, fun m hm => absurd hm List.not_mem_nil⟩
  | cons n rows ih =>
    obtain ⟨hkeep, hrows⟩ := ih (put (modKey l n) n l)
    refine ⟨fun k hk => hkeep k (mem_map_fst_put.2 (.inl hk)), List.forall_mem_cons.2 ⟨?_, hrows⟩⟩
    refine hkeep _ (mem_map_fst_put.2 ?_)
    rcases htaken : l.lookup (identity n) with _ | b
    · -- The identity is free, so that it is the key.
      exact .inr (by rw [modKey, htaken]; rfl)
    · exact .inl (List.mem_map.2 ⟨_, mem_of_lookup htaken, rfl⟩)

/-- Every identity is the key of a row. -/
theorem exists_mem_authoredMods (hc : c.NamedOnce) (hm : m ∈ Smrt.declaredMods c) :
    ∃ n ∈ Smrt.declaredMods c, (identity m, n) ∈ authoredMods c := by
  obtain ⟨p, hp, hkey⟩ := List.mem_map.1 ((mem_keys_foldl_put _ []).2 m hm)
  exact ⟨p.2, (perm_authoredMods hc).mem_iff.1 (List.mem_map_of_mem hp), hkey ▸ hp⟩

/-- Of the rows that share an identity one is not the first of them, and it is when it is brought to
    the front of all. -/
theorem identities_of_unseen (hc : c.NamedOnce) (h : ∀ c', Reordered c c' → diffConfigs c c' = []) :
    Identities c := by
  have hinj := List.inj_on_of_nodup_map hc.declaredMods
  refine (List.nodup_map_iff_inj_on (hc.declaredMods.of_map _)).2 fun m hm n hn hid => ?_
  obtain ⟨r, hr, hkey⟩ := exists_mem_authoredMods hc hm
  have hfirst : ∀ k ∈ Smrt.declaredMods c, identity k = identity m → k = r := by
    intro k hk hkid
    by_contra hne
    let front : PackConfig := { c with mods := k :: c.mods.erase k }
    have hkmem : k ∈ c.mods := List.mem_of_mem_filter hk
    have hfront : Reordered c front := ⟨(List.perm_cons_erase hkmem).symm, .refl _, rfl⟩
    have hdeclared : Smrt.declaredMods front = k :: (c.mods.erase k).filter fun m => !m.pulled :=
      List.filter_cons_of_pos (List.mem_filter.1 hk).2
    have hput := mem_authoredMods_of_cons (hfront.namedOnce hc) hdeclared
    rw [hkid] at hput
    exact diffConfigs_ne_nil hkey hput (fun hname => hne (hinj hr hk hname).symm)
      (h front hfront)
  rw [hfirst m hm rfl, hfirst n hn hid.symm]

/-- The order of the rows is not seen if and only if the declared mods have distinct identities. -/
theorem orderUnseen_iff (ha : a.duplicateDeclaration = none) (hb : b.duplicateDeclaration = none) :
    OrderUnseen a b ↔ Identities a ∧ Identities b := by
  have hna := PackConfig.namedOnce_of_duplicateDeclaration ha
  have hnb := PackConfig.namedOnce_of_duplicateDeclaration hb
  constructor
  · exact fun h => ⟨identities_of_unseen hna h.before, identities_of_unseen hnb h.after⟩
  · rintro ⟨hida, hidb⟩
    refine ⟨fun a' ha' => ?_, fun b' hb' => ?_, fun a' b' ha' hb' => ?_⟩
    · rw [diffConfigs_reordered (.refl a) ha' hna hna hida hida, diffConfigs_self]
    · rw [diffConfigs_reordered (.refl b) hb' hnb hnb hidb hidb, diffConfigs_self]
    · exact diffConfigs_reordered ha' hb' hna hnb hida hidb

end Order

theorem orderUnseen_withJar :
    OrderUnseen withJar withJarRenamed ↔ Identities withJar ∧ Identities withJarRenamed :=
  orderUnseen_iff (by decide) (by decide)

/-- A jar with the slug of another one. -/
def library : DeclaredMod := ⟨"FTBLibrary.jar", true, .smrtCache "5afb", none, some "lib", false⟩

def otherLibrary : DeclaredMod := ⟨"Other.jar", true, .smrtCache "8e7a", none, some "lib", false⟩

/-- A pack with both jars. -/
def withLibraries (mods : List DeclaredMod) : PackConfig :=
  { PackConfig.empty "Industrial" with mods }

/-- Listed the other way round, the jars differ from themselves. -/
theorem not_orderUnseen_libraries :
    (withLibraries [library, otherLibrary]).duplicateDeclaration = none ∧
      Reordered (withLibraries [library, otherLibrary]) (withLibraries [otherLibrary, library]) ∧
      diffConfigs (withLibraries [library, otherLibrary])
        (withLibraries [otherLibrary, library]) ≠ [] := by
  have hfirst : ("s:lib", library) ∈ authoredMods (withLibraries [library, otherLibrary]) := by
    decide
  have hfirst' : ("s:lib", otherLibrary) ∈
      authoredMods (withLibraries [otherLibrary, library]) := by decide
  exact ⟨by decide, ⟨List.Perm.swap _ _ _, .refl _, rfl⟩,
    diffConfigs_ne_nil hfirst hfirst' (by decide)⟩

end Smrt
