import Smrt.Authoring.Manifest
import Smrt.Authoring.Reconstruct

/-!
# Reverting to a build

A revert reconstructs the config from a build (`revertedConfig`), which is what was built
(`revertedConfig_spec`): every asset, and every mod but for two of its flags. Nothing that comes back
is `pulled`, which a manifest does not say, and a server-side mod comes back opted out, as it was
shipped (`revertedConfig_serverSide`). What comes back builds again, to the same manifest.

* `relFromStaticUrl_staticUrl`: the path of a static file is what follows the mark in its address,
  if that is the only one (`Unmarked`);
* `resolveMod_spec`, `resolveAsset_spec`: what an entry declares is what it was resolved from;
* `forall₂_mods`, `forall₂_assets`: the rows of a manifest are the declared ones, sorted.
-/

namespace Smrt

/-! ## Addresses of static files -/

/-- What the path of a static file follows in its address. -/
def staticMark : List Char := "/static/".toList

/-- The path is what follows the only mark of the address. -/
def Unmarked (mirrorBase packId relPath : String) : Prop :=
  ¬ staticMark <:+: (trimEndSlashes mirrorBase).toList ++ ['/'] ∧ packId ≠ "static" ∧
    ¬ staticMark <:+: relPath.toList

instance (mirrorBase packId relPath : String) :
    Decidable (Unmarked mirrorBase packId relPath) := inferInstanceAs (Decidable (_ ∧ _))

section Address

variable {lossy : List UInt8 → String} {mirrorBase packId relPath : String}

theorem decodeSegment_urlEncodeSegment (s : String) :
    percentDecode lossy (urlEncodeSegment s) = s :=
  percentDecode_percentEncode (by decide) s

theorem urlEncodeSegment_injective {s t : String}
    (h : urlEncodeSegment s = urlEncodeSegment t) : s = t :=
  percentEncode_injective (by decide) h

theorem slash_not_mem_urlEncodeSegment (s : String) : '/' ∉ (urlEncodeSegment s).toList :=
  slash_not_mem_percentEncode (by decide) s

/-- A text without a slash that ends where a mark goes on. -/
theorem eq_of_prefix_slash {s a b : List Char} (hs : '/' ∉ s) (ha : '/' ∉ a)
    (h : s ++ ['/'] <+: a ++ '/' :: b) : a = s := by
  induction s generalizing a with
  | nil =>
    rcases a with _ | ⟨d, a⟩
    · rfl
    · exact absurd (List.cons_prefix_cons.1 h).1 fun he => ha (he ▸ List.mem_cons_self)
  | cons c s ih =>
    rcases a with _ | ⟨d, a⟩
    · exact absurd (List.cons_prefix_cons.1 h).1 fun he => hs (he ▸ List.mem_cons_self)
    · obtain ⟨rfl, htail⟩ := List.cons_prefix_cons.1 h
      rw [ih (fun hm => hs (List.mem_cons_of_mem _ hm))
        (fun hm => ha (List.mem_cons_of_mem _ hm)) htail]

/-- No mark begins in a base, if none does that ends with the slash after it. -/
theorem clear_base {a b : List Char} (h : ¬ staticMark <:+: a ++ ['/']) :
    Clear staticMark a ('/' :: b) := by
  rintro u v rfl hv hp
  by_cases hlen : staticMark.length ≤ (v ++ ['/']).length
  · have hp' : v ++ ['/'] <+: v ++ '/' :: b :=
      (List.prefix_append_right_inj v).2 (List.cons_prefix_cons.2 ⟨rfl, List.nil_prefix⟩)
    have hsuffix : v ++ ['/'] <:+ u ++ v ++ ['/'] := by
      rw [List.append_assoc]
      exact List.suffix_append u _
    exact h ((List.prefix_of_prefix_length_le hp hp' hlen).isInfix.trans hsuffix.isInfix)
  · -- The slash after `v` would be a letter within the mark.
    have hlt : v.length < staticMark.length := by
      rw [List.length_append, List.length_singleton] at hlen
      omega
    have hslash : staticMark[v.length] = '/' := by
      rw [hp.getElem hlt, List.getElem_append_right (Nat.le_refl _)]
      simp
    have hinner : ∀ i (hi : i < staticMark.length), staticMark[i] = '/' → i = 0 ∨ i = 7 := by
      decide
    have hpos := List.length_pos_iff.2 hv
    rcases hinner _ hlt hslash with h0 | h7
    · omega
    · rw [List.length_append, List.length_singleton, h7] at hlen
      exact hlen (by decide)

/-- No mark begins in a segment that is not the one of the mark. -/
theorem clear_segment {d : Char} {a b : List Char} (hd : d ≠ 's') (ha : '/' ∉ d :: a) :
    Clear staticMark ('/' :: d :: a) b := by
  have hmark : staticMark = '/' :: 's' :: "tatic/".toList := by decide
  refine clear_cons ?_ (hmark ▸ clear_of_not_mem ha)
  rw [hmark, List.cons_append, List.cons_append, List.cons_prefix_cons, List.cons_prefix_cons]
  exact fun h => hd h.2.1.symm

/-- No mark begins between the base and the path, but the one before the path. -/
theorem clear_between {p b : List Char} (hp : '/' ∉ p) (hne : p ≠ "static".toList) :
    Clear staticMark ("/v1/packs/".toList ++ p) (staticMark ++ b) := by
  have hmark : staticMark = '/' :: ("static".toList ++ ['/']) := by decide
  have hpath : "/v1/packs/".toList =
      ['/', 'v', '1'] ++ (['/', 'p', 'a', 'c', 'k', 's'] ++ ['/']) := by decide
  have hpack : ¬ staticMark <+: '/' :: (p ++ (staticMark ++ b)) := by
    intro h
    rw [hmark, List.cons_append, List.cons_prefix_cons] at h
    exact hne (eq_of_prefix_slash (by decide) hp h.2)
  rw [hpath, List.append_assoc, List.append_assoc]
  refine clear_append (clear_segment (by decide) (by decide)) ?_
  refine clear_append (clear_segment (by decide) (by decide)) ?_
  exact clear_cons hpack (hmark ▸ clear_of_not_mem hp)

/-- The segments of a path, and of the path encoded segment by segment. -/
theorem splitOn_slash (s : String) :
    s.splitOn "/" = (pieces ['/'] 0 [] s.toList).map String.ofList := splitOn_eq (by decide)

theorem intercalate_splitOn_slash (s : String) : String.intercalate "/" (s.splitOn "/") = s := by
  refine String.toList_injective ?_
  rw [String.toList_intercalate, splitOn_slash, List.map_map]
  simp only [Function.comp_def, String.toList_ofList, List.map_id']
  exact (intercalate_pieces (List.cons_ne_nil _ _) [] _).trans (List.nil_append _)

theorem splitOn_slash_ne_nil (s : String) : s.splitOn "/" ≠ [] := by
  rw [splitOn_slash]
  exact mt List.map_eq_nil_iff.1 pieces_ne_nil

theorem splitOn_slash_intercalate {l : List String} (hne : l ≠ [])
    (hl : ∀ p ∈ l, '/' ∉ p.toList) : (String.intercalate "/" l).splitOn "/" = l := by
  have hpieces : pieces ['/'] 0 [] (['/'].intercalate (l.map String.toList)) =
      l.map String.toList := by
    refine pieces_intercalate (mt List.map_eq_nil_iff.1 hne) fun p hp => ?_
    obtain ⟨q, hq, rfl⟩ := List.mem_map.1 hp
    exact hl q hq
  rw [splitOn_slash, String.toList_intercalate, show "/".toList = ['/'] by decide, hpieces,
    List.map_map]
  simp only [Function.comp_def, String.ofList_toList, List.map_id']

/-- The encoded path of a static file. -/
def encodedPath (relPath : String) : String :=
  String.intercalate "/" ((relPath.splitOn "/").map urlEncodeSegment)

theorem splitOn_encodedPath :
    (encodedPath relPath).splitOn "/" = (relPath.splitOn "/").map urlEncodeSegment := by
  refine splitOn_slash_intercalate (mt List.map_eq_nil_iff.1 (splitOn_slash_ne_nil relPath)) ?_
  intro p hp
  obtain ⟨q, -, rfl⟩ := List.mem_map.1 hp
  exact slash_not_mem_urlEncodeSegment q

/-- A mark in a text is a segment of it, and neither the first nor the last one. -/
theorem splitOn_of_infix {s : String} (h : staticMark <:+: s.toList) :
    ∃ l r, l ≠ [] ∧ r ≠ [] ∧ s.splitOn "/" = l ++ "static" :: r := by
  obtain ⟨u, v, huv⟩ := h
  have hmark : u ++ staticMark ++ v = u ++ '/' :: ("static".toList ++ '/' :: v) := by
    rw [List.append_assoc]
    rfl
  have hstatic : pieces ['/'] 0 [] "static".toList = ["static".toList] := by decide
  refine ⟨(pieces ['/'] 0 [] u).map String.ofList, (pieces ['/'] 0 [] v).map String.ofList,
    mt List.map_eq_nil_iff.1 pieces_ne_nil, mt List.map_eq_nil_iff.1 pieces_ne_nil, ?_⟩
  rw [splitOn_slash, ← huv, hmark, pieces_letter, pieces_letter, hstatic, List.map_append,
    List.singleton_append, List.map_cons, String.ofList_toList]

/-- Encoding segment by segment makes no mark. -/
theorem not_infix_encodedPath (h : ¬ staticMark <:+: relPath.toList) :
    ¬ staticMark <:+: (encodedPath relPath).toList := by
  intro hmark
  obtain ⟨l, r, hl, hr, hsplit⟩ := splitOn_of_infix hmark
  rw [splitOn_encodedPath] at hsplit
  obtain ⟨l', q, hrel, rfl, hq⟩ := List.map_eq_append_iff.1 hsplit
  obtain ⟨s, r', rfl, hs, rfl⟩ := List.map_eq_cons_iff.1 hq
  obtain rfl : s = "static" :=
    urlEncodeSegment_injective (hs.trans (show "static" = urlEncodeSegment "static" by decide))
  -- The path has the mark too.
  refine h ⟨(String.intercalate "/" l').toList, (String.intercalate "/" r').toList, ?_⟩
  rw [← intercalate_splitOn_slash relPath, hrel,
    String.intercalate_append_of_ne_nil (mt List.map_eq_nil_iff.2 hl) (List.cons_ne_nil _ _),
    String.intercalate_cons_of_ne_nil (mt List.map_eq_nil_iff.2 hr)]
  simp only [String.toList_append, List.append_assoc]
  rfl

theorem toList_staticUrl : (staticUrl mirrorBase packId relPath).toList =
    (trimEndSlashes mirrorBase).toList ++ ("/v1/packs/".toList ++
      (urlEncodeSegment packId).toList) ++ (staticMark ++ (encodedPath relPath).toList) := by
  delta staticUrl staticMark encodedPath
  rw [String.toList_append, String.toList_append, String.toList_append, String.toList_append,
    List.append_assoc, List.append_assoc, List.append_assoc, List.append_assoc, List.append_assoc]

/-- The encoded path is what follows the mark. -/
theorem splitOn_staticUrl (h : Unmarked mirrorBase packId relPath) :
    ((staticUrl mirrorBase packId relPath).splitOn "/static/")[1]? =
      some (encodedPath relPath) := by
  obtain ⟨hbase, hpack, hrel⟩ := h
  have hne : (urlEncodeSegment packId).toList ≠ "static".toList := fun he =>
    hpack (urlEncodeSegment_injective
      ((String.toList_injective he).trans (show "static" = urlEncodeSegment "static" by decide)))
  have hclear : Clear staticMark ((trimEndSlashes mirrorBase).toList ++
      ("/v1/packs/".toList ++ (urlEncodeSegment packId).toList))
      (staticMark ++ (encodedPath relPath).toList) :=
    clear_append (clear_base hbase) (clear_between (slash_not_mem_urlEncodeSegment packId) hne)
  rw [splitOn_eq (by decide), toList_staticUrl, show "/static/".toList = staticMark from rfl,
    pieces_append hclear, pieces_sep (by decide),
    pieces_eq_singleton (Clear.of_not_infix (not_infix_encodedPath hrel)), List.nil_append,
    List.map_cons, List.map_singleton, List.nil_append, String.ofList_toList]
  rfl

/-- The path of a static file is recovered from its address. -/
theorem relFromStaticUrl_staticUrl (h : Unmarked mirrorBase packId relPath) :
    relFromStaticUrl (percentDecode lossy) (staticUrl mirrorBase packId relPath) = relPath := by
  simp only [relFromStaticUrl, splitOn_staticUrl h, Option.getD_some, splitOn_encodedPath,
    List.map_map, Function.comp_def, decodeSegment_urlEncodeSegment, List.map_id',
    intercalate_splitOn_slash]

end Address

/-! ## Declarations of entries -/

section Declared

variable {X : Upstream} {debug : String → String} {mirrorBase : String}
  (lossy : List UInt8 → String)

/-- What a mod is resolved from is declared by what it is resolved to, and by nothing else of the
    declaration. -/
theorem resolveModSource_spec {decl : DeclaredMod} {sha1 : String} {size : UInt64}
    {source : Source} {fellBack : Bool}
    (h : resolveModSource X mirrorBase decl = .ok (sha1, size, source, fellBack)) :
    sourceDecl (percentDecode lossy) source sha1 = decl.source ∧
      ∀ decl' : DeclaredMod, decl'.source = decl.source →
        resolveModSource X mirrorBase decl' = .ok (sha1, size, source, fellBack) := by
  rw [resolveModSource.eq_def] at h
  rcases hs : decl.source with ⟨projectId, versionId⟩ | sha1' | relPath <;>
    simp only [hs] at h
  · rcases hm : X.modrinth projectId versionId with e | files <;> simp only [hm] at h
    · rcases hr : X.registry versionId with _ | ⟨sha1', size'⟩ <;> simp only [hr] at h
      · cases h
      · obtain ⟨rfl, rfl, rfl, rfl⟩ := Except.ok.inj h
        refine ⟨rfl, fun decl' hd => ?_⟩
        rw [resolveModSource.eq_def]
        simp only [hd, hm, hr]
    · rcases hf : primaryFile files with _ | f <;> simp only [hf] at h
      · cases h
      · obtain ⟨rfl, rfl, rfl, rfl⟩ := Except.ok.inj h
        refine ⟨rfl, fun decl' hd => ?_⟩
        rw [resolveModSource.eq_def]
        simp only [hd, hm, hf]
  · simp only [bind_eq_ok, refuseIf_eq_ok] at h
    obtain ⟨_, hhex, size', hjar, h⟩ := h
    obtain ⟨rfl, rfl, rfl, rfl⟩ := Except.ok.inj h
    refine ⟨rfl, fun decl' hd => ?_⟩
    rw [resolveModSource.eq_def]
    simp only [hd, bind_eq_ok, refuseIf_eq_ok]
    exact ⟨(), hhex, _, mapError_eq_ok.2 (mapError_eq_ok.1 hjar), rfl⟩
  · cases h

/-- The entry of a mod declares the mod, and is resolved from what it declares. -/
theorem resolveMod_spec {decl : DeclaredMod} {p : ModEntry × Bool}
    (h : resolveMod X debug mirrorBase decl = .ok p) :
    reconstructMod (percentDecode lossy) p.1 = { decl with pulled := false } ∧
      ∀ m : ModEntry, m.filename = p.1.filename → m.sha1 = p.1.sha1 →
        m.sizeBytes = p.1.sizeBytes → m.source = p.1.source →
          resolveMod X debug mirrorBase (reconstructMod (percentDecode lossy) m) =
            .ok (m.unrequired, p.2) := by
  simp only [resolveMod, bind_eq_ok, refuseIf_eq_ok] at h ⊢
  obtain ⟨_, hname, ⟨sha1, size, source, fellBack⟩, hsource, h⟩ := h
  obtain ⟨hdecl, hagain⟩ := resolveModSource_spec lossy hsource
  obtain rfl := Except.ok.inj h
  refine ⟨by simp only [reconstructMod, hdecl], ?_⟩
  rintro m hf hs hz hsrc
  simp only at hf hs hz hsrc
  refine ⟨(), by rwa [reconstructMod, hf], (sha1, size, source, fellBack), ?_, ?_⟩
  · refine hagain _ ?_
    rw [← hdecl, reconstructMod, hsrc, hs]
  · simp only [reconstructMod, ModEntry.unrequired, hs, hz, hsrc]

/-- The entry of an asset declares the asset. -/
theorem resolveAsset_spec {packId : String} {decl : DeclaredAsset} {e : AssetEntry}
    (hmark : ∀ rel, decl.source = .smrtStatic rel → Unmarked mirrorBase packId rel)
    (h : resolveAsset X debug mirrorBase packId decl = .ok e) :
    reconstructAsset (percentDecode lossy) e = decl := by
  simp only [resolveAsset, bind_eq_ok, refuseIf_eq_ok] at h
  obtain ⟨_, -, ⟨sha1, size, source⟩, hsource, h⟩ := h
  obtain rfl := Except.ok.inj h
  suffices hdecl : sourceDecl (percentDecode lossy) source sha1 = decl.source by
    simp only [reconstructAsset, hdecl]
  rw [resolveAssetSource.eq_def] at hsource
  rcases hs : decl.source with ⟨projectId, versionId⟩ | sha1' | relPath <;>
    simp only [hs, bind_eq_ok, refuseIf_eq_ok] at hsource
  · obtain ⟨files, -, hsource⟩ := hsource
    rcases hf : primaryFile files with _ | f <;> simp only [hf] at hsource
    · cases hsource
    · obtain ⟨rfl, rfl, rfl⟩ := Except.ok.inj hsource
      rfl
  · cases hsource
  · obtain ⟨_, -, bytes, -, hsource⟩ := hsource
    obtain ⟨rfl, rfl, rfl⟩ := Except.ok.inj hsource
    rw [sourceDecl, relFromStaticUrl_staticUrl (hmark relPath hs)]

end Declared

/-! ## Reverting -/

/-- The display without the presence class, which a build derives. -/
def blank (d : Option Display) : Display := { d.getD .default with presence := none }

/-- What a revert gives back of a declared mod: the mod, but it is nobody's dependency, and a
    server-side mod is opted out. -/
structure GivenBack (classifications : Classifications) (decl decl' : DeclaredMod) : Prop where
  filename : decl'.filename = decl.filename
  source : decl'.source = decl.source
  slug : decl'.slug = decl.slug
  display : blank decl'.display = blank decl.display
  pulled : decl'.pulled = false
  defaultEnabled : decl'.defaultEnabled = (decl.defaultEnabled &&
    (classifications decl.filename).bind (fun c => c.side) ≠ some .server)

section Revert

variable {X : Upstream} {debug : String → String} {mirrorBase : String}
  {lossy : List UInt8 → String} {classifications : Classifications}

/-- The entries that are presented, one by one. -/
theorem forall₂_derived {mods out : List ModEntry}
    (h : deriveRequired classifications mods = .ok out) :
    List.Forall₂ (fun m o => ∃ required, o = present classifications (optOut classifications m)
      required) mods out := by
  rw [deriveRequired_eq] at h
  obtain ⟨required, -, rfl⟩ := map_eq_ok.1 h
  have hpresent : List.Forall₂ (fun m o => ∃ required, o = present classifications m required)
      (mods.map (optOut classifications))
      (presentAll classifications (mods.map (optOut classifications)) required) :=
    forall₂_map_zipIdx fun _ _ => ⟨_, rfl⟩
  exact List.forall₂_map_left_iff.1 hpresent

theorem blank_display_present (m : ModEntry) (required : Bool) :
    blank (present classifications m required).display = blank m.display := by
  rw [present]
  split
  · rcases m.display with _ | d <;> rfl
  · rcases m.display with _ | d <;> rfl

/-- An entry of the manifest declares what is given back of the mod it was resolved from. -/
theorem givenBack_of_present {decl : DeclaredMod} {m : ModEntry} {required : Bool}
    (h : reconstructMod (percentDecode lossy) m = { decl with pulled := false }) :
    GivenBack classifications decl (reconstructMod (percentDecode lossy)
      (present classifications (optOut classifications m) required)) := by
  have hname : m.filename = decl.filename := congrArg DeclaredMod.filename h
  rw [optOut_eq]
  constructor
  · exact (filename_present _ _).trans hname
  · rw [reconstructMod, source_present, sha1_present]
    exact (congrArg DeclaredMod.source h :)
  · exact (slug_present _ _).trans (congrArg DeclaredMod.slug h)
  · exact (blank_display_present _ _).trans
      (congrArg (fun d => blank d.display) h)
  · rfl
  · refine (defaultEnabled_present _ _).trans ?_
    have he : m.defaultEnabled = decl.defaultEnabled := congrArg DeclaredMod.defaultEnabled h
    rw [he, side, hname]

/-! ## The theorem -/

variable {existing : List String} {requested : Option String} {cfg : PackConfig} {built : Built}

/-- The config that a revert to a build gives back. -/
def revertedConfig (lossy : List UInt8 → String) (built : Built) (cfg : PackConfig) :
    PackConfig :=
  reconstructConfig (percentDecode lossy) built.manifest
    (makePackSummary cfg built.manifest.packVersion)

/-- The mods of a manifest are sorted, as the resolved mods are. -/
theorem sorted_derived {mods out : List ModEntry}
    (h : deriveRequired classifications (sortMods mods) = .ok out) :
    ((out.map ModEntry.unrequired).map ModEntry.filename).Pairwise (· ≤ ·) := by
  have hnames : (sortMods mods).map ModEntry.filename =
      (out.map ModEntry.unrequired).map ModEntry.filename := by
    rw [List.map_map]
    refine map_eq_of_forall₂ ((forall₂_derived h).imp fun m o ho => ?_)
    obtain ⟨required, rfl⟩ := ho
    exact ((filename_present _ _).trans (filename_optOut m)).symm
  rw [← hnames]
  exact sorted_insertionSort ModEntry.filename mods

/-- The mods of a manifest are the declared ones in the order of their filenames, each of them
    resolved, opted out, and presented. -/
theorem forall₂_mods {mods : List (ModEntry × Bool)} {out : List ModEntry}
    (hmods : List.Forall₂ (fun m p => resolveMod X debug mirrorBase m = .ok p) cfg.mods mods)
    (h : deriveRequired classifications (sortMods (mods.map Prod.fst)) = .ok out) :
    List.Forall₂ (fun d o => ∃ p required, resolveMod X debug mirrorBase d = .ok p ∧
        o = present classifications (optOut classifications p.1) required)
      (cfg.mods.insertionSort fun a b => a.filename ≤ b.filename) out := by
  refine forall₂_comp ?_ (forall₂_sortMods hmods) (forall₂_derived h)
  rintro d m o ⟨p, hp, rfl⟩ ⟨required, rfl⟩
  exact ⟨p, required, hp, rfl⟩

/-- The entries of a manifest are resolved from what they declare. -/
theorem forall₂_again (lossy : List UInt8 → String) {mods : List (ModEntry × Bool)} {out : List ModEntry}
    (hmods : List.Forall₂ (fun m p => resolveMod X debug mirrorBase m = .ok p) cfg.mods mods)
    (h : deriveRequired classifications (sortMods (mods.map Prod.fst)) = .ok out) :
    ∃ again, List.Forall₂ (fun m p => resolveMod X debug mirrorBase m = .ok p)
        (out.map (reconstructMod (percentDecode lossy))) again ∧
      again.map Prod.fst = out.map ModEntry.unrequired := by
  obtain ⟨again, hagain⟩ : ∃ again, List.Forall₂ (fun o p =>
      resolveMod X debug mirrorBase (reconstructMod (percentDecode lossy) o) = .ok p ∧
        o.unrequired = p.1) out again := by
    refine exists_forall₂ fun o ho => ?_
    obtain ⟨d, p, required, hp, rfl⟩ := exists_of_mem_right (forall₂_mods hmods h) ho
    refine ⟨(_, p.2), (resolveMod_spec lossy hp).2 _ ?_ ?_ ?_ ?_, rfl⟩
    · rw [filename_present, filename_optOut]
    · rw [sha1_present, optOut_eq]
    · rw [sizeBytes_present, optOut_eq]
    · rw [source_present, optOut_eq]
  exact ⟨again, List.forall₂_map_left_iff.2 (hagain.imp fun _ _ ho => ho.1),
    (map_eq_of_forall₂ (hagain.imp fun _ _ ho => ho.2)).symm⟩

/-- The assets of a manifest are the declared ones in the order of their destinations, and what
    they declare. -/
theorem forall₂_assets (lossy : List UInt8 → String) {assets : List AssetEntry}
    (hmark : ∀ a ∈ cfg.assets, ∀ rel, a.source = .smrtStatic rel →
      Unmarked mirrorBase cfg.packId rel)
    (h : List.Forall₂ (fun a e => resolveAsset X debug mirrorBase cfg.packId a = .ok e)
      cfg.assets assets) :
    List.Forall₂ (fun a e => resolveAsset X debug mirrorBase cfg.packId a = .ok e ∧
        a = reconstructAsset (percentDecode lossy) e)
      (cfg.assets.insertionSort fun a b => a.dest ≤ b.dest) (sortAssets assets) := by
  have hdeclared : List.Forall₂ (fun a e => resolveAsset X debug mirrorBase cfg.packId a = .ok e ∧
      a = reconstructAsset (percentDecode lossy) e) cfg.assets assets :=
    ((List.forall₂_and_left _ _).2 ⟨hmark, h⟩).imp fun a e ha =>
      ⟨ha.2, (resolveAsset_spec lossy ha.1 ha.2).symm⟩
  have hdest : ∀ {a e}, (resolveAsset X debug mirrorBase cfg.packId a = .ok e ∧
      a = reconstructAsset (percentDecode lossy) e) → a.dest = e.dest :=
    fun h => congrArg DeclaredAsset.dest h.2
  exact forall₂_insertionSort (fun a a' e e' h h' => by rw [hdest h, hdest h']) hdeclared

/-- A revert to a build gives the config back, but for the version line: with its assets in the
    order of their destinations, and its mods in the order of their filenames. What it gives back
    builds again, to the same manifest under another version. -/
theorem revertedConfig_spec
    (h : buildManifest X debug mirrorBase existing classifications requested cfg = .ok built)
    (hmark : ∀ a ∈ cfg.assets, ∀ rel, a.source = .smrtStatic rel →
      Unmarked mirrorBase cfg.packId rel) :
    List.Forall₂ (GivenBack classifications)
        (cfg.mods.insertionSort fun a b => a.filename ≤ b.filename)
        (revertedConfig lossy built cfg).mods ∧
      revertedConfig lossy built cfg =
        { cfg with
          version := none
          mods := (revertedConfig lossy built cfg).mods
          assets := cfg.assets.insertionSort fun a b => a.dest ≤ b.dest } ∧
      ∀ existing' requested', (∀ v, requested' = some v → validatePackVersion debug v = .ok ()) →
        ∃ packVersion answered,
          buildManifest X debug mirrorBase existing' classifications requested'
              (revertedConfig lossy built cfg) =
            .ok { built with
              manifest := { built.manifest with packVersion }
              resolvedFromRegistry := answered } := by
  have hline : (revertedConfig lossy built cfg).version = none := rfl
  obtain ⟨packVersion, mods, assets, -, hmods, hassets, hbuilt⟩ := buildManifest_eq_ok.1 h
  obtain ⟨derived, hderived, rfl⟩ := assemble_eq_ok.1 hbuilt
  have hsorted := forall₂_assets lossy hmark hassets
  have hgiven : (sortAssets assets).map (reconstructAsset (percentDecode lossy)) =
      cfg.assets.insertionSort fun a b => a.dest ≤ b.dest := by
    rw [← List.map_id (cfg.assets.insertionSort fun a b => a.dest ≤ b.dest)]
    exact (map_eq_of_forall₂ (hsorted.imp fun _ _ ha => ha.2)).symm
  refine ⟨?_, ?_, fun existing' requested' hv => ?_⟩
  · refine List.forall₂_map_right_iff.2 ((forall₂_mods hmods hderived).imp fun d o hd => ?_)
    obtain ⟨p, required, hp, rfl⟩ := hd
    exact givenBack_of_present (resolveMod_spec lossy hp).1
  · simp only [revertedConfig, reconstructConfig, makePackSummary, hgiven]
  · -- Every entry is resolved again, and sorting and deriving leave them as they are.
    obtain ⟨again, hagain, hfst⟩ := forall₂_again lossy hmods hderived
    obtain ⟨packVersion', hversion⟩ := resolveVersion_of_none hline hv
    refine ⟨packVersion', (again.filter Prod.snd).map fun p => p.1.filename, ?_⟩
    refine buildManifest_eq_ok.2 ⟨packVersion', again, sortAssets assets, hversion, hagain, ?_, ?_⟩
    · rw [revertedConfig, reconstructConfig, hgiven]
      exact hsorted.imp fun _ _ ha => ha.1
    · refine assemble_eq_ok.2 ⟨derived, ?_, ?_⟩
      · rw [hfst, sortMods, insertionSort_of_sorted (sorted_derived hderived)]
        exact deriveRequired_derived hderived
      · rw [sortAssets, insertionSort_of_sorted (sorted_insertionSort AssetEntry.dest assets)]
        rfl

end Revert

/-! ## A server-side mod -/

/-- A store where every file is the same. -/
def oneFile : Upstream where
  storage := "data"
  modrinth _ _ := .ok [{ sha1 := "a", size := 1, primary := true }]
  registry _ := none
  cacheJar _ := .ok 1
  staticFile _ _ := .ok []
  sha1Hex _ := "b"

/-- A pack with one mod, in the default install, and with some assets. -/
def serverPack (assets : List DeclaredAsset) : PackConfig :=
  { PackConfig.empty "Pack" with
    mods := [{ filename := "s.jar", defaultEnabled := true, source := .modrinth "P" "V",
               display := none, slug := none, pulled := false }]
    assets }

/-- A static file, the name of which has a space. -/
def iconAsset : DeclaredAsset where
  dest := "icon.png"
  required := true
  source := .smrtStatic "a b.png"
  display := none

theorem resolveAsset_icon :
    resolveAsset oneFile id "https://mirror" "Pack" iconAsset =
      .ok { dest := "icon.png", sha1 := "b", sizeBytes := 0, required := true
            source := .smrtStatic (staticUrl "https://mirror" "Pack" "a b.png")
            display := none } := by
  have hdest : isSafeRelPath "icon.png" = true := by
    rw [isSafeRelPath, splitOn_slash]
    decide
  have hrel : isSafeRelPath "a b.png" = true := by
    rw [isSafeRelPath, splitOn_slash]
    decide
  simp only [resolveAsset, resolveAssetSource, iconAsset, hdest, hrel]
  rfl

/-- A build of the pack with the static file is reverted to, and built again. -/
theorem revertedConfig_spec_icon :
    ∃ built packVersion answered,
      buildManifest oneFile id "https://mirror" [] (fun _ => none) (some "1")
          (revertedConfig (fun _ => "") built (serverPack [iconAsset])) =
        .ok { built with
          manifest := { built.manifest with packVersion }
          resolvedFromRegistry := answered } := by
  obtain ⟨built, hbuilt⟩ : ∃ built, buildManifest oneFile id "https://mirror" [] (fun _ => none)
      (some "1") (serverPack [iconAsset]) = .ok built :=
    ⟨_, buildManifest_eq_ok.2 ⟨"1", _, _, rfl, .cons rfl .nil, .cons resolveAsset_icon .nil, rfl⟩⟩
  refine ⟨built, (revertedConfig_spec hbuilt ?_).2.2 [] (some "1") ?_⟩
  · simp only [serverPack, List.mem_singleton, forall_eq, iconAsset, SourceDecl.smrtStatic.injEq]
    rintro rel rfl
    decide
  · rintro v hv
    obtain rfl := Option.some.inj hv
    rfl

/-- A server-side mod of the default install comes back opted out. -/
theorem revertedConfig_serverSide :
    ∃ built, buildManifest oneFile id "https://mirror" [] (chainClassified .server) (some "1")
        (serverPack []) = .ok built ∧
      (serverPack []).mods.map DeclaredMod.defaultEnabled = [true] ∧
      (revertedConfig (fun _ => "") built (serverPack [])).mods.map
        DeclaredMod.defaultEnabled = [false] :=
  ⟨_, rfl, rfl, rfl⟩

end Smrt
