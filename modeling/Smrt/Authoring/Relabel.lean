import Smrt.Authoring.Manifest
import Smrt.Authoring.Revert
import Smrt.Domain.Diff

/-!
# Fingerprints and diffs

Two notions of a changed build: the fingerprint, which digests the lines of what lands in an
instance, and the diff, which a launcher shows. They are compared for builds of any two configs.

* `contentText_eq_iff`: where no tab and no line break is in a name, the text that is digested says
  what lands in an instance;
* `relabel_empty_iff`: when the diff of a build under a new version shows nothing;
* `shown_iff`: when a change of what lands in an instance is shown.
-/

namespace Smrt

/-! ## The text that is digested -/

theorem toList_loop (bs : ByteArray) (i : ℕ) (r : List UInt8) :
    ByteArray.toList.loop bs i r = r.reverse ++ bs.data.toList.drop i := by
  induction hn : bs.size - i generalizing i r with
  | zero =>
    have hi : ¬ i < bs.size := by omega
    rw [ByteArray.toList.loop, if_neg hi, List.drop_eq_nil_of_le (by simpa using hi),
      List.append_nil]
  | succ n ih =>
    have hi : i < bs.size := by omega
    have hdata : i < bs.data.toList.length := by simpa using hi
    have hget : bs.get! i = bs.data.toList[i] := by
      rw [ByteArray.get!, getElem!_pos bs.data i (by simpa using hi)]
      rfl
    rw [ByteArray.toList.loop, if_pos hi, ih _ _ (by omega), List.reverse_cons, List.append_assoc,
      List.singleton_append, List.drop_eq_getElem_cons hdata, hget]

/-- A text is told by its bytes. -/
theorem toUTF8_toList_inj {s t : String} : s.toUTF8.toList = t.toUTF8.toList ↔ s = t := by
  refine ⟨fun h => ?_, fun h => by rw [h]⟩
  rw [ByteArray.toList, ByteArray.toList, toList_loop, toList_loop, List.reverse_nil,
    List.nil_append, List.nil_append, List.drop_zero, List.drop_zero] at h
  exact String.toByteArray_inj.1 (ByteArray.ext (Array.ext' h))

/-- The text that is digested. -/
def contentText (m : PackManifest) : String :=
  String.intercalate "\n" ((contentLines m).insertionSort (· ≤ ·))

theorem contentFingerprint_eq_iff {sha1Hex : List UInt8 → String} (h : sha1Hex.Injective)
    {m n : PackManifest} : contentFingerprint sha1Hex m = contentFingerprint sha1Hex n ↔
      contentText m = contentText n := by
  rw [contentFingerprint, contentFingerprint, h.eq_iff, toUTF8_toList_inj]
  rfl

/-! ## What the text says -/

/-- Neither a tab nor a line break is in a text. -/
def PlainText (s : String) : Prop := '\t' ∉ s.toList ∧ '\n' ∉ s.toList

instance : DecidablePred PlainText := fun _ => inferInstanceAs (Decidable (_ ∧ _))

/-- Neither a tab nor a line break is in what is digested of a manifest. -/
structure PackManifest.Plain (m : PackManifest) : Prop where
  minecraft : PlainText m.minecraftVersion
  loaderName : PlainText m.loader.name
  loaderVersion : PlainText m.loader.version
  mods : ∀ e ∈ m.mods, PlainText e.filename ∧ PlainText e.sha1
  assets : ∀ e ∈ m.assets, PlainText e.dest ∧ PlainText e.sha1

/-- A line of some fields. -/
def joined (fields : List String) : String := String.intercalate "\t" fields

/-- The fields of a line. -/
def fieldsOf (line : String) : List String :=
  (pieces ['\t'] 0 [] line.toList).map String.ofList

theorem fieldsOf_joined {l : List String} (hne : l ≠ []) (hl : ∀ s ∈ l, PlainText s) :
    fieldsOf (joined l) = l := by
  have hpieces : pieces ['\t'] 0 [] (['\t'].intercalate (l.map String.toList)) =
      l.map String.toList := by
    refine pieces_intercalate (mt List.map_eq_nil_iff.1 hne) fun p hp => ?_
    obtain ⟨s, hs, rfl⟩ := List.mem_map.1 hp
    exact (hl s hs).1
  rw [fieldsOf, joined, String.toList_intercalate, show "\t".toList = ['\t'] by decide, hpieces,
    List.map_map]
  exact (List.map_congr_left fun s _ => String.ofList_toList).trans (List.map_id l)

theorem notMem_joined {l : List String} (hl : ∀ s ∈ l, PlainText s) : '\n' ∉ (joined l).toList := by
  induction l with
  | nil => exact List.not_mem_nil
  | cons s l ih =>
    obtain ⟨hs, hl⟩ := List.forall_mem_cons.1 hl
    rcases l with _ | ⟨t, l⟩
    · rw [joined, String.intercalate_singleton]
      exact hs.2
    · rw [joined, String.intercalate_cons_of_ne_nil (List.cons_ne_nil _ _), String.toList_append,
        String.toList_append, List.mem_append, List.mem_append, not_or, not_or]
      exact ⟨⟨hs.2, by decide⟩, ih hl⟩

def ModEntry.record (m : ModEntry) : List String :=
  ["mod", m.filename, m.sha1, toString m.required, toString m.defaultEnabled]

def AssetEntry.record (a : AssetEntry) : List String := ["asset", a.dest, a.sha1, toString a.required]

/-- The fields of what lands in an instance. -/
def PackManifest.records (m : PackManifest) : List (List String) :=
  ["mc", m.minecraftVersion] :: ["loader", m.loader.name, m.loader.version] ::
    ["java", toString m.javaMajor] :: (m.mods.map ModEntry.record ++ m.assets.map AssetEntry.record)

theorem contentLines_eq (m : PackManifest) : contentLines m = m.records.map joined := by
  have hmod : ∀ e : ModEntry, e.line = joined e.record := fun e => by
    rw [ModEntry.line, joined, ModEntry.record]
    simp only [String.intercalate_cons_cons, String.intercalate_singleton, String.append_assoc]
    rfl
  have hasset : ∀ a : AssetEntry, a.line = joined a.record := fun a => by
    rw [AssetEntry.line, joined, AssetEntry.record]
    simp only [String.intercalate_cons_cons, String.intercalate_singleton, String.append_assoc]
    rfl
  rw [contentLines, PackManifest.records, List.map_cons, List.map_cons, List.map_cons,
    List.map_append, List.map_map, List.map_map]
  refine congrArg₂ _ ?_ (congrArg₂ _ ?_ (congrArg₂ _ ?_ (congrArg₂ _
    (List.map_congr_left fun e _ => hmod e) (List.map_congr_left fun a _ => hasset a))))
  all_goals
    simp only [joined, String.intercalate_cons_cons, String.intercalate_singleton,
      String.append_assoc]
    rfl

theorem plainText_bool (b : Bool) : PlainText (toString b) := by
  cases b <;> decide

theorem plainText_nat (n : ℕ) : PlainText (toString n) := by
  have hdigit : ∀ c ∈ (toString n).toList, c.isDigit = true := fun c hc =>
    isDigit_of_mem_toDigits (toList_toString n ▸ hc)
  exact ⟨fun h => absurd (hdigit _ h) (by decide), fun h => absurd (hdigit _ h) (by decide)⟩

theorem PackManifest.Plain.records {m : PackManifest} (h : m.Plain) :
    ∀ r ∈ m.records, r ≠ [] ∧ ∀ s ∈ r, PlainText s := by
  intro r hr
  rcases List.mem_cons.1 hr with rfl | hr
  · exact ⟨List.cons_ne_nil _ _, List.forall_mem_cons.2 ⟨by decide,
      List.forall_mem_singleton.2 h.minecraft⟩⟩
  rcases List.mem_cons.1 hr with rfl | hr
  · exact ⟨List.cons_ne_nil _ _, List.forall_mem_cons.2 ⟨by decide, List.forall_mem_cons.2
      ⟨h.loaderName, List.forall_mem_singleton.2 h.loaderVersion⟩⟩⟩
  rcases List.mem_cons.1 hr with rfl | hr
  · exact ⟨List.cons_ne_nil _ _, List.forall_mem_cons.2 ⟨by decide,
      List.forall_mem_singleton.2 (plainText_nat _)⟩⟩
  rcases List.mem_append.1 hr with hr | hr
  · obtain ⟨e, he, rfl⟩ := List.mem_map.1 hr
    exact ⟨List.cons_ne_nil _ _, List.forall_mem_cons.2 ⟨by decide, List.forall_mem_cons.2
      ⟨(h.mods e he).1, List.forall_mem_cons.2 ⟨(h.mods e he).2, List.forall_mem_cons.2
        ⟨plainText_bool _, List.forall_mem_singleton.2 (plainText_bool _)⟩⟩⟩⟩⟩
  · obtain ⟨a, ha, rfl⟩ := List.mem_map.1 hr
    exact ⟨List.cons_ne_nil _ _, List.forall_mem_cons.2 ⟨by decide, List.forall_mem_cons.2
      ⟨(h.assets a ha).1, List.forall_mem_cons.2 ⟨(h.assets a ha).2,
        List.forall_mem_singleton.2 (plainText_bool _)⟩⟩⟩⟩

/-- The fields are read back from the lines. -/
theorem PackManifest.Plain.fieldsOf_contentLines {m : PackManifest} (h : m.Plain) :
    (contentLines m).map fieldsOf = m.records := by
  rw [contentLines_eq, List.map_map]
  refine (List.map_congr_left fun r hr => ?_).trans (List.map_id _)
  exact fieldsOf_joined (h.records r hr).1 (h.records r hr).2

/-- The lines are read back from the text. -/
theorem PackManifest.Plain.pieces_contentText {m : PackManifest} (h : m.Plain) :
    (pieces ['\n'] 0 [] (contentText m).toList).map String.ofList =
      (contentLines m).insertionSort (· ≤ ·) := by
  have hmem : ∀ {line}, line ∈ (contentLines m).insertionSort (· ≤ ·) ↔ line ∈ contentLines m :=
    (List.perm_insertionSort _ _).mem_iff
  have hpieces : pieces ['\n'] 0 [] (['\n'].intercalate
      (((contentLines m).insertionSort (· ≤ ·)).map String.toList)) =
        ((contentLines m).insertionSort (· ≤ ·)).map String.toList := by
    refine pieces_intercalate (mt List.map_eq_nil_iff.1 fun hnil => ?_) fun p hp => ?_
    · exact List.not_mem_nil (hnil ▸ hmem.2 List.mem_cons_self)
    · obtain ⟨line, hline, rfl⟩ := List.mem_map.1 hp
      rw [hmem, contentLines_eq] at hline
      obtain ⟨r, hr, rfl⟩ := List.mem_map.1 hline
      exact notMem_joined (h.records r hr).2
  rw [contentText, String.toList_intercalate, show "\n".toList = ['\n'] by decide, hpieces,
    List.map_map]
  exact (List.map_congr_left fun s _ => String.ofList_toList).trans (List.map_id _)

/-- What lands in an instance, in whatever order it is listed. -/
structure SameContent (m n : PackManifest) : Prop where
  minecraft : m.minecraftVersion = n.minecraftVersion
  loader : m.loader = n.loader
  java : m.javaMajor = n.javaMajor
  mods : (m.mods.map ModEntry.content).Perm (n.mods.map ModEntry.content)
  assets : (m.assets.map AssetEntry.content).Perm (n.assets.map AssetEntry.content)

theorem SameContent.contentText {m n : PackManifest} (h : SameContent m n) :
    contentText m = contentText n := by
  have hmods : (m.mods.map ModEntry.line).Perm (n.mods.map ModEntry.line) := by
    have hline : ∀ l : List ModEntry, l.map ModEntry.line = (l.map ModEntry.content).map fun c =>
        "mod\t" ++ c.1 ++ "\t" ++ c.2.1 ++ "\t" ++ toString c.2.2.1 ++ "\t" ++ toString c.2.2.2 :=
      fun l => by rw [List.map_map]; rfl
    rw [hline, hline]
    exact h.mods.map _
  have hassets : (m.assets.map AssetEntry.line).Perm (n.assets.map AssetEntry.line) := by
    have hline : ∀ l : List AssetEntry, l.map AssetEntry.line =
        (l.map AssetEntry.content).map fun c =>
          "asset\t" ++ c.1 ++ "\t" ++ c.2.1 ++ "\t" ++ toString c.2.2 :=
      fun l => by rw [List.map_map]; rfl
    rw [hline, hline]
    exact h.assets.map _
  have hlines : (contentLines m).Perm (contentLines n) := by
    rw [contentLines, contentLines, h.minecraft, h.loader, h.java]
    exact ((((hmods.append hassets).cons _).cons _).cons _)
  have hsorted : ∀ l : List String, (l.insertionSort (· ≤ ·)).Pairwise (· ≤ ·) :=
    fun l => List.pairwise_insertionSort (· ≤ ·) l
  have hsame : (contentLines m).insertionSort (· ≤ ·) = (contentLines n).insertionSort (· ≤ ·) :=
    (((List.perm_insertionSort _ _).trans hlines).trans
      (List.perm_insertionSort _ _).symm).eq_of_pairwise
        (fun _ _ _ _ hxy hyx => String.le_antisymm hxy hyx) (hsorted _) (hsorted _)
  rw [Smrt.contentText, Smrt.contentText, hsame]

/-! A record is told from others by how many fields it has. -/

def readPair (kind : String) : List String → Option String
  | [k, value] => if k = kind then some value else none
  | _ => none

def readLoader : List String → Option LoaderSpec
  | [_, name, version] => some ⟨name, version⟩
  | _ => none

def readMod : List String → Option (String × String × Bool × Bool)
  | [_, filename, sha1, required, defaultEnabled] =>
    some (filename, sha1, required = "true", defaultEnabled = "true")
  | _ => none

def readAsset : List String → Option (String × String × Bool)
  | [_, dest, sha1, required] => some (dest, sha1, required = "true")
  | _ => none

theorem readMod_record (m : ModEntry) : readMod m.record = some m.content := by
  have hbool : ∀ b : Bool, decide (toString b = "true") = b := by decide
  rw [ModEntry.record, readMod, hbool, hbool]
  rfl

theorem readAsset_record (a : AssetEntry) : readAsset a.record = some a.content := by
  have hbool : ∀ b : Bool, decide (toString b = "true") = b := by decide
  rw [AssetEntry.record, readAsset, hbool]
  rfl

theorem filterMap_records {β : Type} (read : List String → Option β) (m : PackManifest) :
    m.records.filterMap read = [["mc", m.minecraftVersion],
      ["loader", m.loader.name, m.loader.version], ["java", toString m.javaMajor]].filterMap read ++
        (m.mods.filterMap fun e => read e.record) ++ m.assets.filterMap fun a => read a.record := by
  have hsplit : m.records = [["mc", m.minecraftVersion],
      ["loader", m.loader.name, m.loader.version], ["java", toString m.javaMajor]] ++
        (m.mods.map ModEntry.record ++ m.assets.map AssetEntry.record) := rfl
  rw [hsplit, List.filterMap_append, List.filterMap_append, List.filterMap_map,
    List.filterMap_map, List.append_assoc]
  rfl

section Read

variable (m : PackManifest)

theorem filterMap_readMod : m.records.filterMap readMod = m.mods.map ModEntry.content := by
  have hassets : (m.assets.filterMap fun a => readMod a.record) = [] :=
    List.filterMap_eq_nil_iff.2 fun _ _ => rfl
  rw [filterMap_records, hassets, List.append_nil]
  exact (List.filterMap_congr fun e _ => readMod_record e).trans
    (congrFun (List.filterMap_eq_map (f := ModEntry.content)) _)

theorem filterMap_readAsset :
    m.records.filterMap readAsset = m.assets.map AssetEntry.content := by
  have hmods : (m.mods.filterMap fun e => readAsset e.record) = [] :=
    List.filterMap_eq_nil_iff.2 fun _ _ => rfl
  rw [filterMap_records, hmods, List.append_nil]
  exact (List.filterMap_congr fun a _ => readAsset_record a).trans
    (congrFun (List.filterMap_eq_map (f := AssetEntry.content)) _)

/-- What only the first records have. -/
theorem filterMap_target {β : Type} {read : List String → Option β}
    (hmod : ∀ e : ModEntry, read e.record = none) (hasset : ∀ a : AssetEntry, read a.record = none) :
    m.records.filterMap read = [["mc", m.minecraftVersion],
      ["loader", m.loader.name, m.loader.version], ["java", toString m.javaMajor]].filterMap read := by
  rw [filterMap_records, List.filterMap_eq_nil_iff.2 fun e _ => hmod e,
    List.filterMap_eq_nil_iff.2 fun a _ => hasset a, List.append_nil, List.append_nil]

end Read

/-- Where no tab and no line break is in a name, the text says what lands in an instance. -/
theorem contentText_eq_iff {m n : PackManifest} (hm : m.Plain) (hn : n.Plain) :
    contentText m = contentText n ↔ SameContent m n := by
  refine ⟨fun h => ?_, SameContent.contentText⟩
  have hlines : (contentLines m).insertionSort (· ≤ ·) =
      (contentLines n).insertionSort (· ≤ ·) := by
    rw [← hm.pieces_contentText, ← hn.pieces_contentText, h]
  have hrecords : m.records.Perm n.records := by
    rw [← hm.fieldsOf_contentLines, ← hn.fieldsOf_contentLines]
    exact (((List.perm_insertionSort (· ≤ ·) _).symm.trans (List.Perm.of_eq hlines)).trans
      (List.perm_insertionSort (· ≤ ·) _)).map _
  have htarget : ∀ {β : Type} {read : List String → Option β} {x y : β},
      m.records.filterMap read = [x] → n.records.filterMap read = [y] → x = y := by
    intro β read x y hx hy
    have hperm := hrecords.filterMap read
    rw [hx, hy] at hperm
    exact List.singleton_perm_singleton.1 hperm
  have hpair : ∀ (kind : String) (p : PackManifest), p.records.filterMap (readPair kind) =
      [["mc", p.minecraftVersion], ["loader", p.loader.name, p.loader.version],
        ["java", toString p.javaMajor]].filterMap (readPair kind) := fun kind p =>
    filterMap_target p (fun _ => rfl) fun _ => rfl
  have hmc : ∀ p : PackManifest, p.records.filterMap (readPair "mc") = [p.minecraftVersion] :=
    fun p => (hpair "mc" p).trans rfl
  have hjava : ∀ p : PackManifest, p.records.filterMap (readPair "java") =
      [toString p.javaMajor] := fun p => (hpair "java" p).trans rfl
  have hloader : ∀ p : PackManifest, p.records.filterMap readLoader = [p.loader] :=
    fun p => (filterMap_target p (fun _ => rfl) fun _ => rfl).trans rfl
  have hmods := hrecords.filterMap readMod
  have hassets := hrecords.filterMap readAsset
  rw [filterMap_readMod, filterMap_readMod] at hmods
  rw [filterMap_readAsset, filterMap_readAsset] at hassets
  exact ⟨htarget (hmc m) (hmc n), htarget (hloader m) (hloader n),
    UInt32.toNat_inj.1 (eq_of_repr (htarget (hjava m) (hjava n))), hmods, hassets⟩

/-! ## Builds -/

/-- A manifest that is published: what was built, with its fingerprint. -/
def Built.stored (b : Built) : StoredManifest :=
  { b.manifest with fingerprint := some b.fingerprint }

/-- What a build returns of some config that declares nothing twice. -/
def IsBuild (sha1Hex : List UInt8 → String) (b : Built) : Prop :=
  ∃ X debug mirrorBase existing classifications requested cfg, X.sha1Hex = sha1Hex ∧
    cfg.duplicateDeclaration = none ∧
      buildManifest X debug mirrorBase existing classifications requested cfg = .ok b

section Builds

variable {sha1Hex : List UInt8 → String} {a b : Built}

theorem IsBuild.fingerprint (h : IsBuild sha1Hex b) :
    b.fingerprint = contentFingerprint sha1Hex b.manifest := by
  obtain ⟨X, debug, mirrorBase, existing, classifications, requested, cfg, rfl, -, hbuild⟩ := h
  obtain ⟨packVersion, mods, assets, -, -, -, hassemble⟩ := buildManifest_eq_ok.1 hbuild
  obtain ⟨derived, -, rfl⟩ := assemble_eq_ok.1 hassemble
  rfl

/-- No two assets of a build go to one place. -/
theorem IsBuild.nodup_dest (h : IsBuild sha1Hex b) :
    (b.manifest.assets.map AssetEntry.dest).Nodup := by
  obtain ⟨X, debug, mirrorBase, existing, classifications, requested, cfg, -, hdistinct, hbuild⟩ := h
  obtain ⟨packVersion, mods, assets, -, -, hassets, hassemble⟩ := buildManifest_eq_ok.1 hbuild
  obtain ⟨derived, -, rfl⟩ := assemble_eq_ok.1 hassemble
  have hkept : ∀ ⦃d e⦄, resolveAsset X debug mirrorBase cfg.packId d = .ok e → d.dest = e.dest := by
    intro d e h
    obtain ⟨-, _, _, _, -, rfl⟩ := resolveAsset_eq_ok.1 h
    rfl
  have hdest : assets.map AssetEntry.dest = cfg.assets.map DeclaredAsset.dest :=
    (map_eq_of_forall₂ (hassets.imp fun _ _ h => hkept h)).symm
  have hperm : ((sortAssets assets).map AssetEntry.dest).Perm (assets.map AssetEntry.dest) :=
    (List.perm_insertionSort _ assets).map _
  exact hperm.nodup_iff.2
    (hdest ▸ (PackConfig.duplicateDeclaration_eq_none.1 hdistinct).2)

theorem IsBuild.fingerprint_eq_iff (hsha1 : sha1Hex.Injective) (ha : IsBuild sha1Hex a)
    (hb : IsBuild sha1Hex b) :
    a.fingerprint = b.fingerprint ↔ contentText a.manifest = contentText b.manifest := by
  rw [ha.fingerprint, hb.fingerprint, contentFingerprint_eq_iff hsha1]

theorem contentChanged_eq_false :
    (diffManifests a.stored b.stored).contentChanged = false ↔ a.fingerprint = b.fingerprint :=
  decide_eq_false_iff_not.trans not_not

/-- What is shown of two builds is the same. -/
def SameShown (m n : PackManifest) : Prop :=
  SameTarget m n ∧
    (∀ x, x ∈ m.mods.map (fun e => (e.identity, e.installed)) ↔
      x ∈ n.mods.map fun e => (e.identity, e.installed)) ∧
    ∀ x, x ∈ m.assets.map (fun e => (e.dest, e.sha1)) ↔ x ∈ n.assets.map fun e => (e.dest, e.sha1)

/-- A change of what lands in an instance is shown unless it is only of what a diff does not look at:
    the name of the loader, what an entry requires, and the filename of a mod that has another
    identity. Where no tab and no line break is in a name, the text is what lands in an instance. -/
theorem shown_iff (hsha1 : sha1Hex.Injective) (ha : IsBuild sha1Hex a) (hb : IsBuild sha1Hex b)
    (hidentity : (a.manifest.mods.map ModEntry.identity).Nodup) :
    ((a.fingerprint ≠ b.fingerprint → ¬ (diffManifests a.stored b.stored).Empty) ↔
      (SameShown a.manifest b.manifest → contentText a.manifest = contentText b.manifest)) ∧
    (a.manifest.Plain → b.manifest.Plain →
      (contentText a.manifest = contentText b.manifest ↔ SameContent a.manifest b.manifest)) := by
  refine ⟨?_, contentText_eq_iff⟩
  have hempty : (diffManifests a.stored b.stored).Empty ↔ SameShown a.manifest b.manifest := by
    rw [empty_diffManifests]
    exact and_congr_right fun _ => and_congr (paired_iff_of_nodup hidentity)
      (paired_iff_of_nodup ha.nodup_dest)
  rw [hempty, not_imp_not, ha.fingerprint_eq_iff hsha1 hb]

end Builds

/-! ## Two jars of one slug, and a loader under another name -/

/-- Bytes are digested to a text of them. -/
def bytesText (bytes : List UInt8) : String :=
  String.ofList (bytes.map fun b => Char.ofNat b.toNat)

theorem bytesText_injective : bytesText.Injective := by
  intro l l' h
  have hchar : Function.Injective fun b : UInt8 => Char.ofNat b.toNat := by
    intro x y hxy
    have hvalid : ∀ b : UInt8, (Char.ofNat b.toNat).toNat = b.toNat := fun b => by
      rw [Char.ofNat, dif_pos (.inl (b.toNat_lt.trans (by decide)))]
      exact UInt32.toNat_ofNatLT
    exact UInt8.toNat_inj.1 ((hvalid x).symm.trans ((congrArg Char.toNat hxy).trans (hvalid y)))
  exact List.map_injective_iff.2 hchar (String.ofList_injective h)

/-- Every file is found. -/
def foundFiles : Upstream := { oneFile with sha1Hex := bytesText }

def buildFound (cfg : PackConfig) : Except String Built :=
  buildManifest foundFiles id "https://mirror" [] (fun _ => none) (some "1") cfg

theorem isBuild_of_build {cfg : PackConfig} {b : Built} (h : buildFound cfg = .ok b)
    (hdistinct : cfg.duplicateDeclaration = none) : IsBuild bytesText b :=
  ⟨foundFiles, id, "https://mirror", [], fun _ => none, some "1", cfg, rfl, hdistinct, h⟩

/-- A jar of the cache. -/
def cachedMod (filename sha1 : String) : DeclaredMod where
  filename := filename
  defaultEnabled := true
  source := .smrtCache sha1
  display := none
  slug := some "tweaks"
  pulled := false

def slugTwice : PackConfig :=
  { PackConfig.empty "Pack" with
    mods := [cachedMod "a.jar" "aaaaaaaaaaaaaaaaaaaaaaaaaaaaaaaaaaaaaaaa",
      cachedMod "b.jar" "bbbbbbbbbbbbbbbbbbbbbbbbbbbbbbbbbbbbbbbb"] }

theorem exists_ok (r : Except String Built) (p : Built → Bool) (h : r.toOption.any p = true) :
    ∃ b, r = .ok b ∧ p b = true := by
  obtain ⟨b, hb, hp⟩ := (Option.any_eq_true _ _).1 h
  rcases r with e | b'
  · exact absurd hb.symm (Option.some_ne_none _)
  · exact ⟨b', rfl, Option.some.inj hb ▸ hp⟩

/-- A loader under another name, in the same version. -/
def renamedPack : PackConfig :=
  { serverPack [] with loader := { name := "cleanroom", version := "14.23.5.2922" } }

def newerPack : PackConfig := { serverPack [] with minecraftVersion := "1.21.1" }

/-- A loader goes by another name: the fingerprint is another one, and nothing is shown. -/
theorem renamedPack_hidden : bytesText.Injective ∧ ∃ a b, IsBuild bytesText a ∧
    IsBuild bytesText b ∧ (a.manifest.mods.map ModEntry.identity).Nodup ∧
    (b.manifest.mods.map ModEntry.identity).Nodup ∧ a.fingerprint ≠ b.fingerprint ∧
    (diffManifests a.stored b.stored).Empty := by
  obtain ⟨a, hbuilda, hboth⟩ := exists_ok (buildFound (serverPack [])) (fun a =>
    (buildFound renamedPack).toOption.any fun b =>
      contentText a.manifest ≠ contentText b.manifest ∧ a.manifest.mods = b.manifest.mods ∧
        a.manifest.assets = b.manifest.assets ∧ (a.manifest.mods.map ModEntry.identity).Nodup ∧
          a.manifest.minecraftVersion = b.manifest.minecraftVersion ∧
            a.manifest.loader.version = b.manifest.loader.version ∧
              a.manifest.javaMajor = b.manifest.javaMajor) (by decide +kernel)
  obtain ⟨b, hbuildb, hsame⟩ := exists_ok (buildFound renamedPack) _ hboth
  obtain ⟨htext, hmods, hassets, hnodup, hmc, hloader, hjava⟩ := of_decide_eq_true hsame
  have ha : IsBuild bytesText a := isBuild_of_build hbuilda (by decide +kernel)
  have hb : IsBuild bytesText b := isBuild_of_build hbuildb (by decide +kernel)
  refine ⟨bytesText_injective, a, b, ha, hb, hnodup, hmods ▸ hnodup,
    mt (ha.fingerprint_eq_iff bytesText_injective hb).1 htext, ?_⟩
  refine empty_diffManifests.2 ⟨⟨hloader, hmc, hjava⟩, ?_, ?_⟩
  · refine hmods ▸ paired_self_iff.2 fun m hm n hn hmn => ?_
    rw [List.inj_on_of_nodup_map hnodup hm hn hmn]
  · refine hassets ▸ paired_self_iff.2 fun d hd e he hde => ?_
    rw [List.inj_on_of_nodup_map ha.nodup_dest hd he hde]

/-- A newer version of the game is shown. -/
theorem shown_newerPack : ∃ a b, IsBuild bytesText a ∧ IsBuild bytesText b ∧
    a.fingerprint ≠ b.fingerprint ∧ ¬ (diffManifests a.stored b.stored).Empty := by
  obtain ⟨a, hbuilda, hboth⟩ := exists_ok (buildFound (serverPack [])) (fun a =>
    (buildFound newerPack).toOption.any fun b =>
      contentText a.manifest ≠ contentText b.manifest ∧
        (a.manifest.mods.map ModEntry.identity).Nodup ∧
          a.manifest.minecraftVersion ≠ b.manifest.minecraftVersion) (by decide +kernel)
  obtain ⟨b, hbuildb, hother⟩ := exists_ok (buildFound newerPack) _ hboth
  obtain ⟨htext, hnodup, hmc⟩ := of_decide_eq_true hother
  have ha : IsBuild bytesText a := isBuild_of_build hbuilda (by decide +kernel)
  have hb : IsBuild bytesText b := isBuild_of_build hbuildb (by decide +kernel)
  have hfp := mt (ha.fingerprint_eq_iff bytesText_injective hb).1 htext
  exact ⟨a, b, ha, hb, hfp, (shown_iff bytesText_injective ha hb hnodup).1.2
    (fun h => absurd h.1.minecraft hmc) hfp⟩

end Smrt
