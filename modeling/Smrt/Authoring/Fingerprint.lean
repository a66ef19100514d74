import Smrt.Authoring.Locks
import Smrt.Authoring.Relabel
import Smrt.Lib.Blocks
import Smrt.Lib.Hex

/-!
# Fingerprints

The fingerprint of a build is a digest of a text: a line for everything that lands in an instance,
the lines sorted and blockText (`contentFingerprint`). Sorted, the lines of the assets come first,
then what the build is for, then the lines of the mods (`toList_contentText`).

Nothing in a line is escaped. What the text is read back to depends on the texts that are
put into it:

* the rows of a build have one line each, and the lines tell the rows, unless a filename holds what
  begins a line of a mod (`LineName`);
* what a build is for has a text of its own (`Target.text`), which can be the text of another
  target, or one with the lines of some mods behind it (`Continues`).

`fingerprint_identifies_iff`: that these do not happen is what it takes for the fingerprint to
identify the content.
-/

namespace Smrt.Fingerprint

/-- What lands in an instance of a mod: a filename, a digest, and two flags. -/
abbrev ModContent := String × String × Bool × Bool

abbrev AssetContent := String × String × Bool

/-! ## Lines -/

section Lines

/-- A line of a mod, behind what begins it. -/
def modBody : ModContent → List Char
  | (filename, sha1, required, enabled) => filename.toList ++ '\t' :: (sha1.toList ++
      '\t' :: ((toString required).toList ++ '\t' :: (toString enabled).toList))

def modLine : ModContent → String
  | (filename, sha1, required, enabled) => "mod\t" ++ filename ++ "\t" ++ sha1 ++ "\t" ++
      toString required ++ "\t" ++ toString enabled

/-- A line of an asset, behind what begins it. -/
def assetBody : AssetContent → List Char
  | (dest, sha1, required) => dest.toList ++ '\t' :: (sha1.toList ++
      '\t' :: (toString required).toList)

def assetLine : AssetContent → String
  | (dest, sha1, required) => "asset\t" ++ dest ++ "\t" ++ sha1 ++ "\t" ++ toString required

theorem toList_modLine (c : ModContent) : (modLine c).toList = "mod\t".toList ++ modBody c := by
  obtain ⟨filename, sha1, required, enabled⟩ := c
  simp [modLine, modBody]

theorem toList_assetLine (c : AssetContent) :
    (assetLine c).toList = "asset\t".toList ++ assetBody c := by
  obtain ⟨dest, sha1, required⟩ := c
  simp [assetLine, assetBody]

/-- What begins a line of a mod, with the end of the line before. -/
def modSep : List Char := ['\n', 'm', 'o', 'd', '\t']

/-- A filename that holds nothing that begins a line of a mod, also not with the tab behind it. -/
def LineName (filename : String) : Prop := ¬ modSep <:+: filename.toList ++ ['\t']

instance (filename : String) : Decidable (LineName filename) :=
  inferInstanceAs (Decidable (¬ _))

/-- A row of a mod that a build makes. -/
structure IsMod (c : ModContent) : Prop where
  filename : isSafeFilename c.1 = true
  sha1 : isHex c.2.1 = true

/-- A row of an asset that a build makes. -/
structure IsAsset (c : AssetContent) : Prop where
  dest : isSafeRelPath c.1 = true
  sha1 : isHex c.2.1 = true

theorem not_mem_toString (b : Bool) : '\t' ∉ (toString b).toList ∧ '\n' ∉ (toString b).toList := by
  rcases b <;> decide

theorem toString_inj {a b : Bool} (h : (toString a).toList = (toString b).toList) : a = b := by
  revert h
  rcases a <;> rcases b <;> decide

/-- There is no white space in a digest. -/
theorem not_mem_of_isHex {sha1 : String} (h : isHex sha1 = true) {c : Char}
    (hc : isWhiteSpace c = true) : c ∉ sha1.toList := by
  intro hm
  simp only [isHex, decide_eq_true_eq, List.all_eq_true] at h
  rw [not_isWhiteSpace_of_hex (h.2 c hm)] at hc
  exact absurd hc nofun

theorem not_isAlphanum_of_isWhiteSpace {c : Char} (hc : isWhiteSpace c = true) :
    ¬ c.isAlphanum = true := by
  simp only [isWhiteSpace, decide_eq_true_eq, UInt32.le_iff_toNat_le, ← UInt32.toNat_inj,
    UInt32.toNat_ofNat] at hc
  have hletters : 'A'.val.toNat = 65 ∧ 'Z'.val.toNat = 90 ∧ 'a'.val.toNat = 97 ∧
      'z'.val.toNat = 122 ∧ '0'.val.toNat = 48 ∧ '9'.val.toNat = 57 := by decide
  delta Char.isAlphanum Char.isAlpha Char.isUpper Char.isLower Char.isDigit
  simp only [Bool.or_eq_true, decide_eq_true_eq, Bool.and_eq_true, UInt32.le_iff_toNat_le,
    ge_iff_le]
  omega

/-- Of white space, there are only blanks in the path of a file. -/
theorem not_mem_of_isSafeRelPath {rel : String} (h : isSafeRelPath rel = true) {c : Char}
    (hc : isWhiteSpace c = true) (hblank : c ≠ ' ') : c ∉ rel.toList := by
  intro hm
  obtain ⟨-, -, -, -, hall⟩ := of_decide_eq_true h
  have hpieces := intercalate_pieces (List.cons_ne_nil '/' []) [] rel.toList
  rw [List.nil_append] at hpieces
  rcases mem_intercalate (hpieces.symm ▸ hm) with rfl | ⟨segment, hs, hin⟩
  · exact absurd hc (by decide)
  · rw [splitOn_eq (by decide), List.all_map, List.all_eq_true] at hall
    obtain ⟨-, -, hletters⟩ := of_decide_eq_true (hall segment hs)
    rw [String.toList_ofList, List.all_eq_true] at hletters
    rcases of_decide_eq_true (hletters c hin) with hletter | hother
    · exact absurd hletter (not_isAlphanum_of_isWhiteSpace hc)
    · simp only [List.mem_cons, List.not_mem_nil, or_false, hblank, false_or] at hother
      rcases hother with rfl | rfl | rfl | rfl | rfl | rfl | rfl | rfl | rfl <;>
        exact absurd hc (by decide)

/-- A row of a mod is told by its line. -/
theorem modBody_inj {c d : ModContent} (hc : IsMod c) (hd : IsMod d)
    (h : modBody c = modBody d) : c = d := by
  obtain ⟨filename, sha1, required, enabled⟩ := c
  obtain ⟨filename', sha1', required', enabled'⟩ := d
  -- The line is cut at its last tabs.
  have hcut : ∀ (f s r e : List Char), f ++ '\t' :: (s ++ '\t' :: (r ++ '\t' :: e)) =
      ((f ++ '\t' :: s) ++ '\t' :: r) ++ '\t' :: e := by
    intro f s r e
    simp
  have htab := not_mem_of_isHex hc.sha1 (c := '\t') (by decide)
  have htab' := not_mem_of_isHex hd.sha1 (c := '\t') (by decide)
  rw [modBody, modBody, hcut, hcut,
    append_cons_inj_right (not_mem_toString _).1 (not_mem_toString _).1,
    append_cons_inj_right (not_mem_toString _).1 (not_mem_toString _).1,
    append_cons_inj_right htab htab', String.toList_inj, String.toList_inj] at h
  obtain ⟨⟨⟨rfl, rfl⟩, hr⟩, he⟩ := h
  rw [toString_inj hr, toString_inj he]

/-- Nothing in a row of a mod begins a line of another. -/
theorem block_modBody {c : ModContent} (hc : IsMod c) (hname : LineName c.1) :
    Block modSep (modBody c) := by
  intro blocks
  obtain ⟨filename, sha1, required, enabled⟩ := c
  refine clear_append (clear_snoc (s := ['\n', 'm', 'o', 'd']) (by decide) hname) ?_
  refine clear_of_not_mem fun hm => ?_
  have hline := not_mem_of_isHex hc.sha1 (c := '\n') (by decide)
  simp only [List.mem_cons, List.mem_append, not_mem_toString, hline, or_false, false_or] at hm
  exact absurd hm (by decide)

theorem not_mem_assetBody {c : AssetContent} (hc : IsAsset c) : '\n' ∉ assetBody c := by
  obtain ⟨dest, sha1, required⟩ := c
  intro hm
  have hline := not_mem_of_isHex hc.sha1 (c := '\n') (by decide)
  have hdest := not_mem_of_isSafeRelPath hc.dest (c := '\n') (by decide) (by decide)
  simp only [assetBody, List.mem_cons, List.mem_append, not_mem_toString, hline, hdest, or_false,
    false_or] at hm
  exact absurd hm (by decide)

theorem assetBody_inj {c d : AssetContent} (hc : IsAsset c) (hd : IsAsset d)
    (h : assetBody c = assetBody d) : c = d := by
  obtain ⟨dest, sha1, required⟩ := c
  obtain ⟨dest', sha1', required'⟩ := d
  have htab := not_mem_of_isSafeRelPath hc.dest (c := '\t') (by decide) (by decide)
  have htab' := not_mem_of_isSafeRelPath hd.dest (c := '\t') (by decide) (by decide)
  rw [assetBody, assetBody, append_cons_inj htab htab',
    append_cons_inj_right (not_mem_toString _).1 (not_mem_toString _).1, String.toList_inj,
    String.toList_inj] at h
  obtain ⟨rfl, rfl, hr⟩ := h
  rw [toString_inj hr]

end Lines

/-! ## The text -/

/-- What a build is for. -/
structure Target where
  minecraftVersion : String
  loader : LoaderSpec
  javaMajor : UInt32
  deriving DecidableEq

/-- What a manifest is for. -/
def target (m : PackManifest) : Target where
  minecraftVersion := m.minecraftVersion
  loader := m.loader
  javaMajor := m.javaMajor

/-- The lines of the loader and of the game. -/
def Target.text (t : Target) : List Char :=
  "loader\t".toList ++ t.loader.name.toList ++ '\t' :: (t.loader.version.toList ++
    "\nmc\t".toList ++ t.minecraftVersion.toList)

/-- The rows of mods, by their lines. -/
def sortedMods (m : PackManifest) : List ModContent :=
  (m.mods.map ModEntry.content).insertionSort fun c d => modLine c ≤ modLine d

def sortedAssets (m : PackManifest) : List AssetContent :=
  (m.assets.map AssetEntry.content).insertionSort fun c d => assetLine c ≤ assetLine d

section Text

variable (m : PackManifest)

/-- The text of a target, from left to right. -/
theorem Target.text_eq (t : Target) : t.text = "loader\t".toList ++ (t.loader.name.toList ++
    '\t' :: (t.loader.version.toList ++ '\n' :: ("mc\t".toList ++ t.minecraftVersion.toList))) := by
  have hlines : ∀ a b c : List Char, "loader\t".toList ++ a ++ '\t' :: (b ++ "\nmc\t".toList ++ c) =
      "loader\t".toList ++ (a ++ '\t' :: (b ++ '\n' :: ("mc\t".toList ++ c))) := by
    intro a b c
    have hmc : "\nmc\t".toList = '\n' :: "mc\t".toList := rfl
    rw [hmc]
    generalize "mc\t".toList = mc
    simp only [List.append_assoc, List.cons_append]
  exact hlines _ _ _

/-- The two lines of what a build is for. -/
theorem text_target : (target m).text =
    ("loader\t" ++ m.loader.name ++ "\t" ++ m.loader.version).toList ++
      '\n' :: ("mc\t" ++ m.minecraftVersion).toList := by
  have hlines : ∀ a b c : String, "loader\t".toList ++ (a.toList ++ '\t' :: (b.toList ++
      '\n' :: ("mc\t".toList ++ c.toList))) = ("loader\t" ++ a ++ "\t" ++ b).toList ++
        '\n' :: ("mc\t" ++ c).toList := by
    intro a b c
    have htab : "\t".toList = ['\t'] := rfl
    rw [String.toList_append, String.toList_append, String.toList_append, String.toList_append,
      htab]
    generalize "loader\t".toList = loader
    generalize "mc\t".toList = mc
    simp only [List.append_assoc, List.cons_append, List.nil_append]
  exact (Target.text_eq _).trans (hlines _ _ _)

/-- Two lines that begin differently. -/
theorem le_of_toList {s t : String} {a x y : List Char} {c d : Char} (hs : s.toList = a ++ c :: x)
    (ht : t.toList = a ++ d :: y) (hcd : c < d) : s ≤ t := by
  refine le_of_lt (String.lt_iff_toList_lt.2 ?_)
  rw [hs, ht]
  clear hs ht
  induction a with
  | nil => exact List.Lex.rel hcd
  | cons e a ih => exact List.Lex.cons ih

/-- The lines in their order: the assets, what the build is for, and the mods. -/
theorem sorted_contentLines : (contentLines m).insertionSort (· ≤ ·) =
    (sortedAssets m).map assetLine ++ ("java\t" ++ toString m.javaMajor) ::
      ("loader\t" ++ m.loader.name ++ "\t" ++ m.loader.version) ::
        ("mc\t" ++ m.minecraftVersion) :: (sortedMods m).map modLine := by
  have hmods : (sortedMods m).map modLine = (m.mods.map ModEntry.line).insertionSort (· ≤ ·) := by
    rw [sortedMods, List.map_insertionSort _ (· ≤ ·) modLine _ fun _ _ _ _ => Iff.rfl,
      List.map_map]
    rfl
  have hassets : (sortedAssets m).map assetLine =
      (m.assets.map AssetEntry.line).insertionSort (· ≤ ·) := by
    rw [sortedAssets, List.map_insertionSort _ (· ≤ ·) assetLine _ fun _ _ _ _ => Iff.rfl,
      List.map_map]
    rfl
  have hperm : (contentLines m).Perm ((sortedAssets m).map assetLine ++
      (["java\t" ++ toString m.javaMajor, "loader\t" ++ m.loader.name ++ "\t" ++
        m.loader.version, "mc\t" ++ m.minecraftVersion] ++ (sortedMods m).map modLine)) := by
    rw [hmods, hassets]
    refine .trans ?_ (List.perm_append_comm_assoc _ _ _)
    have hhead : (["mc\t" ++ m.minecraftVersion, "loader\t" ++ m.loader.name ++ "\t" ++
        m.loader.version, "java\t" ++ toString m.javaMajor]).Perm
          ["java\t" ++ toString m.javaMajor, "loader\t" ++ m.loader.name ++ "\t" ++
            m.loader.version, "mc\t" ++ m.minecraftVersion] := (List.reverse_perm _).symm
    exact hhead.append (List.perm_append_comm.trans
      ((List.perm_insertionSort _ _).symm.append (List.perm_insertionSort _ _).symm))
  refine ((List.perm_insertionSort _ _).trans hperm).eq_of_pairwise
    (fun _ _ _ _ => String.le_antisymm) (List.pairwise_insertionSort _ _) ?_
  have hasset : ∀ a ∈ (sortedAssets m).map assetLine, ∃ x, a.toList = [] ++ 'a' :: x := by
    intro a ha
    obtain ⟨c, -, rfl⟩ := List.mem_map.1 ha
    exact ⟨_, toList_assetLine c⟩
  have hmod : ∀ a ∈ (sortedMods m).map modLine, ∃ x, a.toList = ['m'] ++ 'o' :: x := by
    intro a ha
    obtain ⟨c, -, rfl⟩ := List.mem_map.1 ha
    exact ⟨_, toList_modLine c⟩
  obtain ⟨java, hjava⟩ : ∃ x, ("java\t" ++ toString m.javaMajor).toList = [] ++ 'j' :: x :=
    ⟨_, String.toList_append⟩
  obtain ⟨loader, hloader⟩ : ∃ x, ("loader\t" ++ m.loader.name ++ "\t" ++
      m.loader.version).toList = [] ++ 'l' :: x := ⟨_, by simp only [String.toList_append]; rfl⟩
  obtain ⟨mc, hmc⟩ : ∃ x, ("mc\t" ++ m.minecraftVersion).toList = ['m'] ++ 'c' :: x :=
    ⟨_, String.toList_append⟩
  have hafter : ∀ b ∈ (sortedMods m).map modLine, ∃ x, b.toList = [] ++ 'm' :: x := fun b hb =>
    (hmod b hb).elim fun x hx => ⟨_, hx⟩
  refine List.pairwise_append.2 ⟨hassets ▸ List.pairwise_insertionSort _ _, ?_, ?_⟩
  · refine List.pairwise_cons.2 ⟨?_, List.pairwise_cons.2 ⟨?_, List.pairwise_cons.2
      ⟨?_, hmods ▸ List.pairwise_insertionSort _ _⟩⟩⟩
    · refine List.forall_mem_cons.2 ⟨le_of_toList hjava hloader (by decide),
        List.forall_mem_cons.2 ⟨le_of_toList hjava hmc (by decide), fun b hb => ?_⟩⟩
      obtain ⟨x, hx⟩ := hafter b hb
      exact le_of_toList hjava hx (by decide)
    · refine List.forall_mem_cons.2 ⟨le_of_toList hloader hmc (by decide), fun b hb => ?_⟩
      obtain ⟨x, hx⟩ := hafter b hb
      exact le_of_toList hloader hx (by decide)
    · intro b hb
      obtain ⟨x, hx⟩ := hmod b hb
      exact le_of_toList hmc hx (by decide)
  · intro a ha
    obtain ⟨y, hy⟩ := hasset a ha
    refine List.forall_mem_cons.2 ⟨le_of_toList hy hjava (by decide), List.forall_mem_cons.2
      ⟨le_of_toList hy hloader (by decide), List.forall_mem_cons.2
        ⟨le_of_toList hy hmc (by decide), fun b hb => ?_⟩⟩⟩
    obtain ⟨x, hx⟩ := hafter b hb
    exact le_of_toList hy hx (by decide)

theorem toList_contentText : (contentText m).toList =
    ((sortedAssets m).flatMap fun c => (assetLine c).toList ++ ['\n']) ++
      ("java\t" ++ toString m.javaMajor).toList ++ '\n' :: ((target m).text ++
        blockText modSep ((sortedMods m).map modBody)) := by
  have hmods : (((sortedMods m).map modLine).map String.toList).flatMap (fun x => '\n' :: x) =
      blockText modSep ((sortedMods m).map modBody) := by
    simp only [blockText, List.flatMap_map, toList_modLine]
    rfl
  have hjoin := intercalate_append_cons '\n' (((sortedAssets m).map assetLine).map String.toList)
    ("java\t" ++ toString m.javaMajor).toList
    (("loader\t" ++ m.loader.name ++ "\t" ++ m.loader.version).toList ::
      ("mc\t" ++ m.minecraftVersion).toList :: ((sortedMods m).map modLine).map String.toList)
  rw [contentText, sorted_contentLines, String.toList_intercalate, List.map_append, List.map_cons,
    List.map_cons, List.map_cons]
  refine hjoin.trans ?_
  rw [List.flatMap_cons, List.flatMap_cons, hmods, text_target, List.flatMap_map, List.flatMap_map]
  simp only [List.append_assoc, List.cons_append]

end Text

/-! ## Reading the text -/

/-- The rows of a manifest as a build makes them. -/
structure Clean (m : PackManifest) : Prop where
  mods : ∀ c ∈ m.mods.map ModEntry.content, IsMod c
  assets : ∀ c ∈ m.assets.map AssetEntry.content, IsAsset c
  nodup : ((m.mods.map ModEntry.content).map Prod.fst).Nodup

/-- The filenames hold nothing that begins a line of a mod. -/
def LineNames (m : PackManifest) : Prop := ∀ e ∈ m.mods, LineName e.filename

instance (m : PackManifest) : Decidable (LineNames m) :=
  inferInstanceAs (Decidable (∀ e ∈ m.mods, LineName e.filename))

/-- Rows of mods as they stand in a text. -/
structure Rows (l : List ModContent) : Prop where
  mod : ∀ c ∈ l, IsMod c
  name : ∀ c ∈ l, LineName c.1
  nodup : (l.map Prod.fst).Nodup
  sorted : (l.map modLine).Pairwise (· ≤ ·)

/-- The text of a target is that of another one, with the lines of some mods behind it. -/
def Continues (s t : Target) : Prop :=
  ∃ l, Rows l ∧ t.text = s.text ++ blockText modSep (l.map modBody)

section Read

variable {m n : PackManifest}

theorem sortedMods_perm (m : PackManifest) :
    (sortedMods m).Perm (m.mods.map ModEntry.content) := List.perm_insertionSort _ _

theorem sortedAssets_perm (m : PackManifest) :
    (sortedAssets m).Perm (m.assets.map AssetEntry.content) := List.perm_insertionSort _ _

/-- The rows of a manifest are such. -/
theorem rows_sortedMods (hm : Clean m) (hname : LineNames m) : Rows (sortedMods m) where
  mod c hc := hm.mods c ((sortedMods_perm m).mem_iff.1 hc)
  name c hc := by
    obtain ⟨e, he, rfl⟩ := List.mem_map.1 ((sortedMods_perm m).mem_iff.1 hc)
    exact hname e he
  nodup := (((sortedMods_perm m).map Prod.fst).nodup_iff).2 hm.nodup
  sorted := sorted_insertionSort modLine _

theorem Rows.left {l l' : List ModContent} (h : Rows (l ++ l')) : Rows l where
  mod c hc := h.mod c (List.mem_append_left _ hc)
  name c hc := h.name c (List.mem_append_left _ hc)
  nodup := h.nodup.sublist ((List.sublist_append_left l l').map _)
  sorted := h.sorted.sublist ((List.sublist_append_left l l').map _)

theorem Rows.block {l : List ModContent} (h : Rows l) : ∀ b ∈ l.map modBody, Block modSep b := by
  intro b hb
  obtain ⟨c, hc, rfl⟩ := List.mem_map.1 hb
  exact block_modBody (h.mod c hc) (h.name c hc)

/-- Rows that have the same lines, if a line tells the row. -/
theorem eq_of_map_eq {α β : Type} {f : α → β} {l l' : List α}
    (hf : ∀ a ∈ l, ∀ b ∈ l', f a = f b → a = b) (h : l.map f = l'.map f) : l = l' := by
  induction l generalizing l' with
  | nil => exact (List.map_eq_nil_iff.1 h.symm).symm
  | cons a l ih =>
    obtain ⟨b, l', rfl, hb, hl⟩ := List.map_eq_cons_iff.1 h.symm
    rw [hf a List.mem_cons_self b List.mem_cons_self hb.symm, ih (fun x hx y hy =>
      hf x (List.mem_cons_of_mem _ hx) y (List.mem_cons_of_mem _ hy)) hl.symm]

/-- The line of the Java version. -/
theorem javaLine_inj {a b : UInt32}
    (h : ("java\t" ++ toString a).toList = ("java\t" ++ toString b).toList) : a = b := by
  rw [String.toList_append, String.toList_append, List.append_cancel_left_eq,
    String.toList_inj] at h
  exact UInt32.toNat_inj.1 (eq_of_repr h)

theorem not_mem_javaLine (a : UInt32) : '\n' ∉ ("java\t" ++ toString a).toList := by
  intro hm
  rw [String.toList_append, List.mem_append] at hm
  rcases hm with hm | hm
  · exact absurd hm (by decide)
  · have hdigit : ('\n').isDigit = true :=
      isDigit_of_mem_toDigits (toList_toString a.toNat ▸ hm)
    exact absurd hdigit (by decide)

/-- The text is read back to the assets, the Java version, and the rest. -/
theorem read_contentText (hm : Clean m) (hn : Clean n) (h : contentText m = contentText n) :
    sortedAssets m = sortedAssets n ∧ m.javaMajor = n.javaMajor ∧
      (target m).text ++ blockText modSep ((sortedMods m).map modBody) =
        (target n).text ++ blockText modSep ((sortedMods n).map modBody) := by
  have hasset : ∀ {k : PackManifest}, Clean k → ∀ c ∈ sortedAssets k, IsAsset c :=
    fun hk c hc => hk.assets c ((sortedAssets_perm _).mem_iff.1 hc)
  have hline : ∀ {k : PackManifest}, Clean k →
      ∀ a ∈ (sortedAssets k).map fun c => (assetLine c).toList, '\n' ∉ a := by
    intro k hk a ha
    obtain ⟨c, hc, rfl⟩ := List.mem_map.1 ha
    rw [toList_assetLine, List.mem_append]
    exact not_or.2 ⟨by decide, not_mem_assetBody (hasset hk c hc)⟩
  have hjava : ∀ (k : PackManifest) (a : UInt32),
      ("java\t" ++ toString a).toList ∉ (sortedAssets k).map fun c => (assetLine c).toList := by
    intro k a ha
    obtain ⟨c, -, hc⟩ := List.mem_map.1 ha
    rw [toList_assetLine, String.toList_append] at hc
    exact absurd (List.cons.inj hc).1 (by decide)
  have hlines : ∀ k : PackManifest, ((sortedAssets k).flatMap fun c => (assetLine c).toList ++
      ['\n']) = ((sortedAssets k).map fun c => (assetLine c).toList).flatMap fun a => a ++ ['\n'] :=
    fun k => by rw [List.flatMap_map]
  rw [← String.toList_inj, toList_contentText, toList_contentText, hlines, hlines,
    List.append_assoc, List.append_assoc] at h
  obtain ⟨hassets, hj, hrest⟩ := lines_inj (hline hm) (hline hn) (not_mem_javaLine _)
    (not_mem_javaLine _) (hjava n _) (hjava m _) h
  refine ⟨eq_of_map_eq (fun c hc d hd hcd => ?_) hassets, javaLine_inj hj, hrest⟩
  rw [toList_assetLine, toList_assetLine, List.append_cancel_left_eq] at hcd
  exact assetBody_inj (hasset hm c hc) (hasset hn d hd) hcd

/-- Rows of mods are told by their text. -/
theorem Rows.inj {l l' : List ModContent} (h : Rows l) (h' : Rows l')
    (he : blockText modSep (l.map modBody) = blockText modSep (l'.map modBody)) : l = l' := by
  have hbodies := blockText_inj (List.cons_ne_nil _ _) h.block h'.block he
  exact eq_of_map_eq (fun c hc d hd => modBody_inj (h.mod c hc) (h'.mod d hd)) hbodies

/-- Two texts with lines of mods behind them: one of them continues the other. -/
theorem continues_of_text {s t : Target} {l l' : List ModContent} (h : Rows l) (h' : Rows l')
    (he : s.text ++ blockText modSep (l.map modBody) =
      t.text ++ blockText modSep (l'.map modBody)) : Continues s t ∨ Continues t s := by
  -- What the one text has before the lines that both have is lines of mods.
  have hcut : ∀ {l l' : List ModContent} {N : List Char}, Rows l →
      blockText modSep (l.map modBody) = N ++ blockText modSep (l'.map modBody) →
        ∃ k, Rows k ∧ N = blockText modSep (k.map modBody) := by
    intro l l' N hl hN
    obtain ⟨b, b', hb, rfl, -⟩ :=
      exists_of_blockText_eq (by decide) hl.block hN (blockText_eq_nil_or _ _)
    obtain ⟨k, k', rfl, rfl, -⟩ := List.map_eq_append_iff.1 hb
    exact ⟨k, hl.left, rfl⟩
  rcases List.append_eq_append_iff.1 he with ⟨N, ht, hN⟩ | ⟨N, hs, hN⟩
  · obtain ⟨k, hk, rfl⟩ := hcut h hN
    exact .inl ⟨k, hk, ht⟩
  · obtain ⟨k, hk, rfl⟩ := hcut h' hN
    exact .inr ⟨k, hk, hs⟩

/-- The content is read back from the text, if what the builds are for can be. -/
theorem sameContent_of_text (hm : Clean m) (hn : Clean n) (hmn : LineNames m) (hnn : LineNames n)
    (ht : target m = target n ∨ ¬ Continues (target m) (target n) ∧
      ¬ Continues (target n) (target m)) (h : contentText m = contentText n) :
    SameContent m n := by
  obtain ⟨hassets, hjava, hrest⟩ := read_contentText hm hn h
  have htarget : target m = target n := ht.resolve_right fun hno =>
    (continues_of_text (rows_sortedMods hm hmn) (rows_sortedMods hn hnn) hrest).elim hno.1 hno.2
  rw [htarget, List.append_cancel_left_eq] at hrest
  have hmods := (rows_sortedMods hm hmn).inj (rows_sortedMods hn hnn) hrest
  refine ⟨congrArg Target.minecraftVersion htarget, congrArg Target.loader htarget, hjava,
    ?_, ?_⟩
  · exact (sortedMods_perm m).symm.trans (hmods ▸ sortedMods_perm n)
  · exact (sortedAssets_perm m).symm.trans (hassets ▸ sortedAssets_perm n)

end Read

/-! ## What a build produces -/

/-- The digests that others give are hexadecimal, and so are those of files. -/
structure Hashes (X : Upstream) : Prop where
  modrinth : ∀ p v files, X.modrinth p v = .ok files → ∀ f ∈ files, isHex f.sha1 = true
  registry : ∀ v sha1 size, X.registry v = some (sha1, size) → isHex sha1 = true
  digest : ∀ bytes, isHex (X.sha1Hex bytes) = true

/-- A manifest that a build makes of some config that can be stored. -/
def Produced (sha1Hex : List UInt8 → String) (m : PackManifest) : Prop :=
  ∃ X debug mirrorBase existing classifications requested cfg built, X.sha1Hex = sha1Hex ∧
    Hashes X ∧ cfg.duplicateDeclaration = none ∧
      buildManifest X debug mirrorBase existing classifications requested cfg = .ok built ∧
      built.manifest = m

section Produced

variable {X : Upstream} {debug : String → String} {mirrorBase : String}

theorem mem_of_primaryFile {files : List VersionFile} {f : VersionFile}
    (h : primaryFile files = some f) : f ∈ files := by
  rcases Option.or_eq_some_iff.1 h with hfind | ⟨-, hhead⟩
  · exact List.mem_of_find?_eq_some hfind
  · exact List.mem_of_mem_head? hhead

/-- The digest of a resolved mod. -/
theorem isHex_of_resolveModSource (hX : Hashes X) {d : DeclaredMod} {sha1 : String}
    {size : UInt64} {source : Source} {fellBack : Bool}
    (h : resolveModSource X mirrorBase d = .ok (sha1, size, source, fellBack)) :
    isHex sha1 = true := by
  rw [resolveModSource.eq_def] at h
  rcases hs : d.source with ⟨projectId, versionId⟩ | sha1' | relPath <;> simp only [hs] at h
  · rcases hm : X.modrinth projectId versionId with e | files <;> simp only [hm] at h
    · rcases hr : X.registry versionId with _ | ⟨known, size'⟩ <;> simp only [hr] at h
      · cases h
      · obtain ⟨rfl, -⟩ := Prod.mk.inj (Except.ok.inj h)
        exact hX.registry _ _ _ hr
    · rcases hf : primaryFile files with _ | f <;> simp only [hf] at h
      · cases h
      · obtain ⟨rfl, -⟩ := Prod.mk.inj (Except.ok.inj h)
        exact hX.modrinth _ _ _ hm f (mem_of_primaryFile hf)
  · simp only [bind_eq_ok, refuseIf_eq_ok, not_not] at h
    obtain ⟨_, hsha1, _, -, h⟩ := h
    obtain ⟨rfl, -⟩ := Prod.mk.inj (Except.ok.inj h)
    exact (of_decide_eq_true hsha1).1
  · cases h

theorem isHex_of_resolveAssetSource (hX : Hashes X) {packId : String} {d : DeclaredAsset}
    {sha1 : String} {size : UInt64} {source : Source}
    (h : resolveAssetSource X mirrorBase packId d = .ok (sha1, size, source)) :
    isHex sha1 = true := by
  rw [resolveAssetSource.eq_def] at h
  rcases hs : d.source with ⟨projectId, versionId⟩ | sha1' | relPath <;> simp only [hs] at h
  · simp only [bind_eq_ok] at h
    obtain ⟨files, hm, h⟩ := h
    rcases hf : primaryFile files with _ | f <;> simp only [hf] at h
    · cases h
    · obtain ⟨rfl, -⟩ := Prod.mk.inj (Except.ok.inj h)
      exact hX.modrinth _ _ _ (mapError_eq_ok.1 hm) f (mem_of_primaryFile hf)
  · cases h
  · simp only [bind_eq_ok] at h
    obtain ⟨_, -, bytes, -, h⟩ := h
    obtain ⟨rfl, -⟩ := Prod.mk.inj (Except.ok.inj h)
    exact hX.digest bytes

/-- The rows of what a build produces. -/
theorem Produced.clean {sha1Hex : List UInt8 → String} {m : PackManifest}
    (h : Produced sha1Hex m) : Clean m := by
  obtain ⟨X, debug, mirrorBase, existing, classifications, requested, cfg, built, -, hX, hdup,
    hbuild, rfl⟩ := h
  obtain ⟨packVersion, mods, assets, -, hmods, hassets, hassemble⟩ := buildManifest_eq_ok.1 hbuild
  obtain ⟨derived, hderived, rfl⟩ := assemble_eq_ok.1 hassemble
  have hnames : mods.map (fun p => p.1.filename) = cfg.mods.map fun d => d.filename :=
    (map_eq_of_forall₂ (hmods.imp fun _ _ hp => (filename_of_resolveMod hp).symm)).symm
  have hsorted : ((sortMods (mods.map Prod.fst)).map fun e => e.filename).Nodup := by
    have hperm := (List.perm_insertionSort (fun a b : ModEntry => a.filename ≤ b.filename)
      (mods.map Prod.fst)).map fun e => e.filename
    rw [List.map_map] at hperm
    refine hperm.nodup_iff.2 ?_
    exact hnames ▸ (PackConfig.duplicateDeclaration_eq_none.1 hdup).1.2
  have hmod : ∀ e ∈ sortMods (mods.map Prod.fst), IsMod e.content := by
    intro e he
    rw [sortMods, List.mem_insertionSort] at he
    obtain ⟨p, hp, rfl⟩ := List.mem_map.1 he
    obtain ⟨d, hd⟩ := exists_of_mem_right hmods hp
    obtain ⟨hsafe, sha1, size, source, fellBack, hsource, rfl⟩ := resolveMod_eq_ok.1 hd
    exact ⟨hsafe, isHex_of_resolveModSource hX hsource⟩
  obtain hmap := deriveRequired_eq_map hsorted hderived
  refine ⟨fun c hc => ?_, fun c hc => ?_, ?_⟩
  · obtain ⟨o, ho, rfl⟩ := List.mem_map.1 hc
    rw [hmap, List.map_map] at ho
    obtain ⟨e, he, rfl⟩ := List.mem_map.1 ho
    have hopt : (optOut classifications e).sha1 = e.sha1 := by rw [optOut_eq]
    refine ⟨?_, ?_⟩
    · show isSafeFilename (present classifications _ _).filename = true
      rw [filename_present, filename_optOut]
      exact (hmod e he).filename
    · show isHex (present classifications _ _).sha1 = true
      rw [sha1_present, hopt]
      exact (hmod e he).sha1
  · obtain ⟨a, ha, rfl⟩ := List.mem_map.1 hc
    rw [sortAssets, List.mem_insertionSort] at ha
    obtain ⟨d, hd⟩ := exists_of_mem_right hassets ha
    obtain ⟨hsafe, sha1, size, source, hsource, rfl⟩ := resolveAsset_eq_ok.1 hd
    exact ⟨hsafe, isHex_of_resolveAssetSource hX hsource⟩
  · have hkept : (derived.map ModEntry.content).map Prod.fst =
        (sortMods (mods.map Prod.fst)).map fun e => e.filename := by
      rw [hmap, List.map_map, List.map_map, List.map_map]
      refine List.map_congr_left fun e _ => ?_
      show (present classifications _ _).filename = e.filename
      rw [filename_present, filename_optOut]
    exact hkept ▸ hsorted

end Produced

/-! ## What can be produced -/

section Producing

/-- An upstream at which the file of a version has the digest that the version is named by. -/
def namedUpstream (sha1Hex : List UInt8 → String) : Upstream where
  storage := ""
  modrinth _ versionId := if isHex versionId then .ok [⟨versionId, 0, true⟩] else .error ""
  registry _ := none
  cacheJar _ := .error ""
  staticFile _ _ := .error ""
  sha1Hex

/-- A row of a config from which a build makes a row, with its display block. -/
def declared (display : Option Display) (c : ModContent) : DeclaredMod where
  filename := c.1
  defaultEnabled := c.2.2.2
  source := .modrinth c.1 c.2.1
  display
  slug := none
  pulled := false

/-- What is resolved of such a row. -/
def resolved (display : Option Display) (c : ModContent) : ModEntry where
  filename := c.1
  sha1 := c.2.1
  sizeBytes := 0
  required := false
  defaultEnabled := c.2.2.2
  source := .modrinth c.1 c.2.1
  display
  slug := none

/-- A display block that names what a mod depends on. -/
def needing (l : List ModContent) : Display :=
  { Display.default with
    requires := (l.filter fun c => c.2.2.1).map fun c => ⟨c.1, none, false⟩ }

/-- A config of some mods and one that depends on those of them that are to be required. -/
def configOf (t : Target) (z : ModContent) (l : List ModContent) : PackConfig :=
  { PackConfig.empty "pack" with
    minecraftVersion := t.minecraftVersion
    loader := t.loader
    javaMajor := t.javaMajor
    mods := declared (some (needing l)) z :: l.map (declared none) }

variable {sha1Hex : List UInt8 → String} {debug : String → String} {mirrorBase : String}
  {z : ModContent} {l : List ModContent}

theorem resolveMod_declared {c : ModContent} (hc : IsMod c) (display : Option Display) :
    resolveMod (namedUpstream sha1Hex) debug mirrorBase (declared display c) =
      .ok (resolved display c, false) := by
  refine resolveMod_eq_ok.2 ⟨hc.filename, c.2.1, 0, .modrinth c.1 c.2.1, false, ?_, rfl⟩
  simp only [resolveModSource, declared, namedUpstream, hc.sha1, if_true]
  rfl

theorem hardRequires_needing {filename : String} :
    (resolved (some (needing l)) z).HardRequires filename ↔
      ∃ c ∈ l, c.2.2.1 = true ∧ c.1 = filename := by
  constructor
  · rintro ⟨d, hd, r, hr, -, rfl⟩
    obtain rfl : needing l = d := Option.some.inj hd
    obtain ⟨c, hc, rfl⟩ := List.mem_map.1 hr
    exact ⟨c, (List.mem_filter.1 hc).1, (List.mem_filter.1 hc).2, rfl⟩
  · rintro ⟨c, hc, hreq, rfl⟩
    exact ⟨needing l, rfl, _, List.mem_map_of_mem (List.mem_filter.2 ⟨hc, hreq⟩), rfl, rfl⟩

/-- With nothing classified, what the one mod depends on is locked. -/
theorem locked_iff {mods : List ModEntry} (hz : z.2.2.2 = true)
    (hmods : mods.Perm (resolved (some (needing l)) z :: l.map (resolved none))) {m : ModEntry} :
    Locked (fun _ => none) mods m ↔ m ∈ mods ∧ ∃ c ∈ l, c.2.2.1 = true ∧ c.1 = m.filename := by
  have hneeds : ∀ {k n : ModEntry}, k ∈ mods → k.HardRequires n.filename →
      ∃ c ∈ l, c.2.2.1 = true ∧ c.1 = n.filename := by
    intro k n hk hr
    rcases List.mem_cons.1 (hmods.mem_iff.1 hk) with rfl | hk
    · exact hardRequires_needing.1 hr
    · obtain ⟨c, -, rfl⟩ := List.mem_map.1 hk
      obtain ⟨d, hd, -⟩ := hr
      exact absurd hd.symm (Option.some_ne_none d)
  constructor
  · intro h
    refine ⟨h.mem, ?_⟩
    induction h with
    | seed _ hs =>
      rw [seed, mustMatch, Option.any_none, Bool.and_false] at hs
      exact absurd hs Bool.false_ne_true
    | enabled hk _ _ hr _ => exact hneeds hk hr
    | step hk _ hr _ _ => exact hneeds hk.mem hr
  · rintro ⟨hm, hc⟩
    exact .enabled (hmods.mem_iff.2 List.mem_cons_self) hz hm (hardRequires_needing.2 hc) rfl

theorem hashes_namedUpstream (hsha1 : ∀ bytes, isHex (sha1Hex bytes) = true) :
    Hashes (namedUpstream sha1Hex) where
  modrinth p v files h f hf := by
    simp only [namedUpstream] at h
    split_ifs at h with hv
    obtain rfl := Except.ok.inj h
    rw [List.mem_singleton.1 hf]
    exact hv
  registry v sha1 size h := absurd h nofun
  digest := hsha1

theorem distinct_configOf {t : Target} (hnodup : ((z :: l).map Prod.fst).Nodup) :
    (configOf t z l).duplicateDeclaration = none := by
  refine PackConfig.duplicateDeclaration_eq_none.2 ⟨⟨?_, ?_⟩, List.nodup_nil⟩
  · have hidentity : (configOf t z l).mods.map (fun d => d.source.identity) =
        ((z :: l).map Prod.fst).map fun f => "modrinth project " ++ f := by
      simp only [configOf, List.map_cons, List.map_map]
      rfl
    rw [hidentity]
    exact hnodup.map fun _ _ h => (String.append_right_inj _).1 h
  · have hname : (configOf t z l).mods.map (fun d => d.filename) = (z :: l).map Prod.fst := by
      simp only [configOf, List.map_cons, List.map_map]
      rfl
    exact hname ▸ hnodup

/-- What is derived of the rows has the flags that they are to have. -/
theorem content_derived {mods out : List ModEntry} (hnodup : ((z :: l).map Prod.fst).Nodup)
    (hflag : z.2.2.1 = false) (hon : z.2.2.2 = true)
    (hmods : mods.Perm (resolved (some (needing l)) z :: l.map (resolved none)))
    (hout : deriveRequired (fun _ => none) mods = .ok out) :
    (out.map ModEntry.content).Perm (z :: l) := by
  have hnames : (mods.map fun e => e.filename).Nodup := by
    refine ((hmods.map _).nodup_iff).2 ?_
    rw [List.map_cons, List.map_map]
    exact hnodup
  have hopt : mods.map (optOut fun _ => none) = mods :=
    (List.map_congr_left fun e _ => if_neg nofun).trans (List.map_id _)
  have hcontent : out.map ModEntry.content = mods.map fun e =>
      (e.filename, e.sha1, requiredAmong (fun _ => none) mods e, e.defaultEnabled) := by
    rw [deriveRequired_eq_map hnames hout, hopt, List.map_map]
    refine List.map_congr_left fun e _ => ?_
    rw [Function.comp_apply, ModEntry.content, filename_present, sha1_present, required_present,
      defaultEnabled_present]
  have hrequired : ∀ e ∈ mods, (requiredAmong (fun _ => none) mods e = true ↔
      ∃ c ∈ l, c.2.2.1 = true ∧ c.1 = e.filename) := by
    intro e he
    rw [requiredAmong_iff, locked_iff hon hmods]
    exact ⟨fun h => h.1.2, fun h => ⟨⟨he, h⟩, rfl⟩⟩
  obtain ⟨hzl, hl⟩ := List.nodup_cons.1 hnodup
  rw [hcontent]
  refine (hmods.map _).trans (List.Perm.of_eq ?_)
  rw [List.map_cons, List.map_map]
  refine congrArg₂ _ ?_ ((List.map_congr_left fun c hc => ?_).trans (List.map_id _))
  · have hno : requiredAmong (fun _ => none) mods (resolved (some (needing l)) z) = false := by
      refine Bool.eq_false_iff.2 fun h => ?_
      obtain ⟨c, hc, -, hcz⟩ := (hrequired _ (hmods.mem_iff.2 List.mem_cons_self)).1 h
      exact hzl (List.mem_map.2 ⟨c, hc, hcz⟩)
    rw [hno, ← hflag]
    rfl
  · have hmem : resolved none c ∈ mods :=
      hmods.mem_iff.2 (List.mem_cons_of_mem _ (List.mem_map_of_mem hc))
    have hsame : requiredAmong (fun _ => none) mods (resolved none c) = c.2.2.1 := by
      refine Bool.eq_iff_iff.2 ((hrequired _ hmem).trans ⟨?_, fun h => ⟨c, hc, h, rfl⟩⟩)
      rintro ⟨d, hd, hreq, hdc⟩
      obtain rfl := List.inj_on_of_nodup_map hl hd hc hdc
      exact hreq
    rw [Function.comp_apply, hsame]
    rfl

/-- Every list of rows can be produced, with a row of a mod that is on and not required. -/
theorem exists_produced (hsha1 : ∀ bytes, isHex (sha1Hex bytes) = true) (t : Target)
    (hmod : ∀ c ∈ z :: l, IsMod c) (hnodup : ((z :: l).map Prod.fst).Nodup)
    (hflag : z.2.2.1 = false) (hon : z.2.2.2 = true) :
    ∃ m, Produced sha1Hex m ∧ target m = t ∧ m.assets = [] ∧
      (m.mods.map ModEntry.content).Perm (z :: l) := by
  obtain ⟨v, hv⟩ : ∃ v, resolveVersion id [] none (configOf t z l) = .ok v :=
    resolveVersion_of_none rfl nofun
  have hperm : (sortMods (resolved (some (needing l)) z :: l.map (resolved none))).Perm
      (resolved (some (needing l)) z :: l.map (resolved none)) := List.perm_insertionSort _ _
  have hnames : ((sortMods (resolved (some (needing l)) z :: l.map (resolved none))).map
      fun e => e.filename).Nodup := by
    refine ((hperm.map _).nodup_iff).2 ?_
    rw [List.map_cons, List.map_map]
    exact hnodup
  obtain ⟨out, hout⟩ : ∃ out, deriveRequired (fun _ => none)
      (sortMods (resolved (some (needing l)) z :: l.map (resolved none))) = .ok out :=
    (deriveRequired_isOk hnames).2 fun _ _ hoff => absurd hoff.2.1 nofun
  have hresolved : List.Forall₂ (fun d p => resolveMod (namedUpstream sha1Hex) id "" d = .ok p)
      (configOf t z l).mods ((resolved (some (needing l)) z, false) ::
        l.map fun c => (resolved none c, false)) := by
    obtain ⟨hz, hl⟩ := List.forall_mem_cons.1 hmod
    refine .cons (resolveMod_declared hz _) ?_
    rw [List.forall₂_map_left_iff, List.forall₂_map_right_iff, List.forall₂_same]
    exact fun c hc => resolveMod_declared (hl c hc) _
  have hderived : deriveRequired (fun _ => none) (sortMods (((resolved (some (needing l)) z, false)
      :: l.map fun c => (resolved none c, false)).map Prod.fst)) = .ok out := by
    rw [List.map_cons, List.map_map]
    exact hout
  refine ⟨_, ⟨namedUpstream sha1Hex, id, "", [], fun _ => none, none, configOf t z l, _, rfl,
    hashes_namedUpstream hsha1, distinct_configOf hnodup, buildManifest_eq_ok.2
      ⟨v, _, [], hv, hresolved, .nil, assemble_eq_ok.2 ⟨out, hderived, rfl⟩⟩, rfl⟩, rfl, rfl, ?_⟩
  exact content_derived hnodup hflag hon hperm hout

/-- The last letter. -/
def lastLetter : Char := Char.ofNat 0x10FFFF

theorem le_lastLetter (c : Char) : c = lastLetter ∨ c < lastLetter := by
  have hc : c.val.toNat < 0x110000 := by
    rcases c.valid with h | ⟨-, h⟩
    · exact Nat.lt_trans h (by decide)
    · exact h
  have hlast : lastLetter.val.toNat = 0x10FFFF := by decide
  rcases Nat.lt_or_ge c.val.toNat lastLetter.val.toNat with hlt | hge
  · exact .inr (UInt32.lt_iff_toNat_lt.2 hlt)
  · exact .inl (Char.ext (UInt32.toNat_inj.1 (by omega)))

/-- A row whose line comes after those of the filenames of a length. -/
def lastRow (n : ℕ) : ModContent :=
  (String.ofList (List.replicate (n + 1) lastLetter), "0", false, true)

theorem toList_lastRow (n : ℕ) :
    (lastRow n).1.toList = List.replicate (n + 1) lastLetter := String.toList_ofList

theorem isMod_lastRow (n : ℕ) : IsMod (lastRow n) ∧ LineName (lastRow n).1 := by
  have hmem : ∀ c ∈ (lastRow n).1.toList, c = lastLetter := by
    intro c hc
    rw [toList_lastRow] at hc
    exact List.eq_of_mem_replicate hc
  have hno : ∀ c, c ≠ lastLetter → c ∉ (lastRow n).1.toList := fun c hc hm => hc (hmem c hm)
  have hzero : isHex "0" = true := by decide
  refine ⟨⟨decide_eq_true ⟨?_, ?_, hno _ (by decide), hno _ (by decide)⟩, hzero⟩, ?_⟩
  · intro he
    have hnil := toList_lastRow n
    rw [he] at hnil
    exact absurd hnil nofun
  · rw [toList_lastRow]
    exact fun he => absurd (Option.some.inj he) (by decide)
  · intro hp
    rcases List.mem_append.1 (hp.subset (List.mem_cons_self : '\n' ∈ modSep)) with hm | hm
    · exact hno _ (by decide) hm
    · exact absurd hm (by decide)

theorem modLine_le_lastRow {c : ModContent} {n : ℕ} (hc : c.1.toList.length ≤ n) :
    modLine c ≤ modLine (lastRow n) := by
  have hbody : ∀ (f x y : List Char) (n : ℕ), f.length ≤ n →
      f ++ '\t' :: x < List.replicate (n + 1) lastLetter ++ y := by
    intro f
    induction f with
    | nil => exact fun x y n _ => List.Lex.rel (by decide)
    | cons d f ih =>
      intro x y n hn
      obtain ⟨n, rfl⟩ : ∃ k, n = k + 1 := ⟨n - 1, by rw [List.length_cons] at hn; omega⟩
      rw [List.replicate_succ, List.cons_append, List.cons_append]
      rcases le_lastLetter d with rfl | hd
      · exact List.Lex.cons (ih x y n (by rw [List.length_cons] at hn; omega))
      · exact List.Lex.rel hd
  have hsame : ∀ (p : List Char) {x y : List Char}, x < y → p ++ x < p ++ y := by
    intro p
    induction p with
    | nil => exact fun h => h
    | cons d p ih => exact fun h => List.Lex.cons (ih h)
  obtain ⟨filename, sha1, required, enabled⟩ := c
  refine le_of_lt (String.lt_iff_toList_lt.2 ?_)
  rw [toList_modLine, toList_modLine]
  refine hsame _ ?_
  show filename.toList ++ '\t' :: _ < (lastRow n).1.toList ++ _
  rw [toList_lastRow]
  exact hbody _ _ _ n hc

/-- The rows of a manifest by their lines, if there is one order. -/
theorem sortedMods_eq {m : PackManifest} (hm : Clean m)
    (hperm : (m.mods.map ModEntry.content).Perm l) (hl : (l.map modLine).Pairwise (· ≤ ·)) :
    sortedMods m = l := by
  have hsame : (sortedMods m).Perm l := (sortedMods_perm m).trans hperm
  have hlines : (sortedMods m).map modLine = l.map modLine :=
    (hsame.map modLine).eq_of_pairwise (fun _ _ _ _ => String.le_antisymm)
      (sorted_insertionSort modLine _) hl
  refine eq_of_map_eq (fun c hc d hd hcd => ?_) hlines
  have hmod : ∀ c ∈ l, IsMod c := fun c hc => hm.mods c (hperm.mem_iff.2 hc)
  have hbody := congrArg String.toList hcd
  rw [toList_modLine, toList_modLine, List.append_cancel_left_eq] at hbody
  exact modBody_inj (hmod c (hsame.mem_iff.1 hc)) (hmod d hd) hbody

/-- If a target continues another one, two builds of them have one text. -/
theorem Continues.collide {s t : Target} (h : Continues s t)
    (hsha1 : ∀ bytes, isHex (sha1Hex bytes) = true) (hjava : s.javaMajor = t.javaMajor) :
    ∃ m n, Produced sha1Hex m ∧ Produced sha1Hex n ∧ target m = s ∧ target n = t ∧
      LineNames m ∧ LineNames n ∧ contentText m = contentText n := by
  obtain ⟨l, hl, htext⟩ := h
  obtain ⟨k, hk⟩ : ∃ k, ∀ c ∈ l, c.1.toList.length ≤ k :=
    ⟨(l.map fun c => c.1.toList.length).sum, fun c hc =>
      List.single_le_sum (fun _ _ => Nat.zero_le _) _ (List.mem_map_of_mem hc)⟩
  obtain ⟨hz, hzname⟩ := isMod_lastRow k
  have hnew : (lastRow k).1 ∉ l.map Prod.fst := by
    intro hm
    obtain ⟨c, hc, he⟩ := List.mem_map.1 hm
    have hlen := hk c hc
    rw [he, toList_lastRow, List.length_replicate] at hlen
    omega
  have hnames : ∀ {m : PackManifest} {r : List ModContent}, (∀ c ∈ r, LineName c.1) →
      (m.mods.map ModEntry.content).Perm r → LineNames m := fun hr hp e he =>
    hr e.content (hp.mem_iff.1 (List.mem_map_of_mem he))
  -- The one build has the lines that the other one's target ends with, and both have a last mod.
  obtain ⟨m, hm, hms, hma, hmp⟩ := exists_produced hsha1 s (z := lastRow k) (l := l)
    (List.forall_mem_cons.2 ⟨hz, hl.mod⟩) (List.nodup_cons.2 ⟨hnew, hl.nodup⟩) rfl rfl
  obtain ⟨n, hn, hnt, hna, hnp⟩ := exists_produced hsha1 t (z := lastRow k) (l := [])
    (List.forall_mem_singleton.2 hz) (List.nodup_singleton _) rfl rfl
  have hmp' : (m.mods.map ModEntry.content).Perm (l ++ [lastRow k]) :=
    hmp.trans (List.perm_append_singleton _ _).symm
  have hmsorted : sortedMods m = l ++ [lastRow k] := by
    refine sortedMods_eq hm.clean hmp' ?_
    rw [List.map_append]
    refine List.pairwise_append.2 ⟨hl.sorted, List.pairwise_singleton _ _, fun a ha b hb => ?_⟩
    obtain ⟨c, hc, rfl⟩ := List.mem_map.1 ha
    obtain rfl := List.mem_singleton.1 hb
    exact modLine_le_lastRow (hk c hc)
  have hnsorted : sortedMods n = [lastRow k] :=
    sortedMods_eq hn.clean hnp (List.pairwise_singleton _ _)
  have hassets : sortedAssets m = sortedAssets n := by rw [sortedAssets, sortedAssets, hma, hna]
  have hmn : m.javaMajor = n.javaMajor := by
    rw [← hms, ← hnt] at hjava
    exact hjava
  refine ⟨m, n, hm, hn, hms, hnt, hnames (List.forall_mem_cons.2 ⟨hzname, hl.name⟩) hmp,
    hnames (List.forall_mem_singleton.2 hzname) hnp, ?_⟩
  rw [← String.toList_inj, toList_contentText, toList_contentText, hassets, hmn, hms, hnt, htext,
    hmsorted, hnsorted, List.map_append, blockText_append]
  simp only [List.append_assoc, List.map_cons, List.map_nil]

end Producing

/-! ## What the fingerprint identifies -/

/-- The fingerprint identifies the content of what is built for two targets, with filenames that
    hold nothing that begins a line of a mod, exactly if the targets are one, or the Java versions
    are not, or neither target's text is the other's with lines of mods behind it. -/
theorem fingerprint_identifies_iff (sha1Hex : List UInt8 → String) (hinj : sha1Hex.Injective)
    (hsha1 : ∀ bytes, isHex (sha1Hex bytes) = true) (s t : Target) :
    (∀ m n, Produced sha1Hex m → Produced sha1Hex n → target m = s → target n = t →
        LineNames m → LineNames n → (contentFingerprint sha1Hex m = contentFingerprint sha1Hex n ↔
          SameContent m n)) ↔
      s = t ∨ s.javaMajor ≠ t.javaMajor ∨ (¬ Continues s t ∧ ¬ Continues t s) := by
  constructor
  · intro h
    by_contra hno
    obtain ⟨hst, hjava, hcontinues⟩ : s ≠ t ∧ s.javaMajor = t.javaMajor ∧
        (Continues s t ∨ Continues t s) := by
      push Not at hno
      exact ⟨hno.1, hno.2.1, or_iff_not_imp_left.2 hno.2.2⟩
    have hsame : ∀ {m n : PackManifest}, target m = s → target n = t → ¬ SameContent m n := by
      rintro m n rfl rfl hmn
      refine hst ?_
      rw [target, target, hmn.minecraft, hmn.loader, hmn.java]
    rcases hcontinues with hc | hc
    · obtain ⟨m, n, hm, hn, hms, hnt, hmn, hnn, htext⟩ := hc.collide hsha1 hjava
      exact hsame hms hnt ((h m n hm hn hms hnt hmn hnn).1
        ((contentFingerprint_eq_iff hinj).2 htext))
    · obtain ⟨n, m, hn, hm, hnt, hms, hnn, hmn, htext⟩ := hc.collide hsha1 hjava.symm
      exact hsame hms hnt ((h m n hm hn hms hnt hmn hnn).1
        ((contentFingerprint_eq_iff hinj).2 htext.symm))
  · rintro hcond m n hm hn rfl rfl hmn hnn
    rw [contentFingerprint_eq_iff hinj]
    refine ⟨fun htext => ?_, SameContent.contentText⟩
    have hjava := (read_contentText hm.clean hn.clean htext).2.1
    refine sameContent_of_text hm.clean hn.clean hmn hnn ?_ htext
    rcases hcond with hst | hne | hno
    · exact .inl hst
    · exact absurd hjava hne
    · exact .inr hno

/-! ## Plain targets -/

/-- What a build is for, without line breaks, and without a tab in the name of the loader. -/
structure Target.Plain (t : Target) : Prop where
  minecraft : '\n' ∉ t.minecraftVersion.toList
  name : '\t' ∉ t.loader.name.toList
  version : '\n' ∉ t.loader.version.toList

/-- A plain target continues no other. -/
theorem Continues.eq_of_plain {s t : Target} (h : Continues s t) (hs : s.Plain) (ht : t.Plain) :
    s.minecraftVersion = t.minecraftVersion ∧ s.loader = t.loader := by
  obtain ⟨l, -, htext⟩ := h
  rw [Target.text_eq, Target.text_eq, List.append_assoc, List.append_cancel_left_eq,
    List.append_assoc, List.cons_append, append_cons_inj ht.name hs.name, List.append_assoc,
    List.cons_append, append_cons_inj ht.version hs.version, List.append_assoc,
    List.append_cancel_left_eq] at htext
  obtain ⟨hname, hversion, hmc⟩ := htext
  have hnil : l = [] := by
    rcases l with _ | ⟨c, l⟩
    · rfl
    · refine absurd ?_ ht.minecraft
      rw [hmc, List.map_cons, blockText_cons]
      exact List.mem_append_right _ List.mem_cons_self
  rw [hnil, List.map_nil, blockText_nil, List.append_nil, String.toList_inj] at hmc
  refine ⟨hmc.symm, ?_⟩
  have hloader : ∀ {a b : LoaderSpec}, b.name = a.name → b.version = a.version → a = b := by
    rintro ⟨name, version⟩ ⟨_, _⟩ rfl rfl
    rfl
  exact hloader (String.toList_inj.1 hname) (String.toList_inj.1 hversion)

/-! ## Two loaders, and a line of a mod in a version -/

/-- A digest that tells bytes: they are written out behind a zero. -/
def digestOf (bytes : List UInt8) : String := "0" ++ hexOf bytes

theorem digestOf_injective : digestOf.Injective := fun _ _ h =>
  hexOf_injective ((String.append_right_inj _).1 h)

theorem isHex_digestOf (bytes : List UInt8) : isHex (digestOf bytes) = true := by
  have hdigits : (('0' :: hexDigits).all fun d =>
      d.isDigit ∨ ('a' ≤ d ∧ d ≤ 'f') ∨ ('A' ≤ d ∧ d ≤ 'F')) = true := by decide
  have htext : (digestOf bytes).toList = '0' :: (hexOf bytes).toList := String.toList_append
  refine decide_eq_true ⟨fun he => ?_, List.all_eq_true.2 fun d hd => ?_⟩
  · rw [he] at htext
    exact absurd htext nofun
  · rw [htext] at hd
    exact List.all_eq_true.1 hdigits d
      (List.mem_cons.2 ((List.mem_cons.1 hd).imp id (mem_hexOf bytes d)))

def forgeTarget (version : String) : Target where
  minecraftVersion := "1.20.1"
  loader := { name := "forge", version }
  javaMajor := 17

/-- The fingerprint identifies the content of builds for two versions of a loader. -/
theorem fingerprint_identifies_forge : digestOf.Injective ∧ ∀ m n, Produced digestOf m →
    Produced digestOf n → target m = forgeTarget "47.2.0" → target n = forgeTarget "47.3.0" →
      LineNames m → LineNames n → (contentFingerprint digestOf m = contentFingerprint digestOf n ↔
        SameContent m n) := by
  have h₂ : (forgeTarget "47.2.0").Plain := ⟨by decide, by decide, by decide⟩
  have h₃ : (forgeTarget "47.3.0").Plain := ⟨by decide, by decide, by decide⟩
  refine ⟨digestOf_injective, (fingerprint_identifies_iff digestOf digestOf_injective
    isHex_digestOf _ _).2 (.inr (.inr ⟨fun h => ?_, fun h => ?_⟩))⟩
  · exact absurd (h.eq_of_plain h₂ h₃).2 (by decide)
  · exact absurd (h.eq_of_plain h₃ h₂).2 (by decide)

def honestConfig : PackConfig := configOf (forgeTarget "47.3.0") ("a.jar", "0a", false, true) []

/-- A config whose version of the game has a line of a mod in it. -/
def forgedConfig : PackConfig :=
  { PackConfig.empty "pack" with
    minecraftVersion := "1.20.1\nmod\ta.jar\t0a\tfalse\ttrue"
    loader := { name := "forge", version := "47.3.0" }
    javaMajor := 17 }

def buildNamed (cfg : PackConfig) : Except String Built :=
  buildManifest (namedUpstream digestOf) id "" [] (fun _ => none) (some "1") cfg

/-- A build with a mod and one without have one fingerprint. -/
theorem not_fingerprint_identifies : ∃ a b, buildNamed honestConfig = .ok a ∧
    buildNamed forgedConfig = .ok b ∧ Produced digestOf a.manifest ∧ Produced digestOf b.manifest ∧
      a.fingerprint = b.fingerprint ∧ ¬ SameContent a.manifest b.manifest := by
  obtain ⟨a, ha, hrun⟩ := exists_ok (buildNamed honestConfig) (fun a =>
    (buildNamed forgedConfig).toOption.any fun b => a.fingerprint = b.fingerprint ∧
      a.manifest.mods.length = 1 ∧ b.manifest.mods = []) (by decide +kernel)
  obtain ⟨b, hb, hsame⟩ := exists_ok (buildNamed forgedConfig) _ hrun
  obtain ⟨hfp, hone, hnone⟩ := of_decide_eq_true hsame
  have hproduced : ∀ {cfg : PackConfig} {c : Built}, cfg.duplicateDeclaration = none →
      buildNamed cfg = .ok c → Produced digestOf c.manifest := fun hdup hc =>
    ⟨_, _, _, _, _, _, _, _, rfl, hashes_namedUpstream isHex_digestOf, hdup, hc, rfl⟩
  refine ⟨a, b, ha, hb, hproduced (by decide +kernel) ha, hproduced (by decide +kernel) hb, hfp,
    fun h => ?_⟩
  have hlength := h.mods.length_eq
  rw [List.length_map, List.length_map, hone, hnone] at hlength
  exact absurd hlength nofun

end Smrt.Fingerprint
