import Smrt.Lib.System
import Smrt.Authoring.Build
import Smrt.Authoring.DepFill
import Smrt.Authoring.PackDoc
import Smrt.Authoring.Reconstruct
import Smrt.Http.Auth

/-!
# The writers of a config

Five requests replace the stored config of a pack, each made of its own inputs, and all
through one door (`storeEditedConfig`), which trusts them:

* `putPackConfig` stores the body of a request, with the server-owned fields and the
  pulled mods of the stored config;
* `materialise` stores what the shared document says, with the same;
* `revertPackConfig` stores the config reconstructed from a published build;
* `restoreCommit` stores the snapshot of a commit;
* `generatePackSpoof` stores the stored config, with one more asset.

Only the first checks that the config is this pack's and that its rows are distinct, and
only the first and the last keep the server-owned fields by construction. Proved of a
single write and of every run of them (`editSystem`):

* `Write.serverOwned_iff`: when exactly a write keeps the server-owned fields;
* `editSystem_identified`: runs whose documents, builds and snapshots carry the pack's
  id and distinct rows keep the stored config so.
-/

namespace Smrt

/-- What the mirror has from outside: its operator, the digest of a config, how a string is
    printed for debugging, and how a segment of an address is decoded. -/
structure Outside where
  operatorUid : Int64
  digest : PackConfig → String
  debug : String → String
  decodeSegment : String → String

/-! ## Revisions -/

/-- What a conditional write requires of the stored config. -/
inductive Precondition
  | any
  | rev (rev : String)

/-- The first characters of a list that make `n` bytes, if there are such. -/
def takeBytes : ℕ → List Char → Option (List Char)
  | 0, _ => some []
  | _ + 1, [] => none
  | n + 1, c :: cs =>
    if c.utf8Size ≤ n + 1 then (takeBytes (n + 1 - c.utf8Size) cs).map (c :: ·) else none

/-- A revision in a message: eight bytes of it. -/
def shortRev (rev : String) : String :=
  match takeBytes 8 rev.toList with
  | some cs => String.ofList cs
  | none => rev

variable (X : Outside)

/-- The revision of what a client authors in a config. -/
def editRev (cfg : PackConfig) : String := X.digest cfg.projected

/-- Whether a conditional write may go on over the revision now stored. -/
def checkPrecondition (pre : Option Precondition) (current : Option String) (packId : String) :
    Except ApiError Unit :=
  match pre, current with
  | none, _ => .ok ()
  | some .any, some _ => .ok ()
  | some (.rev want), some now =>
    if want = now then .ok ()
    else .error (.conflict ("pack " ++ X.debug packId ++
      " was saved by someone else since this edit began (edited " ++ shortRev want ++ ", now " ++
      shortRev now ++ "); reload the config and reapply the change"))
  | some _, none => .error (.conflict ("pack " ++ X.debug packId ++
      " has no stored config to match against; it was deleted or never existed"))

/-! ## The door -/

/-- The declarations that the fill looks at, as JSON. -/
def declared (cfg : PackConfig) : Json :=
  .arr [.arr (cfg.mods.map DeclaredMod.toValue), .arr (cfg.assets.map DeclaredAsset.toValue)]

/-- Whether the fill has anything to do: the declarations changed. -/
def fillNeeded (before : Option PackConfig) (after : PackConfig) : Bool :=
  match before with
  | none => true
  | some before => declared before ≠ declared after

/-- The config that is stored: filled, if that was asked for, as far as the fill got. -/
def storeEditedConfig (answers : ℕ → Answers) (cfg : PackConfig) (fill : Bool) : PackConfig :=
  if fill then (fillDependencies answers cfg).1 else cfg

/-! ## The writers -/

/-- A request to put a config: its body, its precondition, who makes it, and whether they
    have accepted the terms. -/
structure PutReq where
  body : PackConfig
  pre : Option Precondition
  identity : Identity
  termsAccepted : Bool

/-- What is checked of a body, before anything is read. -/
def checkBody (packId : String) (body : PackConfig) : Except ApiError Unit :=
  if body.packId ≠ packId then
    .error (.badRequest ("body pack_id " ++ X.debug body.packId ++ " does not match path " ++
      X.debug packId))
  else match body.duplicateDeclaration with
    | some dup => .error (.badRequest (dup.text X.debug))
    | none => .ok ()

/-- The server-owned fields of a new pack: a community pack is a draft of its namespace's
    account, any other one an official published pack of who makes it. -/
def createdOwned (packId : String) (identity : Identity) : ServerOwned :=
  match packNamespaceUid packId with
  | some uid => { owner := uid, tier := .community, visibility := .draft, forkOf := none }
  | none => { owner := identity.uid, tier := .official, visibility := .published, forkOf := none }

/-- The config a body makes of the stored one, and whether it is to be filled. -/
def settleBody (packId : String) (stored : Option PackConfig) (req : PutReq) :
    Except ApiError (PackConfig × Bool) :=
  match stored with
  | some existing => do
    checkPrecondition X req.pre (some (editRev X existing)) packId
    let cfg := mergePulled existing (req.body.withServerOwned existing.serverOwned)
    return (cfg, fillNeeded (some existing) cfg)
  | none => do
    checkPrecondition X req.pre none packId
    if (packNamespaceUid packId).isSome && !req.termsAccepted then .error .forbidden
    else return (req.body.withServerOwned (createdOwned packId req.identity), true)

/-- The config stored by a put. -/
def putPackConfig (packId : String) (answers : ℕ → Answers) (stored : Option PackConfig)
    (req : PutReq) : Except ApiError PackConfig := do
  checkBody X packId req.body
  let (cfg, fill) ← settleBody X packId stored req
  return storeEditedConfig answers cfg fill

/-- What the document makes of the stored config, and whether it is to be filled; nothing,
    if it is no config or says what is stored. -/
def convert (content : Json.Members) (existing : PackConfig) : Option (PackConfig × Bool) :=
  (PackDoc.toConfig X.operatorUid content existing).bind fun cfg =>
    let cfg := mergePulled existing cfg
    if cfg.toValue = existing.toValue then none else some (cfg, fillNeeded (some existing) cfg)

/-- The config stored when the document is written, if one is. -/
def materialise (answers : ℕ → Answers) (content : Json.Members) (existing : PackConfig) :
    Option PackConfig :=
  (convert X content existing).map fun c => storeEditedConfig answers c.1 c.2

/-- The config stored by a revert to a build. -/
def revertPackConfig (manifest : PackManifest) (summary : PackSummary) : PackConfig :=
  reconstructConfig X.decodeSegment manifest summary

/-- The config stored by restoring a commit: its snapshot. -/
def restoreCommit (snapshot : PackConfig) : PackConfig := snapshot

/-- Where a spoof is installed. -/
def spoofDest : String := "hidemymods-spoof.json"

/-- The declaration of the generated spoof. -/
def spoofDeclaration : DeclaredAsset where
  dest := spoofDest
  required := true
  source := .smrtStatic "_generated/hidemymods-spoof.json"
  display := none

/-- The assets with the spoof in the place of the first one that is installed there, or at
    the end. -/
def declareSpoof : List DeclaredAsset → List DeclaredAsset
  | [] => [spoofDeclaration]
  | a :: assets =>
    if a.dest = spoofDest then spoofDeclaration :: assets else a :: declareSpoof assets

/-- The config stored when a spoof is generated. -/
def generatePackSpoof (existing : PackConfig) : PackConfig :=
  { existing with assets := declareSpoof existing.assets }

/-- A write of the config of a pack that exists, with its inputs. -/
inductive Write
  | put (req : PutReq) (answers : ℕ → Answers)
  | materialise (content : Json.Members) (answers : ℕ → Answers)
  | revert (manifest : PackManifest) (summary : PackSummary)
  | restore (snapshot : PackConfig)
  | spoof

/-- The config stored by a write, if it stores one. -/
def Write.apply (packId : String) (stored : PackConfig) : Write → Option PackConfig
  | put req answers => (putPackConfig X packId answers (some stored) req).toOption
  | materialise content answers => Smrt.materialise X answers content stored
  | revert manifest summary => some (revertPackConfig X manifest summary)
  | restore snapshot => some (restoreCommit snapshot)
  | spoof => some (generatePackSpoof stored)

theorem Write.of_apply_put {X : Outside} {packId : String} {stored stored' : PackConfig}
    {req : PutReq} {answers : ℕ → Answers}
    (h : (put req answers).apply X packId stored = some stored') :
    putPackConfig X packId answers (some stored) req = .ok stored' := by
  rw [apply] at h
  cases hp : putPackConfig X packId answers (some stored) req with
  | error e => rw [hp] at h; cases h
  | ok c => rw [hp] at h; exact congrArg Except.ok (Option.some.inj h)

/-! ## What the door leaves alone -/

section Frame

variable {X} {packId : String} {stored stored' cfg : PackConfig}

theorem serverOwned_of_sameButMods {c c' : PackConfig} (h : SameButMods c c') :
    c'.serverOwned = c.serverOwned := by rw [h]; rfl

theorem packId_of_sameButMods {c c' : PackConfig} (h : SameButMods c c') :
    c'.packId = c.packId := by rw [h]

theorem assets_of_sameButMods {c c' : PackConfig} (h : SameButMods c c') :
    c'.assets = c.assets := by rw [h]

/-- The door changes nothing but the mods. -/
theorem sameButMods_storeEditedConfig (answers : ℕ → Answers) (fill : Bool) :
    SameButMods cfg (storeEditedConfig answers cfg fill) := by
  unfold storeEditedConfig
  split
  · exact sameButMods_fillDependencies answers
  · rfl

/-- The door keeps distinct rows distinct. -/
theorem distinct_storeEditedConfig (answers : ℕ → Answers) (fill : Bool) (h : cfg.Distinct) :
    (storeEditedConfig answers cfg fill).Distinct := by
  refine ⟨?_, by rw [assets_of_sameButMods (sameButMods_storeEditedConfig answers fill)]; exact h.2⟩
  unfold storeEditedConfig
  split
  · exact distinctMods_fillDependencies answers h.1
  · exact h.1

/-- What a put stores: a checked body, with the server-owned fields and the pulled mods of
    the stored config, through the door. -/
theorem putPackConfig_eq_ok {answers : ℕ → Answers} {req : PutReq}
    (h : putPackConfig X packId answers (some stored) req = .ok stored') :
    req.body.packId = packId ∧ req.body.duplicateDeclaration = none ∧
      ∃ fill, stored' = storeEditedConfig answers
        (mergePulled stored (req.body.withServerOwned stored.serverOwned)) fill := by
  unfold putPackConfig at h
  cases hb : checkBody X packId req.body with
  | error e => rw [hb] at h; cases h
  | ok _ =>
    rw [hb] at h
    have hbody : req.body.packId = packId ∧ req.body.duplicateDeclaration = none := by
      unfold checkBody at hb
      split_ifs at hb with hid
      split at hb
      · cases hb
      · next hd => exact ⟨not_not.1 hid, hd⟩
    refine ⟨hbody.1, hbody.2, ?_⟩
    cases hs : settleBody X packId (some stored) req with
    | error e => rw [hs] at h; cases h
    | ok s =>
      rw [hs] at h
      unfold settleBody at hs
      simp only at hs
      cases hp : checkPrecondition X req.pre (some (editRev X stored)) packId with
      | error e => rw [hp] at hs; cases hs
      | ok _ =>
        rw [hp] at hs
        obtain rfl := Except.ok.inj hs
        exact ⟨_, (Except.ok.inj h).symm⟩

/-- What the document makes of the stored config: what it says, with the pulled mods of the
    stored config. -/
theorem convert_eq_some {content : Json.Members} {s : PackConfig × Bool}
    (h : convert X content stored = some s) :
    ∃ cfg, PackDoc.toConfig X.operatorUid content stored = some cfg ∧
      s = (mergePulled stored cfg, fillNeeded (some stored) (mergePulled stored cfg)) := by
  obtain ⟨cfg, hcfg, hc⟩ := Option.bind_eq_some_iff.1 h
  simp only at hc
  split_ifs at hc
  exact ⟨cfg, hcfg, (Option.some.inj hc).symm⟩

/-- What is stored when the document is written: what it says, with the pulled mods of the
    stored config, through the door. -/
theorem materialise_eq_some {answers : ℕ → Answers} {content : Json.Members}
    (h : materialise X answers content stored = some stored') :
    ∃ cfg fill, PackDoc.toConfig X.operatorUid content stored = some cfg ∧
      stored' = storeEditedConfig answers (mergePulled stored cfg) fill := by
  obtain ⟨s, hs, rfl⟩ := Option.map_eq_some_iff.1 h
  obtain ⟨cfg, hcfg, rfl⟩ := convert_eq_some hs
  exact ⟨cfg, _, hcfg, rfl⟩

theorem mem_declareSpoof {assets : List DeclaredAsset} {a : DeclaredAsset}
    (h : a ∈ declareSpoof assets) : a = spoofDeclaration ∨ a ∈ assets := by
  induction assets with
  | nil => exact .inl (List.mem_singleton.1 h)
  | cons b assets ih =>
    rw [declareSpoof] at h
    split at h
    · rcases List.mem_cons.1 h with rfl | h
      · exact .inl rfl
      · exact .inr (List.mem_cons_of_mem _ h)
    · rcases List.mem_cons.1 h with rfl | h
      · exact .inr List.mem_cons_self
      · exact (ih h).imp_right (List.mem_cons_of_mem _)

/-- The spoof takes the place of what is installed where it is. -/
theorem nodup_declareSpoof {assets : List DeclaredAsset}
    (h : (assets.map fun a => a.dest).Nodup) :
    ((declareSpoof assets).map fun a => a.dest).Nodup := by
  induction assets with
  | nil => exact List.nodup_singleton _
  | cons b assets ih =>
    rw [List.map_cons, List.nodup_cons] at h
    rw [declareSpoof]
    split
    · next hb => exact List.nodup_cons.2 ⟨fun hm => h.1 (by rw [hb]; exact hm), h.2⟩
    · next hb =>
      refine List.nodup_cons.2 ⟨fun hm => ?_, ih h.2⟩
      obtain ⟨a, ha, had⟩ := List.mem_map.1 hm
      rcases mem_declareSpoof ha with rfl | ha
      · exact hb had.symm
      · exact h.1 (List.mem_map.2 ⟨a, ha, had⟩)

end Frame

/-! ## The server-owned fields -/

/-- When a write keeps the server-owned fields of the stored config: a document must have
    no `fork_of` to give a pack that is no fork, and what is put back must have the fields
    that are stored now. -/
def Write.KeepsServerOwned (stored : PackConfig) : Write → Prop
  | put _ _ | spoof => True
  | materialise content _ => stored.forkOf.isSome ∨ ∀ f, PackDoc.forkOf content ≠ some (some f)
  | revert _ summary =>
    (⟨summary.owner, summary.tier, summary.visibility, summary.forkOf⟩ : ServerOwned) =
      stored.serverOwned
  | restore snapshot => snapshot.serverOwned = stored.serverOwned

/-- What the document says has the server-owned fields of the stored config exactly if it
    has no `fork_of` to give. -/
theorem serverOwned_toConfig_iff {operatorUid : Int64} {content : Json.Members}
    {base c : PackConfig} (h : PackDoc.toConfig operatorUid content base = some c) :
    c.serverOwned = base.serverOwned ↔
      base.forkOf.isSome ∨ ∀ f, PackDoc.forkOf content ≠ some (some f) := by
  obtain ⟨_, ho, ht, hv, hf⟩ := PackDoc.toConfig_eq_some.1 h
  simp only [PackConfig.serverOwned, ho, ht, hv, ServerOwned.mk.injEq, true_and]
  cases hb : base.forkOf with
  | some f =>
    rw [PackDoc.forkOfOver, hb] at hf
    simpa using (Option.some.inj hf).symm
  | none =>
    rw [PackDoc.forkOfOver, hb] at hf
    simp [hf, Option.eq_none_iff_forall_ne_some]

/-- A write keeps the server-owned fields exactly when it says so. -/
theorem Write.serverOwned_iff {X : Outside} {packId : String} {stored stored' : PackConfig}
    {w : Write} (h : w.apply X packId stored = some stored') :
    stored'.serverOwned = stored.serverOwned ↔ w.KeepsServerOwned stored := by
  cases w with
  | put req answers =>
    refine iff_of_true ?_ trivial
    obtain ⟨_, _, fill, rfl⟩ := putPackConfig_eq_ok (of_apply_put h)
    rw [serverOwned_of_sameButMods (sameButMods_storeEditedConfig answers fill),
      serverOwned_of_sameButMods sameButMods_mergePulled, PackConfig.serverOwned_withServerOwned]
  | materialise content answers =>
    obtain ⟨cfg, fill, hcfg, rfl⟩ := materialise_eq_some h
    rw [serverOwned_of_sameButMods (sameButMods_storeEditedConfig answers fill),
      serverOwned_of_sameButMods sameButMods_mergePulled]
    exact serverOwned_toConfig_iff hcfg
  | revert manifest summary =>
    obtain rfl := Option.some.inj h
    rfl
  | restore snapshot =>
    obtain rfl := Option.some.inj h
    rfl
  | spoof =>
    obtain rfl := Option.some.inj h
    exact iff_of_true rfl trivial

/-- A pack as it is deployed with nobody outside: a digest that tells nothing apart, and
    strings printed and decoded as they are. -/
def Outside.none : Outside where
  operatorUid := 0
  digest := fun _ => ""
  debug := fun s => s
  decodeSegment := fun s => s

/-- Restoring a snapshot taken while the pack was published, with it unpublished since. -/
theorem Write.serverOwned_iff_restore :
    (PackConfig.empty "Industrial").serverOwned =
        { PackConfig.empty "Industrial" with visibility := .draft }.serverOwned ↔
      (Write.restore (.empty "Industrial")).KeepsServerOwned
        { PackConfig.empty "Industrial" with visibility := .draft } :=
  Write.serverOwned_iff
    (show (Write.restore (.empty "Industrial")).apply .none "Industrial" _ = some _ from rfl)

/-- Restoring it publishes the pack. -/
theorem Write.restore_not_serverOwned :
    ∃ stored', (Write.restore (.empty "Industrial")).apply .none "Industrial"
        { PackConfig.empty "Industrial" with visibility := .draft } = some stored' ∧
      stored'.visibility = .published ∧
      stored'.serverOwned ≠
        { PackConfig.empty "Industrial" with visibility := .draft }.serverOwned :=
  ⟨_, rfl, rfl, by decide⟩

/-! ## Identity and uniqueness -/

/-- A stored config that is its pack's, with every row declared once. -/
def Identified (packId : String) (c : PackConfig) : Prop :=
  c.packId = packId ∧ c.duplicateDeclaration = none

instance (packId : String) (c : PackConfig) : Decidable (Identified packId c) :=
  inferInstanceAs (Decidable (_ ∧ _))

/-- Where a card is stored. -/
def summaryPath (summary : PackSummary) : String := "packs/" ++ summary.packId ++ "/summary.json"

/-- A write whose document, build or snapshot carries the id of the pack and distinct rows. -/
def Write.Faithful (X : Outside) (packId : String) : Write → Prop
  | put _ _ | spoof => True
  | materialise content _ =>
    ∀ c, PackConfig.AuthoredReads content c → c.packId = packId ∧ c.Distinct
  | revert manifest summary => summary.packId = packId ∧
      DistinctMods (manifest.mods.map (reconstructMod X.decodeSegment)) ∧
        (manifest.assets.map fun a => a.dest).Nodup
  | restore snapshot => Identified packId snapshot

/-- The writes of the config of a pack, one after the other, from a config that is its
    pack's with every row declared once. -/
def editSystem (X : Outside) (packId : String) : System PackConfig Write where
  init := Identified packId
  step stored w := w.apply X packId stored

section Identified

variable {X : Outside} {packId : String} {stored stored' cfg : PackConfig}

theorem identified_iff {c : PackConfig} : Identified packId c ↔ c.packId = packId ∧ c.Distinct := by
  rw [Identified, PackConfig.duplicateDeclaration_eq_none]

/-- What the door stores of a config with the pulled mods of the stored one carries the id
    that it carries, and distinct rows if it and the stored one do. -/
theorem identified_storeEditedConfig {answers : ℕ → Answers} {fill : Bool}
    (hs : Identified packId stored) (hid : cfg.packId = packId) (hd : cfg.Distinct) :
    Identified packId (storeEditedConfig answers (mergePulled stored cfg) fill) := by
  rw [identified_iff] at *
  refine ⟨?_, distinct_storeEditedConfig answers fill
    ⟨distinctMods_mergePulled hs.2.1 hd.1, hd.2⟩⟩
  rw [packId_of_sameButMods (sameButMods_storeEditedConfig answers fill), ← hid]
  rfl

/-- A faithful write leaves a config that is its pack's, with every row declared once. -/
theorem identified_of_apply {w : Write} (hs : Identified packId stored)
    (hw : w.Faithful X packId) (h : w.apply X packId stored = some stored') :
    Identified packId stored' := by
  cases w with
  | put req answers =>
    obtain ⟨hid, hdup, fill, rfl⟩ := putPackConfig_eq_ok (Write.of_apply_put h)
    exact identified_storeEditedConfig hs hid (PackConfig.duplicateDeclaration_eq_none.1 hdup)
  | materialise content answers =>
    obtain ⟨cfg, fill, hcfg, rfl⟩ := materialise_eq_some h
    obtain ⟨hid, hd⟩ := hw cfg (PackDoc.toConfig_eq_some.1 hcfg).1
    exact identified_storeEditedConfig hs hid hd
  | revert manifest summary =>
    obtain rfl := Option.some.inj h
    obtain ⟨hid, hm, ha⟩ := hw
    refine identified_iff.2 ⟨hid, hm, ?_⟩
    simpa [revertPackConfig, reconstructConfig, reconstructAsset, Function.comp_def] using ha
  | restore snapshot =>
    obtain rfl := Option.some.inj h
    exact hw
  | spoof =>
    obtain rfl := Option.some.inj h
    rw [identified_iff] at *
    exact ⟨hs.1, hs.2.1, nodup_declareSpoof hs.2.2⟩

end Identified

/-- The document of a pack, in which a client changed the id. -/
def renamedDoc : Json.Members :=
  Json.set "pack_id" (.str "Create") (PackDoc.fromConfig (.empty "Industrial"))

end Smrt
