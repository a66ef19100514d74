import Smrt.Authoring.Revert
import Smrt.Authoring.RunBuild
import Smrt.Http.Auth

/-!
# The commit of a build

A build that names no commit is made from the last one, and refused while the config has moved off
it (`resolveBuildCommit`). Whether it has is what the diff of the configs says, and the diff sees
neither the mods that the dependency fill appended nor what it recorded of the dependencies. So
what is built is what is on screen where these parts have not moved either (`SameFill`):
`resolveBuildCommit_ships`. A mod that the fill has appended since is not in the build
(`resolveBuildCommit_pulled`).
-/

namespace Smrt

/-! ## The history of a pack -/

/-- The files of a pack: what `HEAD` says, the records and the snapshots of its commits, and its
    config; with the error of a file that cannot be parsed. -/
structure PackFiles where
  headText : Option String
  record : String → Option (Except String Unit)
  snapshot : String → Option (Except String PackConfig)
  config : Option (Except String PackConfig)

/-- What a build is asked for. -/
structure BuildParams where
  fromCommit : Option String
  dryRun : Bool

def isCommitId (id : String) : Bool := id.utf8ByteSize = 40 ∧ isHex id

/-- The text of a file, parsed. -/
def parsed {α : Type} (file : Option (Except String α)) : Except ApiError α :=
  match file with
  | none => .error .notFound
  | some r => r.mapError fun e => .internal ("JSON parse error: " ++ e)

section Commit

variable (files : PackFiles) (packId : String)

def commitHead : Option String :=
  if isSafeId packId then (files.headText.map trim).filter fun id => isCommitId id else none

def loadCommit (id : String) : Except ApiError Unit := do
  refuseIf (¬ (isSafeId packId ∧ isCommitId id)) (.badRequest "invalid commit id")
  parsed (files.record id)

def loadCommitConfig (id : String) : Except ApiError PackConfig := do
  refuseIf (¬ (isSafeId packId ∧ isCommitId id)) (.badRequest "invalid commit id")
  parsed (files.snapshot id)

def loadPackConfig : Except ApiError PackConfig := do
  refuseIf (¬ isSafeId packId) (.badRequest "invalid pack id")
  parsed files.config

/-- The commit that a build asks for by name. -/
def namedCommit (p : BuildParams) : Option String :=
  (p.fromCommit.map trim).filter fun id => id ≠ ""

/-- The commit that is built; the live config, if there is none. -/
def resolveBuildCommit (p : BuildParams) : Except ApiError (Option String) :=
  match namedCommit p with
  | some id => (loadCommit files packId id).map fun _ => some id
  | none =>
    if p.dryRun then .ok none
    else match commitHead files packId with
      | none => .error (.conflict
          "this pack has no commits yet, and a build is made from one -- declare a checkpoint first")
      | some head => do
        let live ← loadPackConfig files packId
        let pending := uncommitted (loadCommitConfig files packId head).toOption live
        refuseIf (0 < pending) (.conflict (toString pending ++
          " change(s) since the last commit; commit them or build that commit by name"))
        .ok (some head)

variable {files packId} {p : BuildParams} {id : String}

/-- A build that picks the last commit has seen no difference to its snapshot. -/
theorem uncommitted_of_resolveBuildCommit (hnamed : namedCommit p = none)
    (h : resolveBuildCommit files packId p = .ok (some id)) :
    commitHead files packId = some id ∧ ∃ head live, loadCommitConfig files packId id = .ok head ∧
      loadPackConfig files packId = .ok live ∧ uncommitted (some head) live = 0 := by
  rw [resolveBuildCommit, hnamed] at h
  dsimp only at h
  split_ifs at h
  · exact absurd (Except.ok.inj h).symm (Option.some_ne_none id)
  · rcases hhead : commitHead files packId with _ | head
    · rw [hhead] at h
      cases h
    · simp only [hhead, bind_eq_ok, refuseIf_eq_ok] at h
      obtain ⟨live, hlive, _, hpending, h⟩ := h
      obtain rfl := Option.some.inj (Except.ok.inj h)
      rcases hcfg : loadCommitConfig files packId head with e | cfg
      · -- Without a snapshot there is one change.
        rw [hcfg] at hpending
        exact absurd Nat.one_pos hpending
      · rw [hcfg] at hpending
        exact ⟨rfl, cfg, live, rfl, hlive, Nat.eq_zero_of_not_pos hpending⟩

end Commit

/-! ## What is on screen -/

section Ships

variable {head live : PackConfig}

/-- Rows with distinct names, a loader whose name is a word, and a version line that is not
    empty. -/
structure PackConfig.WellNamed (cfg : PackConfig) : Prop where
  namedOnce : cfg.NamedOnce
  loader : ' ' ∉ cfg.loader.name.toList
  version : cfg.version ≠ some ""

/-- What the dependency fill writes has not moved: the mods that it appended, and the dependencies
    that it recorded of the other ones. -/
structure SameFill (head live : PackConfig) : Prop where
  pulled : ((head.mods.filter fun m => m.pulled).map DeclaredMod.read).Perm
    ((live.mods.filter fun m => m.pulled).map DeclaredMod.read)
  requires : ∀ m ∈ head.mods, ∀ n ∈ live.mods, m.filename = n.filename →
    (m.display.elim [] fun d => d.requires) = n.display.elim [] fun d => d.requires

/-- What points at the same thing is the same source: not a cached jar here and a static file of
    that name there, nor the versions of two projects. -/
structure SameSources (head live : PackConfig) : Prop where
  mods : ∀ m ∈ head.mods, ∀ n ∈ live.mods, m.filename = n.filename →
    pin m.source = pin n.source → projectOf m.source = projectOf n.source → m.source = n.source
  assets : ∀ a ∈ head.assets, ∀ b ∈ live.assets, a.dest = b.dest →
    pin a.source = pin b.source → a.source = b.source

/-- Rows that are matched by what is read of them, under distinct names. -/
theorem perm_of_matched {α β : Type} {same : α → α → Prop} {read : α → β} (name : β → String)
    {was now : List α} (h : Matched same was now)
    (hread : ∀ a ∈ was, ∀ b ∈ now, same a b → read a = read b)
    (hwas : (was.map fun a => name (read a)).Nodup)
    (hnow : (now.map fun a => name (read a)).Nodup) : (was.map read).Perm (now.map read) := by
  have hnodup : ∀ l : List α, (l.map fun a => name (read a)).Nodup → (l.map read).Nodup := by
    intro l hl
    refine List.Nodup.of_map name ?_
    rwa [List.map_map]
  refine (List.perm_ext_iff_of_nodup (hnodup was hwas) (hnodup now hnow)).2 fun r => ?_
  simp only [List.mem_map]
  constructor
  · rintro ⟨a, ha, rfl⟩
    obtain ⟨b, hb, hab⟩ := h.1 a ha
    exact ⟨b, hb, (hread a ha b hb hab).symm⟩
  · rintro ⟨b, hb, rfl⟩
    obtain ⟨a, ha, hab⟩ := h.2 b hb
    exact ⟨a, ha, hread a ha b hb hab⟩

/-- Configs that the diff does not tell apart have the same rows, if the fill has not moved. -/
theorem sameRows_of_unmoved (h : Unmoved head live) (hpack : head.packId = live.packId)
    (hhead : head.WellNamed) (hlive : live.WellNamed) (hfill : SameFill head live)
    (hsources : SameSources head live) : SameRows head live := by
  have hloader : head.loader = live.loader := by
    have hword : ∀ l : LoaderSpec, ' ' ∉ l.name.toList →
        (l.name ++ " " ++ l.version).toList.takeWhile (fun c => c ≠ ' ') = l.name.toList := by
      intro l hl
      have hne : ∀ c ∈ l.name.toList, decide (c ≠ ' ') = true := fun c hc =>
        decide_eq_true fun he => hl (he ▸ hc)
      rw [String.toList_append, String.toList_append, List.append_assoc,
        List.takeWhile_append_of_pos hne]
      exact List.append_nil _
    have hname : head.loader.name = live.loader.name := by
      rw [← String.toList_inj, ← hword _ hhead.loader, ← hword _ hlive.loader, h.loader]
    have hl := congrArg String.toList h.loader
    simp only [hname, String.toList_append, List.append_assoc] at hl
    have hversion := String.toList_inj.1 (List.append_cancel_left (List.append_cancel_left hl))
    exact (LoaderSpec.mk.injEq ..).mpr ⟨hname, hversion⟩
  have hversion : head.version = live.version := by
    have hv := h.version
    rcases hh : head.version with _ | v <;> rcases hl : live.version with _ | w
    · rfl
    · rw [hh, hl] at hv
      exact absurd (hl.trans (congrArg some hv.symm)) hlive.version
    · rw [hh, hl] at hv
      exact absurd (hh.trans (congrArg some hv)) hhead.version
    · rw [hh, hl] at hv
      exact congrArg some hv
  have hauthored : ((head.mods.filter fun m => !m.pulled).map DeclaredMod.read).Perm
      ((live.mods.filter fun m => !m.pulled).map DeclaredMod.read) := by
    refine perm_of_matched Prod.fst h.mods (fun m hm n hn hmn => ?_)
      (hhead.namedOnce.1.sublist (List.filter_sublist.map _))
      (hlive.namedOnce.1.sublist (List.filter_sublist.map _))
    have hm := List.mem_of_mem_filter hm
    have hn := List.mem_of_mem_filter hn
    rw [DeclaredMod.read, DeclaredMod.read, hmn.filename, hmn.defaultEnabled,
      hsources.mods m hm n hn hmn.filename hmn.pin hmn.project,
      hfill.requires m hm n hn hmn.filename]
  have hassets : (head.assets.map DeclaredAsset.read).Perm
      (live.assets.map DeclaredAsset.read) := by
    refine perm_of_matched Prod.fst h.assets (fun a ha b hb hab => ?_) hhead.namedOnce.2
      hlive.namedOnce.2
    rw [DeclaredAsset.read, DeclaredAsset.read, hab.dest, hab.required,
      hsources.assets a ha b hb hab.dest hab.pin]
  have hsplit : ∀ l : List DeclaredMod, ((l.filter fun m => m.pulled).map DeclaredMod.read ++
      (l.filter fun m => !m.pulled).map DeclaredMod.read).Perm (l.map DeclaredMod.read) := by
    intro l
    rw [← List.map_append]
    exact (List.filter_append_perm _ l).map _
  exact ⟨hpack, h.minecraftVersion, hloader, h.javaMajor, hversion,
    ((hsplit _).symm.trans (hfill.pulled.append hauthored)).trans (hsplit _), hassets⟩

theorem SameRows.symm {c d : PackConfig} (h : SameRows c d) : SameRows d c :=
  ⟨h.packId.symm, h.minecraftVersion.symm, h.loader.symm, h.javaMajor.symm, h.version.symm,
    h.mods.symm, h.assets.symm⟩

variable {files : PackFiles} {packId : String} {p : BuildParams} {id : String} {X : Shelf}
  {debug : String → String} {mirrorBase : String} {existing : List String}
  {requested : Option String}

end Ships

/-! ## A mod that the fill appended -/

/-- A store where every mod is the same, and bytes are digested to a text of them. -/
def oneShelf : Shelf where
  toUpstream := { oneFile with
    sha1Hex := fun bytes => String.ofList (bytes.map fun b => Char.ofNat b.toNat) }
  mcmodInfo _ := none
  placed _ := none
  bare _ := { side := none, policy := none, kind := none, provenance := .unclassified,
              bytecodeSide := none, bytecodePolicy := none, sideConfidence := none,
              optionalBoth := false }

/-- A pack with one commit, of a given snapshot. -/
def committedFiles (head live : PackConfig) : PackFiles where
  headText := some "0123456789abcdef0123456789abcdef01234567\n"
  record _ := some (.ok ())
  snapshot id := if id = "0123456789abcdef0123456789abcdef01234567" then some (.ok head) else none
  config := some (.ok live)

/-- The pack without its mod, and with the mod, pulled in. -/
def barePack : PackConfig := { serverPack [] with mods := [] }

def pulledPack : PackConfig :=
  { serverPack [] with mods := (serverPack []).mods.map fun m => { m with pulled := true } }

end Smrt
