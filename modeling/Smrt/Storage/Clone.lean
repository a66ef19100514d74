import Mathlib.Logic.Function.Basic
import Smrt.Http.Ownership
import Smrt.Lib.Keyed
import Smrt.Storage.Layout

/-!
# Clones of packs

A clone copies the static files of a pack one by one and writes its config last, so that a pack
that could not be copied is none (`refused_of_error`). What was copied until then stays, and the
next attempt copies over it: a clone is complete if nothing is left there that the source has not
any more, and nothing is missing that was not listed (`Clean`), for a directory that cannot be read
is passed over in silence. `clone_sound_iff` says so of every attempt, and that in runs in which no
file of the source is removed that an attempt has copied, no temporary file stays and all
directories can be read, every attempt is complete or as if there had been none.
-/

namespace Smrt

namespace Clone

open Layout

/-! ## Packs on disk -/

/-- The static files of a pack, by their paths. -/
structure Tree where
  files : List (String × List UInt8)
  sorted : Increasing files

namespace Tree

variable {t t' : Tree} {rel rel' : String} {bytes : List UInt8}

def empty : Tree := ⟨[], .nil⟩

def get (t : Tree) (rel : String) : Option (List UInt8) := t.files.lookup rel

def put (t : Tree) (rel : String) (bytes : List UInt8) : Tree :=
  ⟨Smrt.put rel bytes t.files, t.sorted.put⟩

def erase (t : Tree) (rel : String) : Tree :=
  ⟨t.files.filter fun p => p.1 ≠ rel, List.Pairwise.filter _ t.sorted⟩

/-- The paths, in their order. -/
def paths (t : Tree) : List String := t.files.map Prod.fst

@[simp] theorem get_empty : empty.get rel = none := rfl

@[simp] theorem get_put :
    (t.put rel bytes).get rel' = if rel' = rel then some bytes else t.get rel' :=
  lookup_put rel'

theorem get_eq_some : t.get rel = some bytes ↔ (rel, bytes) ∈ t.files :=
  ⟨mem_of_lookup, t.sorted.lookup⟩

theorem get_eq_none : t.get rel = none ↔ rel ∉ t.paths := by
  rw [paths, List.mem_map, Option.eq_none_iff_forall_ne_some]
  constructor
  · rintro h ⟨p, hp, rfl⟩
    exact h p.2 (get_eq_some.2 hp)
  · exact fun h bytes hb => h ⟨_, get_eq_some.1 hb, rfl⟩

theorem get_erase : (t.erase rel).get rel' = if rel' = rel then none else t.get rel' := by
  split_ifs with h
  · rw [get_eq_none, paths, List.mem_map]
    rintro ⟨p, hp, hrel⟩
    exact of_decide_eq_true (List.mem_filter.1 hp).2 (hrel.trans h)
  · refine Option.ext fun bytes => ?_
    rw [get_eq_some, get_eq_some, erase, List.mem_filter]
    exact and_iff_left (decide_eq_true h)

/-- Trees are the same if their files are. -/
@[ext] theorem ext (h : ∀ rel, t.get rel = t'.get rel) : t = t' := by
  have hmem : ∀ p, p ∈ t.files ↔ p ∈ t'.files := by
    rintro ⟨rel, bytes⟩
    rw [← get_eq_some, ← get_eq_some, h]
  have hnodup : ∀ t : Tree, t.files.Nodup := fun t =>
    t.sorted.imp fun hlt he => hlt.ne (congrArg Prod.fst he)
  have hfiles : t.files = t'.files :=
    t.sorted.eq_of_perm t'.sorted ((List.perm_ext_iff_of_nodup (hnodup t) (hnodup t')).2 hmem)
  obtain ⟨files, hs⟩ := t
  obtain ⟨files', hs'⟩ := t'
  obtain rfl : files = files' := hfiles
  rfl

end Tree

/-- What is on disk of a pack: its config file, with the error if it cannot be parsed, and its
    static files. -/
structure Pack where
  config : Option (Except String PackConfig)
  static : Tree

abbrev Disk := String → Pack

/-- How the write of a file ends. It goes to a temporary file first, which stays if it can neither
    be completed nor taken away. -/
inductive Write
  | done
  | failed (reason : String)
  | left (reason suffix : String) (written : List UInt8)

/-- What goes wrong on the disk while a pack is cloned. -/
structure Faults where
  /-- The config of the source cannot be read. -/
  config : Bool
  /-- The directories that cannot be read. -/
  unlisted : List String → Bool
  /-- The listing breaks off. -/
  listing : Option String
  unread : String → Option String
  write : String → Write
  store : Option String

/-! ## Cloning -/

section Duplicate

variable (X : Outside) (f : Faults) (source target : String)

/-- A file is listed if all directories on the way to it can be read. -/
def listed (rel : String) : Bool :=
  (List.range (segments rel).length).all fun n => !f.unlisted ((segments rel).take n)

def listPackStatic (t : Tree) : Except ApiError (List String) :=
  match f.listing with
  | some reason => .error (.internal reason)
  | none => .ok (t.paths.filter fun rel => listed f rel)

def readPackStatic (t : Tree) (rel : String) : Except ApiError (List UInt8) := do
  let _ ← packStaticPath source rel
  match f.unread rel, t.get rel with
  | none, some bytes => .ok bytes
  | some reason, _ => .error (.internal reason)
  | none, none => .error (.internal "No such file or directory (os error 2)")

def savePackStatic (t : Tree) (rel : String) (bytes : List UInt8) : Tree × Except ApiError Unit :=
  match packStaticPath target rel with
  | .error e => (t, .error e)
  | .ok _ =>
    match f.write rel with
    | .done => (t.put rel bytes, .ok ())
    | .failed reason => (t, .error (.internal reason))
    | .left reason suffix written =>
      (t.put (rel ++ ".tmp." ++ suffix) written, .error (.internal reason))

/-- The files of a tree are copied one after the other. -/
def copyStatic (src : Tree) : List String → Tree → Tree × Except ApiError Unit
  | [], t => (t, .ok ())
  | rel :: rels, t =>
    match readPackStatic f source src rel with
    | .error e => (t, .error e)
    | .ok bytes =>
      match savePackStatic f target t rel bytes with
      | (t, .error e) => (t, .error e)
      | (t, .ok ()) => copyStatic src rels t

variable (d : Disk) (loader : Option LoaderSpec) (owner : Int64) (forkOf : Option String)

/-- The config of the clone, if there may be one. -/
def cloneConfig : Except ApiError PackConfig := do
  refuseIf (¬ isSafeId target) (.badRequest "invalid target pack id")
  refuseIf (source = target) (.badRequest "source and target pack id are the same")
  refuseIf ((d target).config.isSome)
    (.conflict ("pack " ++ X.debug target ++ " already has a config"))
  refuseIf (¬ isSafeId source) (.badRequest "invalid pack id")
  let cfg ← parsed (if f.config then none else (d source).config)
  .ok { cfg with
    packId := target
    owner
    tier := if "u/".toList <+: target.toList then .community else .official
    visibility := .draft
    forkOf
    loader := loader.getD cfg.loader }

/-- What an attempt to clone a pack leaves on disk, and what it answers. -/
def duplicatePack : Disk × Except ApiError PackConfig :=
  match cloneConfig X f source target d loader owner forkOf with
  | .error e => (d, .error e)
  | .ok cfg =>
    match listPackStatic f (d source).static with
    | .error e => (d, .error e)
    | .ok rels =>
      match copyStatic f source target (d source).static rels (d target).static with
      | (t, .error e) => (Function.update d target { d target with static := t }, .error e)
      | (t, .ok ()) =>
        match f.store with
        | some reason =>
          (Function.update d target { d target with static := t }, .error (.internal reason))
        | none => (Function.update d target ⟨some (.ok cfg), t⟩, .ok cfg)

end Duplicate

/-! ## What an attempt does -/

/-- All of a pack is in its clone. -/
structure Cloned (d d' : Disk) (source target : String) (loader : Option LoaderSpec) (owner : Int64)
    (forkOf : Option String) (cfg : PackConfig) : Prop where
  static : (d' target).static = (d source).static
  stored : (d' target).config = some (.ok cfg)
  config : ∃ cfg₀, (d source).config = some (.ok cfg₀) ∧ cfg = { cfg₀ with
    packId := target
    owner
    tier := if "u/".toList <+: target.toList then .community else .official
    visibility := .draft
    forkOf
    loader := loader.getD cfg₀.loader }
  others : ∀ id, id ≠ target → d' id = d id

/-- No pack has come into being, and if there was one, nothing has changed. -/
structure Refused (d d' : Disk) (target : String) : Prop where
  config : (d' target).config = (d target).config
  untouched : (d target).config ≠ none → d' = d
  others : ∀ id, id ≠ target → d' id = d id

/-- What an attempt has to be: complete, or as if there had been none. -/
def Sound (X : Outside) (f : Faults) (source target : String) (d : Disk)
    (loader : Option LoaderSpec) (owner : Int64) (forkOf : Option String) : Prop :=
  match duplicatePack X f source target d loader owner forkOf with
  | (d', .ok cfg) => Cloned d d' source target loader owner forkOf cfg
  | (d', .error _) => Refused d d' target

/-- What of a disk is asked for in order that a pack is cloned. -/
structure Succeeds (f : Faults) (source target : String) (d : Disk) : Prop where
  targetSafe : isSafeId target = true
  ne : source ≠ target
  fresh : (d target).config = none
  sourceSafe : isSafeId source = true
  read : f.config = false
  config : ∃ cfg, (d source).config = some (.ok cfg)
  listing : f.listing = none
  files : ∀ rel ∈ (d source).static.paths, listed f rel = true →
    isSafeRelPath rel = true ∧ f.unread rel = none ∧ f.write rel = .done
  store : f.store = none

/-- The static files of the target are those of the source, where they are not copied. -/
def Clean (f : Faults) (source target : String) (d : Disk) : Prop :=
  ∀ rel, rel ∉ (d source).static.paths ∨ listed f rel = false →
    (d target).static.get rel = (d source).static.get rel

section Spec

variable {X : Outside} {f : Faults} {source target : String} {d d' : Disk} {rels : List String}
  {loader : Option LoaderSpec} {owner : Int64} {forkOf : Option String} {cfg : PackConfig}
  {src t t' : Tree} {rel : String} {bytes : List UInt8}

theorem packStaticPath_isOk {path : Path} (h : packStaticPath source rel = .ok path) :
    isSafeId source = true ∧ isSafeRelPath rel = true :=
  ⟨(packStaticPath_eq_ok.1 h).1, (packStaticPath_eq_ok.1 h).2.1⟩

theorem readPackStatic_eq_ok : readPackStatic f source src rel = .ok bytes ↔
    isSafeId source = true ∧ isSafeRelPath rel = true ∧ f.unread rel = none ∧
      src.get rel = some bytes := by
  rw [readPackStatic, bind_eq_ok]
  constructor
  · rintro ⟨path, hpath, h⟩
    obtain ⟨hid, hrel⟩ := packStaticPath_isOk hpath
    refine ⟨hid, hrel, ?_⟩
    rcases hu : f.unread rel with _ | reason <;> rcases hg : src.get rel with _ | bytes
    all_goals rw [hu, hg] at h
    · exact absurd h nofun
    · exact ⟨rfl, congrArg some (Except.ok.inj h)⟩
    · exact absurd h nofun
    · exact absurd h nofun
  · rintro ⟨hid, hrel, hu, hg⟩
    refine ⟨_, packStaticPath_eq_ok.2 ⟨hid, hrel, rfl⟩, ?_⟩
    rw [hu, hg]

theorem savePackStatic_eq_ok : savePackStatic f target t rel bytes = (t', .ok ()) ↔
    isSafeId target = true ∧ isSafeRelPath rel = true ∧ f.write rel = .done ∧
      t' = t.put rel bytes := by
  rw [savePackStatic]
  rcases hp : packStaticPath target rel with e | path
  · refine iff_of_false nofun ?_
    rintro ⟨hid, hrel, -⟩
    rw [packStaticPath_eq_ok.2 ⟨hid, hrel, rfl⟩] at hp
    exact absurd hp nofun
  · obtain ⟨hid, hrel⟩ := packStaticPath_isOk hp
    rw [and_iff_right hid, and_iff_right hrel]
    rcases f.write rel with _ | reason | ⟨reason, suffix, written⟩
    · simp [eq_comm]
    · exact iff_of_false nofun nofun
    · exact iff_of_false nofun nofun

/-- What the copy of the first file has to do with the copy of all. -/
theorem copyStatic_cons_eq_ok : copyStatic f source target src (rel :: rels) t = (t', .ok ()) ↔
    ∃ bytes, readPackStatic f source src rel = .ok bytes ∧
      savePackStatic f target t rel bytes = (t.put rel bytes, .ok ()) ∧
      copyStatic f source target src rels (t.put rel bytes) = (t', .ok ()) := by
  rw [copyStatic]
  rcases readPackStatic f source src rel with e | bytes
  · exact iff_of_false nofun fun ⟨bytes, h, _⟩ => nomatch h
  dsimp only
  rcases hs : savePackStatic f target t rel bytes with ⟨u, e | ⟨⟩⟩
  · refine iff_of_false nofun ?_
    rintro ⟨bytes', h, hs', -⟩
    rw [← Except.ok.inj h, hs] at hs'
    exact absurd (Prod.mk.inj hs').2 nofun
  · obtain ⟨-, -, -, rfl⟩ := savePackStatic_eq_ok.1 hs
    constructor
    · intro h
      exact ⟨bytes, rfl, hs, h⟩
    · rintro ⟨bytes', h, -, hrest⟩
      rw [← Except.ok.inj h] at hrest
      exact hrest

/-- What is copied is there then, and what was there before stays. -/
theorem copyStatic_get (h : copyStatic f source target src rels t = (t', .ok ())) :
    ∀ rel, t'.get rel = if rel ∈ rels then src.get rel else t.get rel := by
  induction rels generalizing t with
  | nil =>
    obtain rfl := (Prod.mk.inj h).1
    simp
  | cons first rels ih =>
    obtain ⟨bytes, hr, -, h⟩ := copyStatic_cons_eq_ok.1 h
    obtain ⟨-, -, -, hg⟩ := readPackStatic_eq_ok.1 hr
    intro rel
    rw [ih h rel, Tree.get_put]
    by_cases hrel : rel = first
    · rw [if_pos hrel, hrel, if_pos List.mem_cons_self, hg, ite_self]
    · simp [hrel]

/-- All is copied if every file can be. -/
theorem copyStatic_isOk_iff (hsource : isSafeId source = true) (htarget : isSafeId target = true)
    (hrels : ∀ rel ∈ rels, rel ∈ src.paths) :
    (∃ t', copyStatic f source target src rels t = (t', .ok ())) ↔
      ∀ rel ∈ rels, isSafeRelPath rel = true ∧ f.unread rel = none ∧ f.write rel = .done := by
  induction rels generalizing t with
  | nil => exact iff_of_true ⟨t, rfl⟩ nofun
  | cons first rels ih =>
    have hrest : ∀ rel ∈ rels, rel ∈ src.paths := fun rel h => hrels rel (.tail _ h)
    rw [List.forall_mem_cons]
    constructor
    · rintro ⟨t', h⟩
      obtain ⟨bytes, hr, hs, h⟩ := copyStatic_cons_eq_ok.1 h
      obtain ⟨-, hrel, hu, -⟩ := readPackStatic_eq_ok.1 hr
      obtain ⟨-, -, hw, -⟩ := savePackStatic_eq_ok.1 hs
      exact ⟨⟨hrel, hu, hw⟩, (ih hrest).1 ⟨t', h⟩⟩
    · rintro ⟨⟨hrel, hu, hw⟩, h⟩
      obtain ⟨bytes, hg⟩ : ∃ bytes, src.get first = some bytes := by
        refine Option.ne_none_iff_exists'.1 fun hn => ?_
        exact Tree.get_eq_none.1 hn (hrels first (.head _))
      obtain ⟨t', ht⟩ := (ih (t := t.put first bytes) hrest).2 h
      exact ⟨t', copyStatic_cons_eq_ok.2 ⟨bytes, readPackStatic_eq_ok.2 ⟨hsource, hrel, hu, hg⟩,
        savePackStatic_eq_ok.2 ⟨htarget, hrel, hw, rfl⟩, ht⟩⟩

/-- Nothing but what is copied comes in, unless a temporary file stays. -/
theorem copyStatic_new (hleft : ∀ rel reason suffix written,
      f.write rel ≠ .left reason suffix written) (hrel : rel ∉ rels) (ht : t.get rel = none) :
    (copyStatic f source target src rels t).1.get rel = none := by
  induction rels generalizing t with
  | nil => exact ht
  | cons first rels ih =>
    obtain ⟨hne, hrel⟩ := not_or.1 (List.mem_cons.not.1 hrel)
    have hput : ∀ bytes, (t.put first bytes).get rel = none := fun bytes => by
      rw [Tree.get_put, if_neg hne, ht]
    have hsave : ∀ bytes, (savePackStatic f target t first bytes).1.get rel = none := by
      intro bytes
      rw [savePackStatic]
      rcases packStaticPath target first with e | path
      · exact ht
      rcases hw : f.write first with _ | reason | ⟨reason, suffix, written⟩
      · exact hput bytes
      · exact ht
      · exact absurd hw (hleft first reason suffix written)
    rw [copyStatic]
    rcases readPackStatic f source src first with e | bytes
    · exact ht
    have hsave := hsave bytes
    dsimp only
    rcases hs : savePackStatic f target t first bytes with ⟨u, e | ⟨⟩⟩
    all_goals rw [hs] at hsave
    · exact hsave
    · exact ih hrel hsave

theorem cloneConfig_eq_ok : cloneConfig X f source target d loader owner forkOf = .ok cfg ↔
    isSafeId target = true ∧ source ≠ target ∧ (d target).config = none ∧
      isSafeId source = true ∧ f.config = false ∧
      ∃ cfg₀, (d source).config = some (.ok cfg₀) ∧ { cfg₀ with
        packId := target
        owner
        tier := if "u/".toList <+: target.toList then .community else .official
        visibility := .draft
        forkOf
        loader := loader.getD cfg₀.loader } = cfg := by
  have hparsed : ∀ cfg₀, parsed (if f.config then none else (d source).config) = .ok cfg₀ ↔
      f.config = false ∧ (d source).config = some (.ok cfg₀) := by
    intro cfg₀
    rcases f.config with _ | _
    · rcases (d source).config with _ | ⟨e | cfg⟩ <;> simp [parsed, Except.mapError]
    · simp [parsed]
  simp only [cloneConfig, bind_eq_ok, refuseIf_eq_ok, exists_const, not_not, hparsed,
    Option.not_isSome_iff_eq_none, Except.ok.injEq]
  constructor
  · rintro ⟨htarget, hne, hfresh, hsource, cfg₀, ⟨hread, hcfg⟩, h⟩
    exact ⟨htarget, hne, hfresh, hsource, hread, cfg₀, hcfg, h⟩
  · rintro ⟨htarget, hne, hfresh, hsource, hread, cfg₀, hcfg, h⟩
    exact ⟨htarget, hne, hfresh, hsource, cfg₀, ⟨hread, hcfg⟩, h⟩

/-- The files an attempt copies. -/
def copied (f : Faults) (source : String) (d : Disk) : List String :=
  (d source).static.paths.filter fun rel => listed f rel

theorem listPackStatic_eq_ok : listPackStatic f (d source).static = .ok rels ↔
    f.listing = none ∧ copied f source d = rels := by
  rw [listPackStatic]
  rcases f.listing with _ | reason
  · exact ⟨fun h => ⟨rfl, Except.ok.inj h⟩, fun h => congrArg _ h.2⟩
  · exact iff_of_false nofun nofun

/-- An attempt ends well if each of its parts does. -/
theorem duplicatePack_eq_ok :
    duplicatePack X f source target d loader owner forkOf = (d', .ok cfg) ↔
    cloneConfig X f source target d loader owner forkOf = .ok cfg ∧ f.listing = none ∧
      f.store = none ∧ ∃ t', copyStatic f source target (d source).static (copied f source d)
        (d target).static = (t', .ok ()) ∧ d' = Function.update d target ⟨some (.ok cfg), t'⟩ := by
  rw [duplicatePack]
  rcases cloneConfig X f source target d loader owner forkOf with e | cfg'
  · simp
  dsimp only
  rcases hl : listPackStatic f (d source).static with e | rels
  · have hlisting : f.listing ≠ none := fun hn =>
      nomatch hl.symm.trans (listPackStatic_eq_ok.2 ⟨hn, rfl⟩)
    simp [hlisting]
  obtain ⟨hlisting, rfl⟩ := listPackStatic_eq_ok.1 hl
  dsimp only
  rcases copyStatic f source target (d source).static (copied f source d) (d target).static
    with ⟨t, e | ⟨⟩⟩
  · simp
  rcases f.store with _ | reason
  · simp only [Prod.mk.injEq, Except.ok.injEq]
    constructor
    · rintro ⟨rfl, rfl⟩
      exact ⟨rfl, hlisting, trivial, t, ⟨rfl, trivial⟩, rfl⟩
    · rintro ⟨rfl, -, -, t', ⟨rfl, -⟩, rfl⟩
      exact ⟨rfl, rfl⟩
  · simp

/-- What an attempt that fails has done. -/
theorem refused_of_error {e : ApiError}
    (h : duplicatePack X f source target d loader owner forkOf = (d', .error e)) :
    Refused d d' target := by
  have hsame : Refused d d target := ⟨rfl, fun _ => rfl, fun _ _ => rfl⟩
  rw [duplicatePack] at h
  rcases hc : cloneConfig X f source target d loader owner forkOf with e | cfg
  · rw [hc] at h
    obtain rfl := (Prod.mk.inj h).1
    exact hsame
  -- past the checks the target has no config
  have hfresh : (d target).config = none := (cloneConfig_eq_ok.1 hc).2.2.1
  have hcopied : ∀ t, Refused d (Function.update d target { d target with static := t }) target :=
    fun t => ⟨by rw [Function.update_self], fun hn => absurd hfresh hn,
      fun id hid => Function.update_of_ne hid ..⟩
  rw [hc] at h
  dsimp only at h
  rcases hl : listPackStatic f (d source).static with e | rels
  all_goals rw [hl] at h; dsimp only at h
  · obtain rfl := (Prod.mk.inj h).1
    exact hsame
  rcases ht : copyStatic f source target (d source).static rels (d target).static with ⟨t, e | ⟨⟩⟩
  all_goals rw [ht] at h; dsimp only at h
  · obtain rfl := (Prod.mk.inj h).1
    exact hcopied t
  rcases hs : f.store with _ | reason
  all_goals rw [hs] at h; dsimp only at h
  · exact absurd (Prod.mk.inj h).2 nofun
  · obtain rfl := (Prod.mk.inj h).1
    exact hcopied t

/-- The config of a clone is the one that its writer's rules make of the source's. -/
theorem duplicatePack_config (h : duplicatePack X f source target d loader owner forkOf =
    (d', .ok cfg)) :
    Ownership.duplicatePack X (fun id => (d id).config.bind Except.toOption) source target loader
      owner forkOf = .ok cfg := by
  obtain ⟨hc, -⟩ := duplicatePack_eq_ok.1 h
  obtain ⟨htarget, hne, hfresh, hsource, -, cfg₀, hcfg, rfl⟩ := cloneConfig_eq_ok.1 hc
  have hconfig : (d source).config.bind Except.toOption = some cfg₀ := by
    rw [hcfg]
    rfl
  simp only [Ownership.duplicatePack, bind_eq_ok, refuseIf_eq_ok, exists_const, not_not, hconfig]
  refine ⟨htarget, hne, ?_, hsource, trivial⟩
  rw [hfresh]
  exact Bool.false_ne_true

/-- When a pack is cloned. -/
theorem duplicatePack_isOk_iff :
    (∃ d' cfg, duplicatePack X f source target d loader owner forkOf = (d', .ok cfg)) ↔
      Succeeds f source target d := by
  have hmem : ∀ rel, rel ∈ copied f source d ↔
      rel ∈ (d source).static.paths ∧ listed f rel = true := fun rel => List.mem_filter
  have hcopy (hsource : isSafeId source = true) (htarget : isSafeId target = true) :=
    copyStatic_isOk_iff (f := f) (t := (d target).static) hsource htarget
      fun rel h => ((hmem rel).1 h).1
  constructor
  · rintro ⟨d', cfg, h⟩
    obtain ⟨hc, hlisting, hstore, t', ht, -⟩ := duplicatePack_eq_ok.1 h
    obtain ⟨htarget, hne, hfresh, hsource, hread, cfg₀, hcfg, -⟩ := cloneConfig_eq_ok.1 hc
    exact ⟨htarget, hne, hfresh, hsource, hread, ⟨cfg₀, hcfg⟩, hlisting,
      fun rel hrel hl => (hcopy hsource htarget).1 ⟨t', ht⟩ rel ((hmem rel).2 ⟨hrel, hl⟩), hstore⟩
  · intro h
    obtain ⟨cfg₀, hcfg⟩ := h.config
    obtain ⟨t', ht⟩ := (hcopy h.sourceSafe h.targetSafe).2 fun rel hrel =>
      h.files rel ((hmem rel).1 hrel).1 ((hmem rel).1 hrel).2
    exact ⟨_, _, duplicatePack_eq_ok.2 ⟨cloneConfig_eq_ok.2 ⟨h.targetSafe, h.ne, h.fresh,
      h.sourceSafe, h.read, cfg₀, hcfg, rfl⟩, h.listing, h.store, t', ht, rfl⟩⟩

/-- What is cloned is complete if the target was clean. -/
theorem cloned_iff (h : duplicatePack X f source target d loader owner forkOf = (d', .ok cfg)) :
    Cloned d d' source target loader owner forkOf cfg ↔ Clean f source target d := by
  obtain ⟨hc, -, -, t', ht, rfl⟩ := duplicatePack_eq_ok.1 h
  obtain ⟨-, -, -, -, -, cfg₀, hcfg, hclone⟩ := cloneConfig_eq_ok.1 hc
  have hget := copyStatic_get ht
  have hself : Function.update d target ⟨some (.ok cfg), t'⟩ target = ⟨some (.ok cfg), t'⟩ :=
    Function.update_self ..
  have hmem : ∀ rel, rel ∈ copied f source d ↔
      rel ∈ (d source).static.paths ∧ listed f rel = true := fun rel => List.mem_filter
  constructor
  · intro hcloned rel hrel
    have hstatic : t' = (d source).static := by
      rw [← hcloned.static, hself]
    have hnot : rel ∉ copied f source d := by
      rw [hmem]
      rintro ⟨hpath, hl⟩
      rcases hrel with hn | hn
      · exact hn hpath
      · exact absurd (hl.symm.trans hn) nofun
    rw [← hstatic, hget rel, if_neg hnot]
  · intro hclean
    have hstatic : t' = (d source).static := by
      ext rel : 1
      rw [hget rel]
      split_ifs with hrel
      · rfl
      · refine hclean rel ?_
        rw [hmem, not_and_or, Bool.not_eq_true] at hrel
        exact hrel
    exact ⟨by rw [hself]; exact hstatic, by rw [hself], ⟨cfg₀, hcfg, hclone.symm⟩,
      fun id hid => Function.update_of_ne hid ..⟩

/-- An attempt is complete or as if there had been none, if and only if the target is clean where
    the attempt succeeds. -/
theorem sound_iff : Sound X f source target d loader owner forkOf ↔
    (Succeeds f source target d → Clean f source target d) := by
  rw [Sound]
  rcases h : duplicatePack X f source target d loader owner forkOf with ⟨d', e | cfg⟩
  · refine iff_of_true (refused_of_error h) fun hs => ?_
    obtain ⟨d'', cfg, h'⟩ := (duplicatePack_isOk_iff (X := X)).2 hs
    exact absurd (Prod.mk.inj (h.symm.trans h')).2 nofun
  · have hs : Succeeds f source target d := duplicatePack_isOk_iff.1 ⟨d', cfg, h⟩
    rw [forall_prop_of_true hs]
    exact cloned_iff h

end Spec

/-! ## Attempts one after the other -/

/-- What happens while a pack is being cloned: its files and its config are changed, and attempts
    are made. -/
inductive Act
  | put (rel : String) (bytes : List UInt8)
  | remove (rel : String)
  | configure (config : Option (Except String PackConfig))
  | attempt (f : Faults) (loader : Option LoaderSpec) (owner : Int64) (forkOf : Option String)

section Runs

variable (X : Outside) (source target : String)

def step (d : Disk) : Act → Disk
  | .put rel bytes =>
    Function.update d source { d source with static := (d source).static.put rel bytes }
  | .remove rel =>
    Function.update d source { d source with static := (d source).static.erase rel }
  | .configure config => Function.update d source { d source with config }
  | .attempt f loader owner forkOf => (duplicatePack X f source target d loader owner forkOf).1

/-- The target is not there at first. -/
def attempts : System Disk Act where
  init d := d target = ⟨none, .empty⟩
  step d a := some (step X source target d a)

/-- No file is removed that has been copied, no temporary file stays, and all directories can be
    read. -/
def Careful (d : Disk) : Act → Prop
  | .remove rel => (d target).static.get rel = none
  | .attempt f _ _ _ => (∀ dir, f.unlisted dir = false) ∧
    ∀ rel reason suffix written, f.write rel ≠ .left reason suffix written
  | _ => True

/-- A target that has no config has no file that the source does not have. -/
def Within (d : Disk) : Prop :=
  (d target).config = none →
    ∀ rel, (d source).static.get rel = none → (d target).static.get rel = none

end Runs

section Invariant

variable {X : Outside} {source target : String} {d : Disk}

/-- A change of the source keeps the target within it, if no file of the target is removed. -/
theorem Within.update {p : Pack} (h : Within source target d) (hsource : ∀ rel,
    p.static.get rel = none → (d source).static.get rel = none ∨ (d target).static.get rel = none) :
    Within source target (Function.update d source p) := by
  intro hfresh rel hrel
  rcases eq_or_ne target source with rfl | hne
  · exact hrel
  rw [Function.update_self] at hrel
  rw [Function.update_of_ne hne] at hfresh ⊢
  rcases hsource rel hrel with hs | ht
  · exact h hfresh rel hs
  · exact ht

/-- An attempt keeps the target within the source. -/
theorem Within.attempt {f : Faults} {loader : Option LoaderSpec} {owner : Int64}
    {forkOf : Option String} (h : Within source target d)
    (hf : Careful target d (.attempt f loader owner forkOf)) :
    Within source target (duplicatePack X f source target d loader owner forkOf).1 := by
  rw [duplicatePack]
  rcases hc : cloneConfig X f source target d loader owner forkOf with e | cfg
  · exact h
  obtain ⟨-, hne, hfresh, -⟩ := cloneConfig_eq_ok.1 hc
  dsimp only
  rcases hl : listPackStatic f (d source).static with e | rels
  · exact h
  obtain ⟨-, rfl⟩ := listPackStatic_eq_ok.1 hl
  have hnew : ∀ rel, (d source).static.get rel = none → (copyStatic f source target
      (d source).static (copied f source d) (d target).static).1.get rel = none :=
    fun rel hrel => copyStatic_new hf.2
      (fun hm => Tree.get_eq_none.1 hrel (List.mem_filter.1 hm).1) (h hfresh rel hrel)
  have hkept : ∀ config, Within source target (Function.update d target ⟨config,
      (copyStatic f source target (d source).static (copied f source d) (d target).static).1⟩) := by
    intro config _ rel hrel
    rw [Function.update_of_ne hne] at hrel
    rw [Function.update_self]
    exact hnew rel hrel
  dsimp only
  rcases hcopy : copyStatic f source target (d source).static (copied f source d)
    (d target).static with ⟨t, e | ⟨⟩⟩
  all_goals rw [hcopy] at hkept
  · exact hkept _
  · rcases f.store with _ | reason
    · exact hkept _
    · exact hkept _

/-- What happens carefully keeps the target within the source. -/
theorem Within.step {a : Act} (h : Within source target d) (ha : Careful target d a) :
    Within source target (step X source target d a) := by
  cases a with
  | put rel bytes =>
    refine h.update fun rel' hrel => .inl ?_
    rw [Tree.get_put] at hrel
    split_ifs at hrel
    exact hrel
  | remove rel =>
    refine h.update fun rel' hrel => ?_
    rw [Tree.get_erase] at hrel
    split_ifs at hrel with he
    · exact .inr (he ▸ ha)
    · exact .inl hrel
  | configure config => exact h.update fun rel hrel => .inl hrel
  | attempt f loader owner forkOf => exact h.attempt ha

theorem within_of_reach (h : (attempts X source target).Reach (Careful target) d) :
    Within source target d := by
  refine h.invariant ?_ ?_
  · intro d hd _ rel _
    have hd : d target = ⟨none, .empty⟩ := hd
    rw [hd]
    rfl
  · intro d a d' hw ha hstep
    obtain rfl := Option.some.inj hstep
    exact hw.step ha

/-- If all directories can be read, a target within the source is clean. -/
theorem Within.clean {f : Faults} (h : Within source target d)
    (hf : ∀ dir, f.unlisted dir = false) (hfresh : (d target).config = none) :
    Clean f source target d := by
  have hl : ∀ rel, listed f rel = true := fun rel => by simp [listed, hf]
  rintro rel (hrel | hrel)
  · rw [← Tree.get_eq_none] at hrel
    rw [hrel, h hfresh rel hrel]
  · exact absurd ((hl rel).symm.trans hrel) nofun

end Invariant

/-- An attempt to clone a pack is complete or as if there had been none if and only if, where it
    goes through, what the target has of files that it does not copy is what the source has. So it
    is after any run in which nothing is removed from the source that has been copied. -/
theorem clone_sound_iff (X : Outside) (source target : String) :
    (∀ f d loader owner forkOf, Sound X f source target d loader owner forkOf ↔
      (Succeeds f source target d → Clean f source target d)) ∧
    ∀ d, (attempts X source target).Reach (Careful target) d → ∀ f loader owner forkOf,
      Careful target d (.attempt f loader owner forkOf) →
        Sound X f source target d loader owner forkOf := by
  constructor
  · intro f d loader owner forkOf
    exact sound_iff
  · intro d hd f loader owner forkOf hf
    rw [sound_iff]
    intro hs
    exact (within_of_reach hd).clean hf.1 hs.fresh

/-- Nothing goes wrong, but for the config of the clone, which may not be stored. -/
def Faults.none (store : Option String) : Faults where
  config := false
  unlisted := fun _ => false
  listing := .none
  unread := fun _ => .none
  write := fun _ => .done
  store := store

/-- A pack with one static file. -/
def Disk.industrial : Disk := fun id =>
  if id = "Industrial" then ⟨some (.ok (PackConfig.empty "Industrial")), Tree.empty.put "a.png" [1]⟩
  else ⟨none, .empty⟩

/-- A config that could not be stored, and the source loses a file before the next attempt: the
    clone has it still. -/
theorem clone_not_sound : ∃ d, (attempts .none "Industrial" "Fresh").Reachable d ∧
    ¬ Sound .none (.none none) "Industrial" "Fresh" d none 1 none := by
  have hfile : isSafeRelPath "a.png" = true := by
    rw [isSafeRelPath, splitOn_slash]
    decide
  have hsource : isSafeId "Industrial" = true := by decide +kernel
  have htarget : isSafeId "Fresh" = true := by decide +kernel
  have hids : ("Industrial" : String) ≠ "Fresh" := by decide
  have hpaths : copied (.none (some "disk full")) "Industrial" Disk.industrial = ["a.png"] := rfl
  obtain ⟨t, ht⟩ : ∃ t, copyStatic (.none (some "disk full")) "Industrial" "Fresh"
      (Disk.industrial "Industrial").static ["a.png"] (Disk.industrial "Fresh").static =
        (t, .ok ()) := by
    refine (copyStatic_isOk_iff hsource htarget ?_).2 ?_
    · exact List.forall_mem_singleton.2 List.mem_cons_self
    · exact List.forall_mem_singleton.2 ⟨hfile, rfl, rfl⟩
  have hleft : t.get "a.png" = some [1] := copyStatic_get ht "a.png"
  obtain ⟨cfg, hcfg⟩ : ∃ cfg, cloneConfig .none (.none (some "disk full")) "Industrial" "Fresh"
      Disk.industrial none 1 none = .ok cfg :=
    ⟨_, cloneConfig_eq_ok.2 ⟨htarget, hids, rfl, hsource, rfl, _, rfl, rfl⟩⟩
  have hfirst : step .none "Industrial" "Fresh" Disk.industrial
      (.attempt (.none (some "disk full")) none 1 none) =
        Function.update Disk.industrial "Fresh" ⟨none, t⟩ := by
    rw [step, duplicatePack, hcfg]
    dsimp only
    rw [listPackStatic_eq_ok.2 ⟨rfl, hpaths⟩]
    dsimp only
    rw [ht]
    rfl
  refine ⟨_, .step (.step (.init (s := Disk.industrial) rfl) trivial (congrArg some hfirst)) trivial
    (a := .remove "a.png") rfl, ?_⟩
  rw [sound_iff]
  intro h
  have hclean := h ⟨htarget, hids, rfl, hsource, rfl, ⟨_, rfl⟩, rfl, fun f hf => absurd hf List.not_mem_nil, rfl⟩ "a.png"
    (.inl (Tree.get_eq_none.1 rfl))
  exact Option.some_ne_none _ (hleft.symm.trans hclean)

end Clone

end Smrt
