import Smrt.Http.Writers
import Smrt.Lib.Decimal
import Smrt.Lib.System

/-!
# Whose pack it is

Whose a community pack is stands in its id, and in its config too, which every door to it writes: a
put derives the owner of a new pack from the id and keeps that of a stored one, a copy takes the
owner it is given, a document keeps what is stored, and a bootstrap writes that the pack is an
official one of the operator.

The configs of a mirror are a system of these doors. A put, a copy and a document hold the lock of
the config from where they read it to where they store it (`hold`, `store`); a bootstrap and a
deletion take no lock. Id and config agree (`Owned`), and an owner stays the owner, as long as
(`Kept`)

* no config is stored under a community id whose number is no account (2^63, or more);
* no pack is bootstrapped that has a community id, or an owner who is not the operator.

`system_owned` says so; a bootstrap of a community id, and a community id with a large number, are
what goes wrong (`system_official`).
-/

namespace Smrt

namespace Ownership

/-! ## Community ids -/

/-- The number in a community id. -/
def communityNumber (id : String) : Option ℕ :=
  match id.toList with
  | 'u' :: '/' :: rest =>
    if '/' ∈ rest then parseDigits (rest.takeWhile fun c => c ≠ '/') else none
  | _ => none

section Number

variable {id : String} {n : ℕ}

theorem communityNumber_of_toList {rest : List Char} (h : id.toList = 'u' :: '/' :: rest) :
    communityNumber id =
      if '/' ∈ rest then parseDigits (rest.takeWhile fun c => c ≠ '/') else none := by
  rw [communityNumber, h]
  rfl

theorem parseDigits_eq (digits : List Char) : parseDigits digits = decimal digits := by
  rw [parseDigits, decimal, Nat.ofDigitChars_eq_foldl]

theorem isDigit_of_parseDigits {digits : List Char} (h : parseDigits digits = some n) :
    digits.all Char.isDigit = true := by
  rw [parseDigits] at h
  split_ifs at h with hd
  exact hd.2

/-- Digits are read as they stand. -/
theorem parseInt64_ofList {digits : List Char} (h : parseDigits digits = some n) :
    parseInt64 (String.ofList digits) = if n < 2 ^ 63 then some (Int64.ofInt n) else none := by
  have hall := isDigit_of_parseDigits h
  rw [parseInt64, String.toList_ofList]
  split
  · exact absurd (List.all_cons ▸ hall) (by simp [Char.isDigit])
  · exact absurd (List.all_cons ▸ hall) (by simp [Char.isDigit])
  · rw [h, Option.bind_some]
    dsimp only
    have hpos : -2 ^ 63 ≤ (n : ℤ) := by omega
    by_cases hn : n < 2 ^ 63
    · rw [if_pos hn, if_pos ⟨hpos, by omega⟩]
    · rw [if_neg hn, if_neg fun hlt => hn (by omega)]

theorem packNamespaceUid_of_toList {rest : List Char} (h : id.toList = 'u' :: '/' :: rest) :
    packNamespaceUid id =
      if '/' ∈ rest then parseInt64 (String.ofList (rest.takeWhile fun c => c ≠ '/')) else none := by
  rw [packNamespaceUid, h]
  rfl

theorem exists_of_communityNumber (h : communityNumber id = some n) :
    ∃ rest, id.toList = 'u' :: '/' :: rest := by
  rw [communityNumber] at h
  split at h
  · exact ⟨_, by assumption⟩
  · exact absurd h nofun

theorem exists_of_packNamespaceUid {uid : Int64} (h : packNamespaceUid id = some uid) :
    ∃ rest, id.toList = 'u' :: '/' :: rest := by
  rw [packNamespaceUid] at h
  split at h
  · exact ⟨_, by assumption⟩
  · exact absurd h nofun

/-- The number of a community id is its account, if it is a number of 64 bits. -/
theorem packNamespaceUid_eq (h : communityNumber id = some n) :
    packNamespaceUid id = if n < 2 ^ 63 then some (Int64.ofInt n) else none := by
  obtain ⟨rest, heq⟩ := exists_of_communityNumber h
  rw [communityNumber_of_toList heq] at h
  split_ifs at h with hslash
  rw [packNamespaceUid_of_toList heq, if_pos hslash, parseInt64_ofList h]

/-- A safe id that is no community id is in no account's namespace. -/
theorem packNamespaceUid_of_none (hid : isSafeId id = true) (h : communityNumber id = none) :
    packNamespaceUid id = none := by
  by_contra hne
  obtain ⟨uid, huid⟩ := Option.ne_none_iff_exists'.1 hne
  obtain ⟨rest, heq⟩ := exists_of_packNamespaceUid huid
  rw [isSafeId, heq] at hid
  obtain ⟨hslash, hdigits, hall, _⟩ := of_decide_eq_true hid
  rw [communityNumber_of_toList heq, if_pos hslash, parseDigits, if_pos ⟨hdigits, hall⟩] at h
  exact absurd h nofun

end Number

/-! ## The doors -/

/-- What a bootstrap is asked for, besides the archive. -/
structure BootstrapArgs where
  packId : String
  displayName : String
  tagline : String
  minecraftVersion : String
  loader : LoaderSpec
  javaMajor : UInt32

section Doors

variable (X : Outside)

/-- The config that a bootstrap makes of what it has found in an archive. -/
def bootstrap (args : BootstrapArgs) (mods : List DeclaredMod) (assets : List DeclaredAsset) :
    PackConfig where
  packId := args.packId
  displayName := args.displayName
  tagline := args.tagline
  minecraftVersion := args.minecraftVersion
  loader := args.loader
  javaMajor := args.javaMajor
  version := none
  auth := none
  tags := []
  featured := false
  mods
  assets
  packMeta := .default
  owner := X.operatorUid
  tier := .official
  visibility := .published
  forkOf := none

/-- A copy of a pack. -/
def duplicatePack (configs : String → Option PackConfig) (source target : String)
    (loader : Option LoaderSpec) (owner : Int64) (forkOf : Option String) :
    Except ApiError PackConfig := do
  refuseIf (¬ isSafeId target) (.badRequest "invalid target pack id")
  refuseIf (source = target) (.badRequest "source and target pack id are the same")
  refuseIf ((configs target).isSome)
    (.conflict ("pack " ++ X.debug target ++ " already has a config"))
  refuseIf (¬ isSafeId source) (.badRequest "invalid pack id")
  match configs source with
  | none => .error .notFound
  | some cfg => .ok { cfg with
      packId := target
      owner
      tier := if "u/".toList <+: target.toList then .community else .official
      visibility := .draft
      forkOf
      loader := loader.getD cfg.loader }

/-- What the gate finds of an account: whether it is suspended, and what a pack grants it. -/
structure Access where
  suspension : Option (Option String)
  granted : Option PackLevel

/-- The answer to a request to put a config, before it is stored. -/
def put (packId : String) (answers : ℕ → Answers) (stored : Option PackConfig) (req : PutReq)
    (access : Access) : Except ApiError PackConfig := do
  refuseIf (req.body.packId ≠ packId) (.badRequest ("body pack_id " ++ X.debug req.body.packId ++
    " does not match path " ++ X.debug packId))
  authorize req.identity packId .edit access.suspension access.granted
  putPackConfig X packId answers stored req

/-- The copy that an account asks for, if it may see the one and edit the other pack. -/
def duplicate (configs : String → Option PackConfig) (source target : String)
    (loader : Option LoaderSpec) (identity : Identity) (seen edited : Access) :
    Except ApiError PackConfig := do
  authorize identity source .view seen.suspension seen.granted
  authorize identity target .edit edited.suspension edited.granted
  duplicatePack X configs source target loader
    ((packNamespaceUid target).getD identity.uid) none

/-- The id of a fork. -/
def forkTarget (uid : Int64) (name : String) : String := "u/" ++ toString uid.toInt ++ "/" ++ name

/-- A fork of a pack that is published, or that the account may see. -/
def fork (configs : String → Option PackConfig) (source name : String) (identity : Identity)
    (termsAccepted published : Bool) (access : Access) : Except ApiError PackConfig := do
  notSuspended identity access.suspension
  refuseIf (!termsAccepted) .forbidden
  if !published then authorize identity source .view access.suspension access.granted
  duplicatePack X configs source (forkTarget identity.uid name) none identity.uid (some source)

end Doors

/-! ## The system -/

/-- The stored configs, and what the holder of the lock of a config is about to store. -/
structure State where
  configs : String → Option PackConfig
  pending : String → Option PackConfig

/-- What happens. -/
inductive Act
  | put (id : String) (answers : ℕ → Answers) (req : PutReq) (access : Access)
  | duplicate (source target : String) (loader : Option LoaderSpec) (identity : Identity)
      (seen edited : Access)
  | fork (source name : String) (identity : Identity) (termsAccepted published : Bool)
      (access : Access)
  | merge (id : String) (answers : ℕ → Answers) (content : Json.Members)
  /-- The holder of the lock stores its config, or cannot, and lets the lock go. -/
  | store (id : String) (ok : Bool)
  | bootstrap (args : BootstrapArgs) (mods : List DeclaredMod) (assets : List DeclaredAsset)
  | delete (id : String)

section Step

variable (X : Outside) (s : State)

/-- A config is stored, if it may be under that id. -/
def savePackConfig (id : String) (cfg : PackConfig) : State :=
  if isSafeId id then { s with configs := Function.update s.configs id (some cfg) } else s

/-- A request takes the lock of a config, when nobody has it, and holds it if it has something to
    store. -/
def hold (id : String) (result : Option PackConfig) : Option State :=
  if s.pending id = none then some { s with pending := Function.update s.pending id result }
  else none

def step : Act → Option State
  | .put id answers req access =>
    hold s id (Ownership.put X id answers (s.configs id) req access).toOption
  | .duplicate source target loader identity seen edited =>
    hold s target
      (Ownership.duplicate X s.configs source target loader identity seen edited).toOption
  | .fork source name identity termsAccepted published access =>
    hold s (forkTarget identity.uid name)
      (Ownership.fork X s.configs source name identity termsAccepted published access).toOption
  | .merge id answers content =>
    hold s id ((s.configs id).bind (materialise X answers content))
  | .store id ok => (s.pending id).map fun cfg =>
    { (if ok then savePackConfig s id cfg else s) with
      pending := Function.update s.pending id none }
  | .bootstrap args mods assets =>
    some (savePackConfig s args.packId (Ownership.bootstrap X args mods assets))
  | .delete id => some { s with configs := Function.update s.configs id none }

/-- A mirror without packs. -/
def system : System State Act where
  init s := (∀ id, s.configs id = none) ∧ ∀ id, s.pending id = none
  step := step X

/-- A config and its id agree about whose pack it is. -/
def Owned (id : String) (cfg : PackConfig) : Prop :=
  match communityNumber id with
  | some n => cfg.owner.toInt = n ∧ cfg.tier = .community
  | none => cfg.tier = .official

/-- When a step keeps them in agreement: a community id with a config has a number that is an
    account, and what is bootstrapped is an official pack of the operator. -/
def Kept (s : State) : Act → Prop
  | .store id true => ∀ n, communityNumber id = some n → n < 2 ^ 63
  | .bootstrap args _ _ => communityNumber args.packId = none ∧
    (∀ cfg ∈ s.configs args.packId, cfg.owner = X.operatorUid) ∧
    ∀ cfg ∈ s.pending args.packId, cfg.owner = X.operatorUid
  | _ => True

end Step

/-! ## What a door makes -/

section Doors

variable {X : Outside} {id : String} {cfg cfg' : PackConfig}

/-- The number of an id, if it has one, is that of an account. -/
def InRange (id : String) : Prop := ∀ n, communityNumber id = some n → n < 2 ^ 63

theorem Owned.congr (h : Owned id cfg) (ho : cfg'.owner = cfg.owner) (ht : cfg'.tier = cfg.tier) :
    Owned id cfg' := by
  rw [Owned] at h ⊢
  rcases hn : communityNumber id with _ | n
  · rw [hn] at h
    exact ht.trans h
  · rw [hn] at h
    exact ⟨(congrArg Int64.toInt ho).trans h.1, ht.trans h.2⟩

theorem owned_of_number {n : ℕ} (hn : communityNumber id = some n) (ho : cfg.owner.toInt = n)
    (ht : cfg.tier = .community) : Owned id cfg := by
  rw [Owned, hn]
  exact ⟨ho, ht⟩

theorem owned_of_flat (hn : communityNumber id = none) (ht : cfg.tier = .official) :
    Owned id cfg := by
  rw [Owned, hn]
  exact ht

theorem toInt_ofInt {n : ℕ} (h : n < 2 ^ 63) : (Int64.ofInt n).toInt = n :=
  Int64.toInt_ofInt_of_le (by omega) (by omega)

/-- What may be stored under an id over what is there: it leaves the owner who they are, and makes
    them whose the id is. -/
structure Fits (id : String) (stored : Option PackConfig) (cfg : PackConfig) : Prop where
  kept : ∀ existing ∈ stored, cfg.owner = existing.owner ∧ cfg.tier = existing.tier
  new : stored = none → isSafeId id = true → InRange id → Owned id cfg

/-- A put over a stored config. -/
theorem fits_put_some {answers : ℕ → Answers} {req : PutReq}
    (h : putPackConfig X id answers (some cfg) req = .ok cfg') : Fits id (some cfg) cfg' := by
  obtain ⟨_, _, fill, rfl⟩ := putPackConfig_eq_ok h
  have howned : (storeEditedConfig answers
      (mergePulled cfg (req.body.withServerOwned cfg.serverOwned)) fill).serverOwned =
        cfg.serverOwned := by
    rw [serverOwned_of_sameButMods (sameButMods_storeEditedConfig answers fill),
      serverOwned_of_sameButMods sameButMods_mergePulled, PackConfig.serverOwned_withServerOwned]
  refine ⟨fun existing he => ?_, nofun⟩
  obtain rfl := Option.some.inj he
  exact ⟨congrArg ServerOwned.owner howned, congrArg ServerOwned.tier howned⟩

theorem serverOwned_put_none {answers : ℕ → Answers} {req : PutReq}
    (h : putPackConfig X id answers none req = .ok cfg') :
    cfg'.serverOwned = createdOwned id req.identity := by
  obtain ⟨_, _, h⟩ := bind_eq_ok.1 h
  obtain ⟨⟨c, fill⟩, hs, h⟩ := bind_eq_ok.1 h
  obtain ⟨_, _, hs⟩ := bind_eq_ok.1 hs
  split_ifs at hs with hterms
  obtain ⟨rfl, rfl⟩ := Prod.mk.inj (Except.ok.inj hs)
  obtain rfl := Except.ok.inj h
  rw [serverOwned_of_sameButMods (sameButMods_storeEditedConfig answers true),
    PackConfig.serverOwned_withServerOwned]

theorem fits_put_none {answers : ℕ → Answers} {req : PutReq}
    (h : putPackConfig X id answers none req = .ok cfg') : Fits id none cfg' := by
  have howned := serverOwned_put_none h
  rw [createdOwned] at howned
  refine ⟨fun _ he => absurd he (Option.not_mem_none _), fun _ hid hrange => ?_⟩
  rcases hn : communityNumber id with _ | n
  · rw [packNamespaceUid_of_none hid hn] at howned
    exact owned_of_flat hn (congrArg ServerOwned.tier howned)
  · rw [packNamespaceUid_eq hn, if_pos (hrange n hn)] at howned
    have ho : cfg'.owner = Int64.ofInt n := congrArg ServerOwned.owner howned
    exact owned_of_number hn (ho ▸ toInt_ofInt (hrange n hn)) (congrArg ServerOwned.tier howned)

theorem fits_put {answers : ℕ → Answers} {stored : Option PackConfig} {req : PutReq}
    {access : Access} (h : put X id answers stored req access = .ok cfg') :
    Fits id stored cfg' := by
  obtain ⟨_, _, h⟩ := bind_eq_ok.1 h
  obtain ⟨_, _, h⟩ := bind_eq_ok.1 h
  rcases stored with _ | cfg
  · exact fits_put_none h
  · exact fits_put_some h

/-- A document keeps the owner and the tier of what is stored. -/
theorem fits_merge {answers : ℕ → Answers} {content : Json.Members} {stored : Option PackConfig}
    (h : stored.bind (materialise X answers content) = some cfg') : Fits id stored cfg' := by
  obtain ⟨cfg, rfl, h⟩ := Option.bind_eq_some_iff.1 h
  obtain ⟨c, fill, hc, rfl⟩ := materialise_eq_some h
  obtain ⟨_, ho, ht, _⟩ := PackDoc.toConfig_eq_some.1 hc
  have howned : (storeEditedConfig answers (mergePulled cfg c) fill).serverOwned =
      c.serverOwned := by
    rw [serverOwned_of_sameButMods (sameButMods_storeEditedConfig answers fill),
      serverOwned_of_sameButMods sameButMods_mergePulled]
  refine ⟨fun existing he => ?_, nofun⟩
  obtain rfl := Option.some.inj he
  exact ⟨(congrArg ServerOwned.owner howned).trans ho, (congrArg ServerOwned.tier howned).trans ht⟩

/-- Only a community id is in the folder of the community. -/
theorem prefix_iff (hid : isSafeId id = true) :
    "u/".toList <+: id.toList ↔ (communityNumber id).isSome = true := by
  constructor
  · rintro ⟨rest, heq⟩
    have heq : id.toList = 'u' :: '/' :: rest := heq.symm
    rw [isSafeId, heq] at hid
    obtain ⟨hslash, hne, hall, _⟩ := of_decide_eq_true hid
    rw [communityNumber_of_toList heq, if_pos hslash, parseDigits, if_pos ⟨hne, hall⟩]
    rfl
  · intro h
    obtain ⟨n, hn⟩ := Option.isSome_iff_exists.1 h
    obtain ⟨rest, heq⟩ := exists_of_communityNumber hn
    rw [heq]
    exact ⟨rest, rfl⟩

/-- A copy is made where there is no pack. -/
theorem duplicatePack_eq_ok {configs : String → Option PackConfig} {source target : String}
    {loader : Option LoaderSpec} {owner : Int64} {forkOf : Option String}
    (h : duplicatePack X configs source target loader owner forkOf = .ok cfg') :
    isSafeId target = true ∧ configs target = none ∧ cfg'.owner = owner ∧
      cfg'.tier = if "u/".toList <+: target.toList then .community else .official := by
  obtain ⟨_, hsafe, h⟩ := bind_eq_ok.1 h
  obtain ⟨_, _, h⟩ := bind_eq_ok.1 h
  obtain ⟨_, hnone, h⟩ := bind_eq_ok.1 h
  obtain ⟨_, _, h⟩ := bind_eq_ok.1 h
  have hsafe := not_not.1 (refuseIf_eq_ok.1 hsafe)
  have hnone := Option.not_isSome_iff_eq_none.1 (refuseIf_eq_ok.1 hnone)
  rcases hc : configs source with _ | cfg
  · rw [hc] at h
    exact absurd h nofun
  · rw [hc] at h
    obtain rfl := Except.ok.inj h
    exact ⟨hsafe, hnone, rfl, rfl⟩

theorem fits_duplicatePack {configs : String → Option PackConfig} {source target : String}
    {loader : Option LoaderSpec} {owner : Int64} {forkOf : Option String}
    (h : duplicatePack X configs source target loader owner forkOf = .ok cfg')
    (ho : ∀ n, communityNumber target = some n → n < 2 ^ 63 → owner.toInt = n) :
    Fits target (configs target) cfg' := by
  obtain ⟨hsafe, hnone, howner, htier⟩ := duplicatePack_eq_ok h
  rw [hnone]
  refine ⟨fun _ he => absurd he (Option.not_mem_none _), fun _ _ hrange => ?_⟩
  rcases hn : communityNumber target with _ | n
  · rw [if_neg fun hp => ?_] at htier
    · exact owned_of_flat hn htier
    · exact absurd ((prefix_iff hsafe).1 hp) (by rw [hn]; exact Bool.false_ne_true)
  · rw [if_pos ((prefix_iff hsafe).2 (by rw [hn]; rfl))] at htier
    exact owned_of_number hn (howner ▸ ho n hn (hrange n hn)) htier

theorem fits_duplicate {configs : String → Option PackConfig} {source target : String}
    {loader : Option LoaderSpec} {identity : Identity} {seen edited : Access}
    (h : duplicate X configs source target loader identity seen edited = .ok cfg') :
    Fits target (configs target) cfg' := by
  obtain ⟨_, _, h⟩ := bind_eq_ok.1 h
  obtain ⟨_, _, h⟩ := bind_eq_ok.1 h
  refine fits_duplicatePack h fun n hn hlt => ?_
  rw [packNamespaceUid_eq hn, if_pos hlt, Option.getD_some, toInt_ofInt hlt]

/-- The number in the id of a fork is that of the account. -/
theorem communityNumber_forkTarget {uid : Int64} {name : String} {n : ℕ}
    (h : communityNumber (forkTarget uid name) = some n) : uid.toInt = n := by
  have hlist : (forkTarget uid name).toList =
      'u' :: '/' :: ((toString uid.toInt).toList ++ '/' :: name.toList) := by
    simp only [forkTarget, String.toList_append, List.append_assoc]
    rfl
  have hdigits : ((toString uid.toInt).toList ++ '/' :: name.toList).takeWhile (· ≠ '/') =
      (toString uid.toInt).toList := by
    rw [List.takeWhile_append_of_pos, List.takeWhile_cons_of_neg (by decide), List.append_nil]
    intro c hc
    refine decide_eq_true ?_
    rintro rfl
    exact absurd (mem_toString hc) (by decide)
  rw [communityNumber_of_toList hlist, if_pos (List.mem_append_right _ List.mem_cons_self),
    hdigits] at h
  have hall := isDigit_of_parseDigits h
  rcases huid : uid.toInt with m | m
  · rw [huid, show toString (Int.ofNat m) = toString m from rfl, toList_toString, parseDigits_eq,
      decimal_toDigits] at h
    exact congrArg Int.ofNat (Option.some.inj h)
  · rw [huid, toString_negSucc, List.all_cons] at hall
    exact absurd hall (by simp [Char.isDigit])

theorem fits_fork {configs : String → Option PackConfig} {source name : String}
    {identity : Identity} {termsAccepted published : Bool} {access : Access}
    (h : fork X configs source name identity termsAccepted published access = .ok cfg') :
    Fits (forkTarget identity.uid name) (configs (forkTarget identity.uid name)) cfg' := by
  obtain ⟨_, _, h⟩ := bind_eq_ok.1 h
  obtain ⟨_, _, h⟩ := bind_eq_ok.1 h
  have hcopy : duplicatePack X configs source (forkTarget identity.uid name) none identity.uid
      (some source) = .ok cfg' := by
    rcases published with _ | _
    · obtain ⟨_, _, h⟩ := bind_eq_ok.1 h
      exact h
    · exact h
  exact fits_duplicatePack hcopy fun n hn _ => communityNumber_forkTarget hn

end Doors

/-! ## Runs -/

section Runs

variable {X : Outside} {s s' : State} {id : String}

/-- What is stored agrees with its id, and what is about to be stored fits. -/
structure Inv (s : State) : Prop where
  configs : ∀ id, ∀ cfg ∈ s.configs id, isSafeId id = true ∧ InRange id ∧ Owned id cfg
  pending : ∀ id, ∀ cfg ∈ s.pending id, isSafeId id = true → InRange id → Owned id cfg
  same : ∀ id, ∀ cfg ∈ s.configs id, ∀ next ∈ s.pending id, next.owner = cfg.owner

theorem toOption_eq_some {α : Type} {r : Except ApiError α} {x : α}
    (h : r.toOption = some x) : r = .ok x := by
  rcases r with e | y
  · exact absurd h nofun
  · exact congrArg Except.ok (Option.some.inj h)

/-- A request holds what fits. -/
theorem Inv.hold {result : Option PackConfig} (h : Inv s)
    (hfits : ∀ cfg, result = some cfg → Fits id (s.configs id) cfg)
    (hs : hold s id result = some s') : Inv s' := by
  rw [Ownership.hold] at hs
  split_ifs at hs with hfree
  obtain rfl := Option.some.inj hs
  refine ⟨h.configs, fun k cfg hcfg hid hrange => ?_, fun k cfg hcfg next hnext => ?_⟩
  · by_cases hk : k = id
    · subst hk
      have hf := hfits cfg ((Function.update_self k result s.pending).symm.trans hcfg)
      rcases hstored : s.configs k with _ | existing
      · exact hf.new hstored hid hrange
      · obtain ⟨ho, ht⟩ := hf.kept existing hstored
        exact (h.configs k existing hstored).2.2.congr ho ht
    · exact h.pending k cfg ((Function.update_of_ne hk result s.pending).symm.trans hcfg) hid hrange
  · by_cases hk : k = id
    · subst hk
      exact ((hfits next ((Function.update_self k result s.pending).symm.trans hnext)).kept cfg
        hcfg).1
    · exact h.same k cfg hcfg next
        ((Function.update_of_ne hk result s.pending).symm.trans hnext)

/-- What agrees with its id is stored. -/
theorem Inv.savePackConfig {cfg : PackConfig} (h : Inv s)
    (howned : isSafeId id = true → InRange id ∧ Owned id cfg)
    (hsame : ∀ next ∈ s.pending id, next.owner = cfg.owner) : Inv (savePackConfig s id cfg) := by
  rw [Ownership.savePackConfig]
  split_ifs with hid
  · refine ⟨fun k c hc => ?_, h.pending, fun k c hc next hnext => ?_⟩
    · by_cases hk : k = id
      · subst hk
        obtain rfl := Option.some.inj ((Function.update_self k _ s.configs).symm.trans hc)
        exact ⟨hid, howned hid⟩
      · exact h.configs k c ((Function.update_of_ne hk _ s.configs).symm.trans hc)
    · by_cases hk : k = id
      · subst hk
        obtain rfl := Option.some.inj ((Function.update_self k _ s.configs).symm.trans hc)
        exact hsame next hnext
      · exact h.same k c ((Function.update_of_ne hk _ s.configs).symm.trans hc) next hnext
  · exact h

/-- The lock is let go. -/
theorem Inv.release (h : Inv s) (id : String) :
    Inv { s with pending := Function.update s.pending id none } := by
  have hmem : ∀ k, ∀ cfg ∈ Function.update s.pending id none k, cfg ∈ s.pending k :=
    fun k cfg hcfg => by
      by_cases hk : k = id
      · subst hk
        exact absurd ((Function.update_self k none s.pending).symm.trans hcfg) nofun
      · exact (Function.update_of_ne hk none s.pending).symm.trans hcfg
  exact ⟨h.configs, fun k cfg hcfg => h.pending k cfg (hmem k cfg hcfg),
    fun k cfg hcfg next hnext => h.same k cfg hcfg next (hmem k next hnext)⟩

theorem Inv.step {a : Act} (h : Inv s) (ha : Kept X s a) (hs : step X s a = some s') : Inv s' := by
  rcases a with ⟨id, answers, req, access⟩ | ⟨source, target, loader, identity, seen, edited⟩ |
    ⟨source, name, identity, terms, published, access⟩ | ⟨id, answers, content⟩ | ⟨id, ok⟩ |
    ⟨args, mods, assets⟩ | id
  · exact h.hold (fun cfg hcfg => fits_put (toOption_eq_some hcfg)) hs
  · exact h.hold (fun cfg hcfg => fits_duplicate (toOption_eq_some hcfg)) hs
  · exact h.hold (fun cfg hcfg => fits_fork (toOption_eq_some hcfg)) hs
  · exact h.hold (fun cfg hcfg => fits_merge hcfg) hs
  · obtain ⟨cfg, hcfg, rfl⟩ := Option.map_eq_some_iff.1 hs
    rcases ok with _ | _
    · exact h.release id
    · have hsave : { Ownership.savePackConfig s id cfg with
          pending := Function.update s.pending id none } =
          Ownership.savePackConfig { s with pending := Function.update s.pending id none } id
            cfg := by
        rw [Ownership.savePackConfig, Ownership.savePackConfig]
        split_ifs <;> rfl
      rw [if_pos rfl, hsave]
      refine (h.release id).savePackConfig (fun hid => ⟨ha, h.pending id cfg hcfg hid ha⟩) ?_
      exact fun next hnext =>
        absurd ((Function.update_self id none s.pending).symm.trans hnext) nofun
  · obtain rfl := Option.some.inj hs
    obtain ⟨hflat, hconfig, hpending⟩ := ha
    refine h.savePackConfig (fun _ => ⟨fun n hn => ?_, owned_of_flat hflat rfl⟩) hpending
    exact absurd (hflat.symm.trans hn) nofun
  · obtain rfl := Option.some.inj hs
    have hmem : ∀ k, ∀ cfg ∈ Function.update s.configs id none k, cfg ∈ s.configs k :=
      fun k cfg hcfg => by
        by_cases hk : k = id
        · subst hk
          exact absurd ((Function.update_self k none s.configs).symm.trans hcfg) nofun
        · exact (Function.update_of_ne hk none s.configs).symm.trans hcfg
    exact ⟨fun k cfg hcfg => h.configs k cfg (hmem k cfg hcfg), h.pending,
      fun k cfg hcfg => h.same k cfg (hmem k cfg hcfg)⟩

theorem inv_of_reach (h : (system X).Reach (Kept X) s) : Inv s :=
  h.invariant
    (fun _ ⟨hconfigs, hpending⟩ =>
      { configs := fun id _ hcfg => absurd ((hconfigs id).symm.trans hcfg) nofun
        pending := fun id _ hcfg => absurd ((hpending id).symm.trans hcfg) nofun
        same := fun id _ hcfg => absurd ((hconfigs id).symm.trans hcfg) nofun })
    fun _ _ _ hi ha hs => hi.step ha hs

/-- What is stored under an id over a config of the same owner and tier. -/
theorem configs_savePackConfig {cfg next : PackConfig} (hcfg : s.configs id = some cfg)
    {k : String} (hsame : k = id → next.owner = cfg.owner ∧ next.tier = cfg.tier) :
    ∃ cfg', (savePackConfig s k next).configs id = some cfg' ∧ cfg'.owner = cfg.owner ∧
      cfg'.tier = cfg.tier := by
  rw [savePackConfig]
  split_ifs
  · by_cases hk : k = id
    · subst hk
      exact ⟨next, Function.update_self .., hsame rfl⟩
    · exact ⟨cfg, (Function.update_of_ne (Ne.symm hk) ..).trans hcfg, rfl, rfl⟩
  · exact ⟨cfg, hcfg, rfl, rfl⟩

theorem configs_hold {result : Option PackConfig} (hs : hold s id result = some s') :
    s'.configs = s.configs := by
  rw [hold] at hs
  split_ifs at hs
  obtain rfl := Option.some.inj hs
  rfl

/-- The tier is told by the id. -/
theorem tier_eq_of_owned {cfg next : PackConfig} (h : Owned id cfg) (h' : Owned id next) :
    next.tier = cfg.tier := by
  rw [Owned] at h h'
  rcases hn : communityNumber id with _ | n
  · rw [hn] at h h'
    exact h'.trans h.symm
  · rw [hn] at h h'
    exact h'.2.trans h.2.symm

/-- A config keeps its owner and its tier, until the pack is deleted. -/
theorem Inv.owner_step {a : Act} {cfg : PackConfig} (h : Inv s) (ha : Kept X s a)
    (hs : Ownership.step X s a = some s') (hcfg : s.configs id = some cfg) :
    a = .delete id ∨ ∃ cfg', s'.configs id = some cfg' ∧ cfg'.owner = cfg.owner ∧
      cfg'.tier = cfg.tier := by
  have hkeep (hc : s'.configs = s.configs) : ∃ cfg', s'.configs id = some cfg' ∧
      cfg'.owner = cfg.owner ∧ cfg'.tier = cfg.tier := ⟨cfg, hc ▸ hcfg, rfl, rfl⟩
  rcases a with ⟨k, answers, req, access⟩ | ⟨source, target, loader, identity, seen, edited⟩ |
    ⟨source, name, identity, terms, published, access⟩ | ⟨k, answers, content⟩ | ⟨k, ok⟩ |
    ⟨args, mods, assets⟩ | k
  · exact .inr (hkeep (configs_hold hs))
  · exact .inr (hkeep (configs_hold hs))
  · exact .inr (hkeep (configs_hold hs))
  · exact .inr (hkeep (configs_hold hs))
  · obtain ⟨next, hnext, rfl⟩ := Option.map_eq_some_iff.1 hs
    rcases ok with _ | _
    · exact .inr ⟨cfg, hcfg, rfl, rfl⟩
    · refine .inr (configs_savePackConfig hcfg fun hk => ?_)
      subst hk
      obtain ⟨hid, hrange, howned⟩ := h.configs k cfg hcfg
      exact ⟨h.same k cfg hcfg next hnext,
        tier_eq_of_owned howned (h.pending k next hnext hid hrange)⟩
  · obtain rfl := Option.some.inj hs
    obtain ⟨hflat, hconfig, _⟩ := ha
    refine .inr (configs_savePackConfig hcfg fun hk => ?_)
    subst hk
    exact ⟨(hconfig cfg hcfg).symm,
      tier_eq_of_owned (h.configs _ cfg hcfg).2.2 (owned_of_flat hflat rfl)⟩
  · obtain rfl := Option.some.inj hs
    by_cases hk : k = id
    · exact .inl (congrArg Act.delete hk)
    · exact .inr ⟨cfg, (Function.update_of_ne (Ne.symm hk) ..).trans hcfg, rfl, rfl⟩

/-- As long as every step is kept, a stored config agrees with its id about whose pack it is, with
    the account that the gate reads from the id, and keeps its owner and its tier until the pack is
    deleted. A community id is that of an account if and only if its number is below 2^63. -/
theorem system_owned (h : (system X).Reach (Kept X) s) :
    (∀ id cfg, s.configs id = some cfg → Owned id cfg ∧
      packNamespaceUid id = (communityNumber id).map fun _ => cfg.owner) ∧
    (∀ a s' id cfg, Kept X s a → (system X).step s a = some s' → s.configs id = some cfg →
      a = .delete id ∨ ∃ cfg', s'.configs id = some cfg' ∧ cfg'.owner = cfg.owner ∧
        cfg'.tier = cfg.tier) ∧
    ∀ id n, communityNumber id = some n → ((packNamespaceUid id).isSome = true ↔ n < 2 ^ 63) := by
  have hinv := inv_of_reach h
  refine ⟨fun id cfg hcfg => ?_, fun a s' id cfg ha hs hcfg => hinv.owner_step ha hs hcfg,
    fun id n hn => ?_⟩
  · obtain ⟨hid, hrange, howned⟩ := hinv.configs id cfg hcfg
    refine ⟨howned, ?_⟩
    rw [Owned] at howned
    rcases hn : communityNumber id with _ | n
    · exact packNamespaceUid_of_none hid hn
    · rw [hn] at howned
      have ho : Int64.ofInt n = cfg.owner := by rw [← howned.1, Int64.ofInt_toInt]
      rw [packNamespaceUid_eq hn, if_pos (hrange n hn), Option.map_some, ho]
  · rw [packNamespaceUid_eq hn]
    split_ifs with hlt
    · exact iff_of_true rfl hlt
    · exact iff_of_false Bool.false_ne_true hlt

/-- A mirror before anything happens. -/
def start : State := ⟨fun _ => none, fun _ => none⟩

/-- An account puts a config of a pack that it makes. -/
def putEmpty (id : String) (uid : Int64) (role : Role) : Act :=
  .put id (fun _ => .down) ⟨.empty id, none, ⟨uid, "ada", role⟩, true⟩ ⟨none, none⟩

/-- The holder of the lock stores what it holds. -/
theorem step_store {cfg : PackConfig} (hid : isSafeId id = true) (h : s.pending id = some cfg) :
    ∃ s', (system X).step s (.store id true) = some s' ∧ s'.configs id = some cfg := by
  refine ⟨_, congrArg (Option.map _) h, ?_⟩
  change (savePackConfig s id cfg).configs id = some cfg
  rw [savePackConfig, if_pos hid]
  exact Function.update_self ..

/-- Ada makes a pack in her namespace. -/
theorem system_owned_put : ∃ s, (system .none).Reach (Kept .none) s ∧ ∃ cfg,
    s.configs "u/42/Industrial" = some cfg ∧ Owned "u/42/Industrial" cfg := by
  have h₀ : ((system .none).Reach (Kept .none) start) := .init ⟨fun _ => rfl, fun _ => rfl⟩
  have hput : ∃ s, (system .none).step start (putEmpty "u/42/Industrial" 42 .member) = some s ∧
      (s.pending "u/42/Industrial").isSome = true := ⟨_, rfl, by decide +kernel⟩
  obtain ⟨s, hs, hpending⟩ := hput
  have h₁ := h₀.step (by exact trivial) hs
  obtain ⟨cfg, hcfg⟩ := Option.isSome_iff_exists.1 hpending
  have hnumber : communityNumber "u/42/Industrial" = some 42 := by decide +kernel
  have hkept : Kept .none s (.store "u/42/Industrial" true) := fun n hn => by
    obtain rfl := Option.some.inj (hnumber.symm.trans hn)
    decide
  obtain ⟨s', hs', hcfg'⟩ := step_store (X := .none) (by decide +kernel) hcfg
  have h₂ := h₁.step hkept hs'
  exact ⟨s', h₂, cfg, hcfg', ((system_owned h₂).1 _ cfg hcfg').1⟩

/-- What a bootstrap of a community pack is asked for. -/
def seed : BootstrapArgs where
  packId := "u/42/Industrial"
  displayName := "Industrial"
  tagline := ""
  minecraftVersion := "1.12.2"
  loader := { name := "forge", version := "14.23.5.2922" }
  javaMajor := 8

/-- A pack of a community id is an official one of the operator after a bootstrap, and so is one
    that an administrator makes under a number that is no account. -/
theorem system_official :
    (∃ s cfg, (system .none).Reachable s ∧ s.configs "u/42/Industrial" = some cfg ∧
      ¬ Owned "u/42/Industrial" cfg ∧ packNamespaceUid "u/42/Industrial" ≠ some cfg.owner) ∧
    ∃ s cfg, (system .none).Reachable s ∧
      s.configs "u/9223372036854775808/Industrial" = some cfg ∧
      ¬ Owned "u/9223372036854775808/Industrial" cfg ∧
      packNamespaceUid "u/9223372036854775808/Industrial" = none := by
  have h₀ : (system .none).Reachable start := .init ⟨fun _ => rfl, fun _ => rfl⟩
  constructor
  · have hnumber : communityNumber "u/42/Industrial" = some 42 := by decide +kernel
    refine ⟨_, bootstrap .none seed [] [], h₀.step (a := .bootstrap seed [] []) trivial rfl,
      by decide +kernel, fun h => ?_, by decide +kernel⟩
    rw [Owned, hnumber] at h
    exact absurd h.2 nofun
  · have hput : ∃ s, (system .none).step start
        (putEmpty "u/9223372036854775808/Industrial" 1 .admin) = some s ∧
        (s.pending "u/9223372036854775808/Industrial").any (fun c => c.tier = .official) = true :=
      ⟨_, rfl, by decide +kernel⟩
    obtain ⟨s, hs, hpending⟩ := hput
    obtain ⟨cfg, hcfg, htier⟩ := (Option.any_eq_true _ _).1 hpending
    obtain ⟨s', hs', hcfg'⟩ := step_store (X := .none) (by decide +kernel) hcfg
    have hnumber : communityNumber "u/9223372036854775808/Industrial" =
        some 9223372036854775808 := by decide +kernel
    refine ⟨s', cfg, (h₀.step trivial hs).step trivial hs', hcfg', fun h => ?_, by decide +kernel⟩
    rw [Owned, hnumber] at h
    exact absurd (h.2.symm.trans (of_decide_eq_true htier)) nofun

end Runs

end Ownership

end Smrt
