import Smrt.Domain.Serde

/-!
# The shared document of a pack

While it is edited, a config lives in a document that merges everyone's changes. The
document holds the JSON shape of the config without its server-owned fields
(`PackDoc.fromConfig`), a client may write anything to it, and the config is read back
with the server-owned fields of the stored one (`PackDoc.toConfig`).

A document is represented by its content, the members of its root. Every number of it
is a double, which a whole number of a config other than its owner (never in the
document) is exactly.

* `lookup_overlay`: what the document says once the server's fields are in it;
* `toConfig_eq_some`: what is read back, field by field;
* `isolated_iff`: when the document cannot carry a server-owned field. The owner, the
  tier and the visibility it never can, but a base that is no fork writes no `fork_of`,
  so that one the document puts there survives.
-/

namespace Smrt.PackDoc

open Json

/-- The members the clients author: all but the server's. -/
def authored (content : Members) : Members :=
  serverOwnedKeys.foldl (fun o k => erase k o) content

/-- The content of a document seeded from a config. -/
def fromConfig (cfg : PackConfig) : Members := authored cfg.toMembers

/-- The content with the server's fields of `server`, where it has them. -/
def overlay (server content : Members) : Members :=
  serverOwnedKeys.foldl
    (fun o k => match server.lookup k with
      | some v => set k v o
      | none => o)
    content

variable (operatorUid : Int64)

/-- The document as a config, with the server's fields of `base`. -/
def toConfig (content : Members) (base : PackConfig) : Option PackConfig :=
  PackConfig.ofMembers operatorUid (overlay base.toMembers content)

/-! ## What the document says -/

theorem lookup_foldl_erase (keys : List String) (k : String) (o : Members) :
    (keys.foldl (fun o k => erase k o) o).lookup k = if k ∈ keys then none else o.lookup k := by
  induction keys generalizing o with
  | nil => simp
  | cons l keys ih =>
    rw [List.foldl_cons, ih, lookup_erase]
    by_cases hk : k ∈ keys <;> by_cases hl : k = l <;> simp [hk, hl]

/-- The authored members, under the keys that are not the server's. -/
theorem lookup_authored (k : String) (o : Members) :
    (authored o).lookup k = if k ∈ serverOwnedKeys then none else o.lookup k :=
  lookup_foldl_erase serverOwnedKeys k o

/-- A server's member comes from the server if it has it, and from the document
    otherwise; every other member comes from the document. -/
theorem lookup_overlay (server content : Members) (k : String) :
    (overlay server content).lookup k =
      if k ∈ serverOwnedKeys then (server.lookup k).or (content.lookup k)
      else content.lookup k := by
  unfold overlay
  generalize serverOwnedKeys = keys
  induction keys generalizing content with
  | nil => simp
  | cons l keys ih =>
    rw [List.foldl_cons, ih]
    cases hs : server.lookup l with
    | none =>
      by_cases hk : k ∈ keys <;> by_cases hl : k = l <;> simp [hk, hl, hs]
    | some v =>
      by_cases hl : k = l
      · simp [hl, hs]
      · simp [hl, lookup_set_of_ne hl]

theorem lookup_overlay_of_mem {server content : Members} {k : String} {v : Json}
    (hk : k ∈ serverOwnedKeys) (h : server.lookup k = some v) :
    (overlay server content).lookup k = some v := by
  rw [lookup_overlay, if_pos hk, h, Option.some_or]

theorem lookup_overlay_of_not_mem {server content : Members} {k : String}
    (hk : k ∉ serverOwnedKeys) : (overlay server content).lookup k = content.lookup k := by
  rw [lookup_overlay, if_neg hk]

theorem lookup_authored_of_not_mem {content : Members} {k : String}
    (hk : k ∉ serverOwnedKeys) : (authored content).lookup k = content.lookup k := by
  rw [lookup_authored, if_neg hk]

theorem lookup_authored_of_mem {content : Members} {k : String}
    (hk : k ∈ serverOwnedKeys) : (authored content).lookup k = none := by
  rw [lookup_authored, if_pos hk]

/-! ## What is read back -/

/-- How `fork_of` reads in a document: `none` if it is there and is no name. -/
def forkOf (content : Members) : Option (Option String) := may asStr (content.lookup "fork_of")

/-- The `fork_of` read back: the base's if it has one, the document's otherwise. -/
def forkOfOver (content : Members) (base : PackConfig) : Option (Option String) :=
  match base.forkOf with
  | some f => some (some f)
  | none => forkOf content

variable {operatorUid} {content : Members} {base c : PackConfig}

/-- The server's members of a document over its base: the base's, but for a `fork_of`
    it has not. -/
theorem serverReads_overlay :
    PackConfig.ServerReads operatorUid (overlay base.toMembers content) c ↔
      c.owner = base.owner ∧ c.tier = base.tier ∧ c.visibility = base.visibility ∧
        forkOfOver content base = some c.forkOf := by
  have howner : (overlay base.toMembers content).lookup "owner" = some (.int base.owner.toInt) :=
    lookup_overlay_of_mem (by decide) (by rw [PackConfig.lookup_toMembers]; rfl)
  have htier : (overlay base.toMembers content).lookup "tier" = some base.tier.toValue :=
    lookup_overlay_of_mem (by decide) (by rw [PackConfig.lookup_toMembers]; rfl)
  have hvis : (overlay base.toMembers content).lookup "visibility" = some base.visibility.toValue :=
    lookup_overlay_of_mem (by decide) (by rw [PackConfig.lookup_toMembers]; rfl)
  have hfork : may asStr ((overlay base.toMembers content).lookup "fork_of") =
      forkOfOver content base := by
    have hf : base.toMembers.lookup "fork_of" = base.forkOf.map .str := by
      rw [PackConfig.lookup_toMembers]
      rfl
    rw [lookup_overlay, if_pos (by decide), hf, forkOfOver]
    cases base.forkOf <;> rfl
  constructor
  · rintro ⟨h₁, h₂, h₃, h₄⟩
    rw [howner, orDefault_some, asInt64_toInt] at h₁
    rw [htier, orDefault_some, PackTier.fromValue_toValue] at h₂
    rw [hvis, orDefault_some, Visibility.fromValue_toValue] at h₃
    exact ⟨(Option.some.inj h₁).symm, (Option.some.inj h₂).symm, (Option.some.inj h₃).symm,
      hfork ▸ h₄⟩
  · rintro ⟨h₁, h₂, h₃, h₄⟩
    refine ⟨?_, ?_, ?_, hfork ▸ h₄⟩
    · rw [howner, orDefault_some, asInt64_toInt, h₁]
    · rw [htier, orDefault_some, PackTier.fromValue_toValue, h₂]
    · rw [hvis, orDefault_some, Visibility.fromValue_toValue, h₃]

/-- A config read back: what the clients author, with the owner, the tier and the
    visibility of the base, and the `fork_of` of the base or else of the document. -/
theorem toConfig_eq_some :
    toConfig operatorUid content base = some c ↔
      PackConfig.AuthoredReads content c ∧ c.owner = base.owner ∧ c.tier = base.tier ∧
        c.visibility = base.visibility ∧ forkOfOver content base = some c.forkOf := by
  rw [toConfig, PackConfig.ofMembers_eq_some, serverReads_overlay]
  refine and_congr_left fun _ => ⟨fun h => h.congr fun k hk => ?_, fun h => h.congr fun k hk => ?_⟩
  · exact lookup_overlay_of_not_mem hk
  · exact (lookup_overlay_of_not_mem hk).symm

/-- Over a base that is a fork, the server's fields read back are the base's. -/
theorem serverOwned_toConfig (h : toConfig operatorUid content base = some c)
    (hf : base.forkOf.isSome) : c.serverOwned = base.serverOwned := by
  obtain ⟨f, hf⟩ := Option.isSome_iff_exists.1 hf
  obtain ⟨_, ho, ht, hv, hfork⟩ := toConfig_eq_some.1 h
  rw [forkOfOver, hf] at hfork
  simp [PackConfig.serverOwned, ho, ht, hv, hf, ← Option.some.inj hfork]

/-! ## What a document can carry -/

/-- Two documents that say the same but for the server's fields. -/
def SameAuthored (content content' : Members) : Prop :=
  ∀ k ∉ serverOwnedKeys, content.lookup k = content'.lookup k

/-- The server-owned fields of what is read back are the base's, and two documents are
    read back alike. -/
def Isolated (operatorUid : Int64) (base : PackConfig) (content content' : Members) : Prop :=
  (∀ c, toConfig operatorUid content base = some c → c.serverOwned = base.serverOwned) ∧
    (∀ c, toConfig operatorUid content' base = some c → c.serverOwned = base.serverOwned) ∧
      toConfig operatorUid content base = toConfig operatorUid content' base

/-- Whether what the clients author is a config, whatever the server's fields. -/
def IsConfig (operatorUid : Int64) (content : Members) : Prop :=
  (PackConfig.ofMembers operatorUid (authored content)).isSome

theorem isConfig_iff : IsConfig operatorUid content ↔ ∃ c, PackConfig.AuthoredReads content c := by
  rw [IsConfig, Option.isSome_iff_exists]
  constructor
  · rintro ⟨c, h⟩
    refine ⟨c, (PackConfig.ofMembers_eq_some.1 h).1.congr fun k hk => ?_⟩
    exact lookup_authored_of_not_mem hk
  · rintro ⟨c, h⟩
    -- The server's fields, missing, have their defaults.
    refine ⟨c.withServerOwned ⟨operatorUid, .official, .published, none⟩,
      PackConfig.ofMembers_eq_some.2 ⟨?_, ?_⟩⟩
    · exact (h.withServerOwned _).congr fun k hk => (lookup_authored_of_not_mem hk).symm
    · constructor <;> rw [lookup_authored_of_mem (by decide)] <;> rfl

theorem SameAuthored.isConfig {content' : Members} (hs : SameAuthored content content')
    (h : IsConfig operatorUid content) : IsConfig operatorUid content' :=
  let ⟨c, hc⟩ := isConfig_iff.1 h
  isConfig_iff.2 ⟨c, hc.congr hs⟩

theorem SameAuthored.symm {content' : Members} (hs : SameAuthored content content') :
    SameAuthored content' content := fun k hk => (hs k hk).symm

/-- What is no config is not read. -/
theorem toConfig_of_not_isConfig (h : ¬ IsConfig operatorUid content) :
    toConfig operatorUid content base = none := by
  refine Option.eq_none_iff_forall_ne_some.2 fun c hc => h ?_
  exact isConfig_iff.2 ⟨c, (toConfig_eq_some.1 hc).1⟩

/-- What is a config is read with the server's fields of the base, if its `fork_of` reads. -/
theorem toConfig_of_reads (h : PackConfig.AuthoredReads content c) :
    toConfig operatorUid content base = (forkOfOver content base).map fun f =>
      c.withServerOwned { base.serverOwned with forkOf := f } := by
  cases hf : forkOfOver content base with
  | some f =>
    exact toConfig_eq_some.2 ⟨h.withServerOwned _, rfl, rfl, rfl, hf⟩
  | none =>
    refine Option.eq_none_iff_forall_ne_some.2 fun c' hc' => ?_
    have := (toConfig_eq_some.1 hc').2.2.2.2
    rw [hf] at this
    cases this

/-- The document cannot carry a server-owned field exactly if the base is a fork, or if
    what it says is no config anyway, or if its `fork_of` is no name, however the server's
    fields are changed in it. -/
theorem isolated_iff {content' : Members} (hs : SameAuthored content content') :
    Isolated operatorUid base content content' ↔
      base.forkOf.isSome ∨ ¬ IsConfig operatorUid content ∨
        (forkOf content = forkOf content' ∧ ∀ f, forkOf content ≠ some (some f)) := by
  by_cases hc : IsConfig operatorUid content
  swap
  · have hc' : ¬ IsConfig operatorUid content' := fun h => hc (hs.symm.isConfig h)
    simp [Isolated, hc, toConfig_of_not_isConfig hc, toConfig_of_not_isConfig hc']
  obtain ⟨c, hr⟩ := isConfig_iff.1 hc
  rw [Isolated, toConfig_of_reads hr, toConfig_of_reads (hr.congr hs)]
  simp only [hc, not_true_eq_false, false_or, Option.map_eq_some_iff]
  cases hb : base.forkOf with
  | some f =>
    have hown : { base.serverOwned with forkOf := some f } = base.serverOwned := by
      rw [← hb]
      rfl
    simp [forkOfOver, hb, hown]
  | none =>
    simp only [forkOfOver, hb, Option.isSome_none, Bool.false_eq_true, false_or]
    constructor
    · rintro ⟨hown, _, heq⟩
      refine ⟨?_, fun f hf => ?_⟩
      · refine Option.map_injective (fun f f' hff => ?_) heq
        exact congrArg PackConfig.forkOf hff
      · have hfork := congrArg ServerOwned.forkOf (hown _ ⟨_, hf, rfl⟩)
        exact Option.some_ne_none f (hfork.trans hb)
    · rintro ⟨heq, hf⟩
      have hown : ∀ c', (∃ f, forkOf content = some f ∧
          c.withServerOwned { base.serverOwned with forkOf := f } = c') →
          c'.serverOwned = base.serverOwned := by
        rintro _ ⟨f, hff, rfl⟩
        cases f with
        | some f => exact absurd hff (hf f)
        | none => rw [PackConfig.serverOwned_withServerOwned, ← hb]; rfl
      exact ⟨hown, by rw [← heq]; exact hown, by rw [heq]⟩

/-- The document of a pack, in which a client put a `fork_of`. -/
def claimedFork : Members := set "fork_of" (.str "Create") (fromConfig (.empty "Industrial"))

theorem sameAuthored_claimedFork : SameAuthored claimedFork (fromConfig (.empty "Industrial")) :=
  fun _ hk => lookup_set_of_ne (fun h => hk (by rw [h]; decide)) _ _

/-- Over a fork the claim is nothing. -/
theorem isolated_iff_claimedFork :
    Isolated 0 { PackConfig.empty "Industrial" with forkOf := some "Create" } claimedFork
        (fromConfig (.empty "Industrial")) ↔
      (some "Create").isSome ∨ ¬ IsConfig 0 claimedFork ∨
        (forkOf claimedFork = forkOf (fromConfig (.empty "Industrial")) ∧
          ∀ f, forkOf claimedFork ≠ some (some f)) :=
  isolated_iff sameAuthored_claimedFork

/-- Over a pack that is no fork, the claim makes it one. -/
theorem not_isolated_claimedFork :
    toConfig 0 claimedFork (.empty "Industrial") =
        some { PackConfig.empty "Industrial" with forkOf := some "Create" } ∧
      SameAuthored claimedFork (fromConfig (.empty "Industrial")) ∧
      ¬ Isolated 0 (.empty "Industrial") claimedFork (fromConfig (.empty "Industrial")) := by
  have h : toConfig 0 claimedFork (.empty "Industrial") =
      some { PackConfig.empty "Industrial" with forkOf := some "Create" } := by decide
  exact ⟨h, sameAuthored_claimedFork, fun hi => absurd (hi.1 _ h) (by decide)⟩

end Smrt.PackDoc
