import Smrt.Authoring.Mcping

/-!
# What a pack claims to a server

A pack claims the mods that a server says it runs (`spoofFromStatus`). Later the server is asked
again, and what has moved is reported (`drift`): for each mod that is expected now, the first one of
its id in the claim is looked at, and of those in the claim, only whether the id is expected still.

`drift_exact_iff`: the report is exact (`Exact`) if and only if the first answer has one version for
each id.
-/

namespace Smrt

structure SpoofMod where
  id : String
  version : String
  deriving DecidableEq

/-- What is claimed, in the order of the server. -/
structure Spoof where
  mods : List SpoofMod
  deriving DecidableEq

namespace Spoof

open Mcping (ServerMod ServerStatus statusOf)

/-- What a server's answer makes a pack claim. -/
def spoofFromStatus (status : ServerStatus) : Except String Spoof :=
  if ¬ status.advertisesMods then
    .error "the server does not advertise a mod list, so there is nothing to claim"
  else if status.mods = [] then
    .error "the server advertises an empty mod list; a spoof of nothing is not a spoof"
  else .ok ⟨status.mods.map fun m => ⟨m.modid, m.version⟩⟩

/-! ## What has moved -/

def expectedLine (want : SpoofMod) : String :=
  want.id ++ " " ++ want.version ++ " is expected and not claimed"

def movedLine (id claimed expected : String) : String :=
  id ++ " is claimed as " ++ claimed ++ " and expected as " ++ expected

def goneLine (claimed : SpoofMod) : String :=
  claimed.id ++ " " ++ claimed.version ++ " is claimed and no longer expected"

/-- The first mod of an id. -/
def first (s : Spoof) (id : String) : Option SpoofMod := s.mods.find? fun m => m.id = id

/-- What is said of a mod that is expected. -/
def expectedDrift (shipped : Spoof) (want : SpoofMod) : Option String :=
  match first shipped want.id with
  | none => some (expectedLine want)
  | some claimed =>
    if claimed.version ≠ want.version then
      some (movedLine want.id claimed.version want.version)
    else none

/-- What is said of a mod that is claimed. -/
def claimedDrift (current : Spoof) (claimed : SpoofMod) : Option String :=
  if current.mods.any fun m => m.id = claimed.id then none else some (goneLine claimed)

def drift (shipped current : Spoof) : List String :=
  current.mods.filterMap (expectedDrift shipped) ++ shipped.mods.filterMap (claimedDrift current)

/-! ## What a report has to be -/

/-- A line is about a mod in a version. -/
def Names (line : String) (m : SpoofMod) : Prop :=
  line = expectedLine m ∨ line = goneLine m ∨
    (∃ expected, line = movedLine m.id m.version expected) ∨
    ∃ claimed, line = movedLine m.id claimed m.version

/-- The report on two claims is empty if they are the same, and only then, and names what they do
    not have in common. -/
structure Exact (s c : Spoof) : Prop where
  empty : drift s c = [] ↔ ∀ m, m ∈ s.mods ↔ m ∈ c.mods
  named : ∀ m, m ∈ s.mods ∧ m ∉ c.mods ∨ m ∈ c.mods ∧ m ∉ s.mods →
    ∃ line ∈ drift s c, Names line m
  self : drift s s = []

/-- Each id is in one version. -/
def OneVersion (mods : List ServerMod) : Prop :=
  ∀ m ∈ mods, ∀ m' ∈ mods, m.modid = m'.modid → m.version = m'.version

section Report

variable {s c : Spoof} {m : SpoofMod}

theorem of_first {k : SpoofMod} {id : String} (h : first s id = some k) : k ∈ s.mods ∧ k.id = id :=
  ⟨List.mem_of_find?_eq_some h, by simpa using List.find?_some h⟩

/-- Nothing is said of a mod that is expected if the first one of its id is claimed in its
    version. -/
theorem expectedDrift_eq_none : expectedDrift s m = none ↔
    first s m.id = some m := by
  rw [expectedDrift]
  rcases h : first s m.id with _ | k
  · exact iff_of_false (Option.some_ne_none _) (Option.some_ne_none m).symm
  · have hid := (of_first h).2
    dsimp only
    by_cases hv : k.version = m.version
    · obtain ⟨id, version⟩ := k
      obtain ⟨id', version'⟩ := m
      obtain rfl : id = id' := hid
      obtain rfl : version = version' := hv
      exact iff_of_true (if_neg (not_not.2 rfl)) rfl
    · rw [if_pos hv]
      refine iff_of_false (Option.some_ne_none _) fun he => hv ?_
      rw [Option.some.inj he]

theorem claimedDrift_eq_none : claimedDrift c m = none ↔ ∃ k ∈ c.mods, k.id = m.id := by
  rw [claimedDrift]
  split_ifs with h
  · exact iff_of_true rfl (by simpa using h)
  · exact iff_of_false nofun (by simpa using h)

theorem drift_eq_nil : drift s c = [] ↔
    (∀ m ∈ c.mods, first s m.id = some m) ∧
      ∀ m ∈ s.mods, ∃ k ∈ c.mods, k.id = m.id := by
  rw [drift, List.append_eq_nil_iff, List.filterMap_eq_nil_iff, List.filterMap_eq_nil_iff]
  simp only [expectedDrift_eq_none, claimedDrift_eq_none]

/-- What is said of a mod that is expected names it, and the one that is claimed. -/
theorem names_of_expectedDrift {line : String} (h : expectedDrift s m = some line) :
    Names line m ∧ ∀ k, first s m.id = some k → Names line k := by
  rw [expectedDrift] at h
  rcases hf : first s m.id with _ | k
  all_goals rw [hf] at h
  · obtain rfl := Option.some.inj h
    exact ⟨.inl rfl, fun k hk => absurd hk (Option.some_ne_none k).symm⟩
  · have hid := (of_first hf).2
    dsimp only at h
    split_ifs at h
    obtain rfl := Option.some.inj h
    refine ⟨.inr (.inr (.inr ⟨k.version, rfl⟩)), fun k' hk' => ?_⟩
    obtain rfl := Option.some.inj hk'
    exact .inr (.inr (.inl ⟨m.version, by rw [hid]⟩))

/-- If each id is claimed in one version, any mod that is claimed is the first one of its id. -/
theorem first_eq_some (h : ∀ m ∈ s.mods, ∀ m' ∈ s.mods, m.id = m'.id → m = m') (hm : m ∈ s.mods) :
    first s m.id = some m := by
  rcases hf : first s m.id with _ | k
  · exact absurd (List.find?_eq_none.1 hf m hm) (by simp)
  · have hid := (of_first hf).2
    rw [h k (of_first hf).1 m hm hid]

/-- The report on a claim and itself is empty if each id is claimed in one version. -/
theorem drift_self_iff : drift s s = [] ↔
    ∀ m ∈ s.mods, ∀ m' ∈ s.mods, m.id = m'.id → m = m' := by
  rw [drift_eq_nil]
  constructor
  · rintro ⟨h, -⟩ m hm m' hm' hid
    have hfirst := h m hm
    rw [hid, h m' hm'] at hfirst
    exact (Option.some.inj hfirst).symm
  · intro h
    exact ⟨fun m hm => first_eq_some h hm, fun m hm => ⟨m, hm, rfl⟩⟩

/-- The report is exact if each id is claimed in one version. -/
theorem exact_iff : Exact s c ↔ ∀ m ∈ s.mods, ∀ m' ∈ s.mods, m.id = m'.id → m = m' := by
  refine ⟨fun h => drift_self_iff.1 h.self, fun h => ⟨?_, ?_, drift_self_iff.2 h⟩⟩
  · rw [drift_eq_nil]
    constructor
    · rintro ⟨hc, hs⟩ m
      constructor
      · intro hm
        -- Something of its id is expected, and claimed: the same.
        obtain ⟨k, hk, hid⟩ := hs m hm
        have hfirst := hc k hk
        rw [hid, first_eq_some h hm] at hfirst
        exact Option.some.inj hfirst ▸ hk
      · intro hm
        exact (of_first (hc m hm)).1
    · intro hsame
      exact ⟨fun m hm => first_eq_some h ((hsame m).2 hm), fun m hm => ⟨m, (hsame m).1 hm, rfl⟩⟩
  · rintro m (⟨hm, hn⟩ | ⟨hm, hn⟩)
    · rcases hg : claimedDrift c m with _ | line
      · obtain ⟨k, hk, hid⟩ := claimedDrift_eq_none.1 hg
        have hfirst := first_eq_some h hm
        rw [← hid] at hfirst
        rcases he : expectedDrift s k with _ | line
        · have hkm := expectedDrift_eq_none.1 he
          rw [hfirst] at hkm
          exact absurd (Option.some.inj hkm ▸ hk) hn
        · exact ⟨line, List.mem_append_left _ (List.mem_filterMap.2 ⟨k, hk, he⟩),
            (names_of_expectedDrift he).2 m hfirst⟩
      · refine ⟨line, List.mem_append_right _ (List.mem_filterMap.2 ⟨m, hm, hg⟩), .inr (.inl ?_)⟩
        rw [claimedDrift] at hg
        split_ifs at hg
        exact (Option.some.inj hg).symm
    · rcases he : expectedDrift s m with _ | line
      · exact absurd (of_first (expectedDrift_eq_none.1 he)).1 hn
      · exact ⟨line, List.mem_append_left _ (List.mem_filterMap.2 ⟨m, hm, he⟩),
          (names_of_expectedDrift he).1⟩

end Report

/-- The report on what a server said twice is exact if and only if its first answer has each id in
    one version. -/
theorem drift_exact_iff {v v' : Json} {s c : Spoof} (hs : spoofFromStatus (statusOf v) = .ok s)
    (_hc : spoofFromStatus (statusOf v') = .ok c) : Exact s c ↔ OneVersion (statusOf v).mods := by
  obtain rfl : (⟨(statusOf v).mods.map fun m => ⟨m.modid, m.version⟩⟩ : Spoof) = s := by
    rw [spoofFromStatus] at hs
    split_ifs at hs
    exact Except.ok.inj hs
  rw [exact_iff, List.forall_mem_map]
  simp only [List.forall_mem_map, SpoofMod.mk.injEq, OneVersion]
  constructor
  · intro h m hm m' hm' hid
    exact (h m hm m' hm' hid).2
  · intro h m hm m' hm' hid
    exact ⟨hid, h m hm m' hm' hid⟩

/-- An answer in the older shape. -/
def answer (mods : List (String × String)) : Json :=
  .obj [("modinfo", .obj [("modList", .arr (mods.map fun m =>
    .obj [("modid", .str m.1), ("version", .str m.2)]))])]

/-- A server that has moved one mod of two. -/
theorem drift_exact_moved : Exact ⟨[⟨"jei", "4.15.0"⟩, ⟨"gone", "1.0"⟩]⟩
    ⟨[⟨"jei", "4.16.1"⟩]⟩ ↔
      OneVersion (statusOf (answer [("jei", "4.15.0"), ("gone", "1.0")])).mods := by
  have hs : spoofFromStatus (statusOf (answer [("jei", "4.15.0"), ("gone", "1.0")])) =
      .ok ⟨[⟨"jei", "4.15.0"⟩, ⟨"gone", "1.0"⟩]⟩ := by decide
  have hc : spoofFromStatus (statusOf (answer [("jei", "4.16.1")])) =
      .ok ⟨[⟨"jei", "4.16.1"⟩]⟩ := by decide
  exact drift_exact_iff hs hc

/-- A server that lists a mod in two versions is said to have moved as soon as it is asked. -/
theorem not_drift_exact :
    spoofFromStatus (statusOf (answer [("lib", "1"), ("lib", "2")])) =
        .ok ⟨[⟨"lib", "1"⟩, ⟨"lib", "2"⟩]⟩ ∧
      drift ⟨[⟨"lib", "1"⟩, ⟨"lib", "2"⟩]⟩ ⟨[⟨"lib", "1"⟩, ⟨"lib", "2"⟩]⟩ ≠ [] ∧
      drift ⟨[⟨"lib", "1"⟩, ⟨"lib", "2"⟩]⟩ ⟨[⟨"lib", "1"⟩]⟩ = [] := by
  refine ⟨by decide, by decide, by decide⟩

end Spoof

end Smrt
