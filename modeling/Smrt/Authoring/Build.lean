import Smrt.Lib.Worklist
import Smrt.Domain.Pack
import Smrt.Registry.Classify

/-!
# Builds

A build of a config makes the card of the pack (`makePackSummary`), and the manifest. For
that it decides which mods a client must carry (`deriveRequired`) from the
classifications of the mods and the graph of their dependencies:

* server-side mods are opted out of the default install;
* the default-enabled mods that both sides must carry are required (`seeds`), and so
  is what the enabled mods depend on, transitively (`walk`): a worklist over the hard
  edges into the mods that a dependency may lock (`hardDeps`, `lockable`);
* of these, the mods that are never required, server-side or not mods at all, are
  taken out again, and a client-side mod that is left is an error, unless its verdict
  is soft (`settle`);
* every entry gets its flag and its presence class (`present`).

Proved about every list of entries and every classification:

* the *client invariant* (`deriveRequired_client_invariant`): what is required, and
  what is shown as required, is neither server-side, nor client-side by a hard
  verdict, nor a jar that is not a mod;
* what the walk locks, as a relation on the entries (`Locked`, `mem_walk_iff`), and
  when every required mod is required on account of something installed
  (`deriveRequired_justified_iff`). It is not always: the walk goes through the mods
  that are taken out afterwards.
-/

namespace Smrt

/-- The card of a build of a config. -/
def makePackSummary (cfg : PackConfig) (packVersion : String) : PackSummary where
  packId := cfg.packId
  displayName := cfg.displayName
  tagline := cfg.tagline
  minecraftVersion := cfg.minecraftVersion
  latestPackVersion := packVersion
  tags := cfg.tags
  featured := cfg.featured
  iconUrl := cfg.packMeta.iconUrl
  bannerUrl := cfg.packMeta.bannerUrl
  galleryUrls := cfg.packMeta.galleryUrls
  descriptionMd := cfg.packMeta.descriptionMd
  owner := cfg.owner
  tier := cfg.tier
  visibility := cfg.visibility
  forkOf := cfg.forkOf

/-! ## Required mods -/

/-- The classifications of the mods of a pack, by filename. -/
abbrev Classifications := String → Option Classification

/-- A hard edge of the dependency graph, from an entry to a filename. -/
def ModEntry.HardRequires (m : ModEntry) (filename : String) : Prop :=
  ∃ d, m.display = some d ∧ ∃ r ∈ d.requires, r.optional = false ∧ r.filename = filename

instance (m : ModEntry) (filename : String) : Decidable (m.HardRequires filename) :=
  decidable_of_iff
    (m.display.any fun d => d.requires.any fun r => !r.optional && r.filename = filename) (by
      simp [ModEntry.HardRequires, Option.any_eq_true])

variable (classifications : Classifications)

/-! ## What is known of an entry -/

section Entry

variable (m : ModEntry)

/-- The side of an entry. -/
def side : Option SideClass := (classifications m.filename).bind fun c => c.side

/-- Whether the jar of an entry is not a mod. -/
def nonMod : Bool := (classifications m.filename).any fun c => c.isNonMod

/-- Whether the entry is client-side by a soft verdict. -/
def soft : Bool := (classifications m.filename).any fun c => c.clientVerdictIsSoft

/-- Whether both sides must carry the entry. -/
def mustMatch : Bool := (classifications m.filename).any fun c => c.policy = some .mustMatch

/-- Whether a hard edge may lock the entry. -/
def lockable : Bool :=
  match classifications m.filename with
  | some c => if c.optionalBoth then false else c.side ≠ some .client ∨ c.clientVerdictIsSoft
  | none => true

/-- Whether the entry is required in itself. -/
def seed : Bool := m.defaultEnabled && !nonMod classifications m && mustMatch classifications m

/-- Whether the entry is never required, whatever depends on it. -/
def excluded : Bool := side classifications m = some .server ∨ nonMod classifications m

/-- A server-side mod leaves the default install. -/
def optOut : ModEntry :=
  if side classifications m = some .server then { m with defaultEnabled := false } else m

end Entry

/-! ## The walk -/

section Walk

variable (mods : List ModEntry)

/-- The index of a filename: the last one, should several entries have it. -/
def idx (filename : String) : Option ℕ :=
  (mods.zipIdx.map fun p => (p.1.filename, p.2)).reverse.lookup filename

/-- The lockable entries that an entry depends on. -/
def hardDeps (m : ModEntry) : List ℕ :=
  match m.display with
  | some d =>
    ((d.requires.filter fun r => !r.optional).filterMap fun r => idx mods r.filename).filter
      fun i => mods[i]?.any (lockable classifications)
  | none => []

/-- The dependencies of the entry at an index. -/
def depsAt (i : ℕ) : List ℕ := (mods[i]?).elim [] (hardDeps classifications mods)

/-- The entries that are required in themselves. -/
def seeds : Finset ℕ :=
  (Finset.range mods.length).filter fun i => mods[i]?.any (seed classifications)

/-- The dependencies of the enabled entries. -/
def queue : List ℕ :=
  (mods.zipIdx.filter fun p => p.1.defaultEnabled || p.2 ∈ seeds classifications mods).flatMap
    fun p => hardDeps classifications mods p.1

/-- The seeds, and what the enabled entries transitively depend on. -/
def walk : Finset ℕ :=
  Worklist.closure (depsAt classifications mods) (Finset.range mods.length)
    (seeds classifications mods) (queue classifications mods).reverse

end Walk

/-! ## The outcome -/

/-- The error for a client-side mod that would be required. -/
def clientRequired (m : ModEntry) : String :=
  "client-side mod " ++ m.filename ++ " would be locked required -- a client mod is never " ++
    "force-installed; fix the mod's classification"

/-- What is left of the required set after looking at the entry `p.1` at the index `p.2`. -/
def settle (required : Finset ℕ) (p : ModEntry × ℕ) : Except String (Finset ℕ) :=
  if p.2 ∉ required then .ok required
  else if excluded classifications p.1 then .ok (required.erase p.2)
  else if side classifications p.1 = some .client then
    if soft classifications p.1 then .ok required else .error (clientRequired p.1)
  else .ok required

/-- The presence class of an entry. -/
def presence (m : ModEntry) (required : Bool) : Option PresenceClass :=
  match classifications m.filename with
  | some c =>
    if c.isNonMod then some .coremod
    else match c.side, required with
      | some .client, false => some .optionalClient
      | some .server, _ => some .optionalServer
      | _, true => some .required
      | some .both, _ => some .optionalBoth
      | _, _ => none
  | none => if required then some .required else none

/-- The entry with its flag and its presence class. -/
def present (m : ModEntry) (required : Bool) : ModEntry :=
  match presence classifications m required with
  | some p =>
    { m with
      required
      display := some { m.display.getD .default with presence := some p } }
  | none => { m with required, display := m.display.map fun d => { d with presence := none } }

/-- The entries of a build, with what is required derived from the classifications and
    the dependencies. -/
def deriveRequired (mods : List ModEntry) : Except String (List ModEntry) := do
  let mods := mods.map (optOut classifications)
  let required ← mods.zipIdx.foldlM (settle classifications) (walk classifications mods)
  return mods.zipIdx.map fun p => present classifications p.1 (p.2 ∈ required)

/-! ## What stays of an entry -/

section Frame

variable {classifications} (m : ModEntry) (required : Bool)

@[simp] theorem filename_optOut : (optOut classifications m).filename = m.filename := by
  unfold optOut
  split_ifs <;> rfl

@[simp] theorem filename_present : (present classifications m required).filename = m.filename := by
  unfold present
  split <;> rfl

@[simp] theorem required_present : (present classifications m required).required = required := by
  unfold present
  split <;> rfl

@[simp] theorem defaultEnabled_present :
    (present classifications m required).defaultEnabled = m.defaultEnabled := by
  unfold present
  split <;> rfl

/-- The presence class of a presented entry is the one computed. -/
theorem presence_present :
    (present classifications m required).display.bind (fun d => d.presence) =
      presence classifications m required := by
  unfold present
  split
  · next p hp => simp [hp]
  · next hp => cases hd : m.display <;> simp [hp]

/-- Presenting an entry leaves its dependencies alone. -/
theorem hardRequires_present {filename : String} :
    (present classifications m required).HardRequires filename ↔ m.HardRequires filename := by
  unfold present ModEntry.HardRequires
  split <;> cases m.display <;> simp [Display.default]

/-- A server-side entry is opted out. -/
theorem defaultEnabled_optOut (h : side classifications m = some .server) :
    (optOut classifications m).defaultEnabled = false := by
  rw [optOut, if_pos h]

@[simp] theorem side_optOut : side classifications (optOut classifications m) =
    side classifications m := by
  rw [side, filename_optOut, ← side]

@[simp] theorem side_present : side classifications (present classifications m required) =
    side classifications m := by
  rw [side, filename_present, ← side]

@[simp] theorem nonMod_present : nonMod classifications (present classifications m required) =
    nonMod classifications m := by
  rw [nonMod, filename_present, ← nonMod]

@[simp] theorem soft_present : soft classifications (present classifications m required) =
    soft classifications m := by
  rw [soft, filename_present, ← soft]

@[simp] theorem mustMatch_present :
    mustMatch classifications (present classifications m required) =
      mustMatch classifications m := by
  rw [mustMatch, filename_present, ← mustMatch]

/-- An entry that may be required is shown as required exactly when it is. -/
theorem presence_eq_required (h : required = true → excluded classifications m = false) :
    presence classifications m required = some .required ↔ required = true := by
  unfold presence
  cases hc : classifications m.filename with
  | none => cases required <;> simp
  | some c =>
    simp only [excluded, side, nonMod, hc, Option.bind_some, Option.any_some] at h
    cases hn : c.isNonMod
    · simp only [hn, Bool.false_eq_true, or_false, decide_eq_false_iff_not, if_false] at h ⊢
      rcases hs : c.side with _ | _ | _ | _ <;> cases required <;> simp_all
    · cases required <;> simp_all

end Frame

/-! ## The walk locks the entries below the enabled ones -/

/-- An entry that the walk locks: one required in itself, or a lockable entry that an
    enabled or a locked one depends on. -/
inductive Locked (mods : List ModEntry) : ModEntry → Prop
  | seed {m : ModEntry} : m ∈ mods → seed classifications m → Locked mods m
  | enabled {m n : ModEntry} : m ∈ mods → m.defaultEnabled → n ∈ mods →
      m.HardRequires n.filename → lockable classifications n → Locked mods n
  | step {m n : ModEntry} : Locked mods m → n ∈ mods → m.HardRequires n.filename →
      lockable classifications n → Locked mods n

section Walk

variable {classifications} {mods : List ModEntry}

theorem Locked.mem {m : ModEntry} (h : Locked classifications mods m) : m ∈ mods := by
  cases h with
  | seed hm _ => exact hm
  | enabled _ _ hn _ _ => exact hn
  | step _ hn _ _ => exact hn

/-- The index of a filename is that of an entry with it. -/
theorem getElem?_of_idx {filename : String} {i : ℕ} (h : idx mods filename = some i) :
    ∃ n, mods[i]? = some n ∧ n.filename = filename := by
  obtain ⟨_, _, hl, _⟩ := List.lookup_eq_some_iff.1 h
  have hmem : (filename, i) ∈ mods.zipIdx.map fun p => (p.1.filename, p.2) :=
    List.mem_reverse.1 (hl ▸ List.mem_append_right _ List.mem_cons_self)
  obtain ⟨p, hp, hpi⟩ := List.mem_map.1 hmem
  obtain ⟨rfl, rfl⟩ := Prod.mk.inj hpi
  exact ⟨p.1, List.mem_zipIdx_iff_getElem?.1 hp, rfl⟩

/-- Among distinct filenames, the index of an entry's filename is its own. -/
theorem idx_of_getElem? (hn : (mods.map fun m => m.filename).Nodup) {n : ModEntry} {i : ℕ}
    (h : mods[i]? = some n) : idx mods n.filename = some i := by
  obtain ⟨j, hj⟩ : ∃ j, idx mods n.filename = some j := by
    refine Option.ne_none_iff_exists'.1 fun hnone => ?_
    have := List.lookup_eq_none_iff.1 hnone (n.filename, i)
      (List.mem_reverse.2 (List.mem_map.2 ⟨(n, i), List.mem_zipIdx_iff_getElem?.2 h, rfl⟩))
    simp at this
  obtain ⟨n', hn', hf⟩ := getElem?_of_idx hj
  have hij : i = j := by
    refine (List.getElem?_inj (by simpa using (List.getElem?_eq_some_iff.1 h).1) hn).1 ?_
    rw [List.getElem?_map, List.getElem?_map, h, hn', Option.map_some, Option.map_some, hf]
  rw [hj, hij]

/-- What `hardDeps` lists. -/
theorem mem_hardDeps {m : ModEntry} {i : ℕ} :
    i ∈ hardDeps classifications mods m ↔
      (∃ d, m.display = some d ∧ ∃ r ∈ d.requires, r.optional = false ∧
        idx mods r.filename = some i) ∧ (mods[i]?).any (lockable classifications) := by
  unfold hardDeps
  cases m.display with
  | none => simp
  | some d => simp [and_assoc]

/-- A dependency that is listed is a lockable entry, and the edge to it is there. -/
theorem of_mem_hardDeps {m : ModEntry} {i : ℕ} (h : i ∈ hardDeps classifications mods m) :
    ∃ n, mods[i]? = some n ∧ m.HardRequires n.filename ∧ lockable classifications n := by
  obtain ⟨⟨d, hd, r, hr, ho, hi⟩, hl⟩ := mem_hardDeps.1 h
  obtain ⟨n, hn, hf⟩ := getElem?_of_idx hi
  exact ⟨n, hn, ⟨d, hd, r, hr, ho, hf.symm⟩, by simpa [hn] using hl⟩

/-- Among distinct filenames, every lockable dependency is listed. -/
theorem mem_hardDeps_of_hardRequires (hn : (mods.map fun m => m.filename).Nodup)
    {m n : ModEntry} {i : ℕ} (hi : mods[i]? = some n) (hr : m.HardRequires n.filename)
    (hl : lockable classifications n) : i ∈ hardDeps classifications mods m := by
  obtain ⟨d, hd, r, hrm, ho, hf⟩ := hr
  exact mem_hardDeps.2 ⟨⟨d, hd, r, hrm, ho, hf ▸ idx_of_getElem? hn hi⟩, by simpa [hi] using hl⟩

theorem mem_seeds {i : ℕ} :
    i ∈ seeds classifications mods ↔ ∃ m, mods[i]? = some m ∧ seed classifications m := by
  rw [seeds, Finset.mem_filter, Finset.mem_range]
  cases hm : mods[i]? with
  | none => simp
  | some m => simpa using fun _ => (List.getElem?_eq_some_iff.1 hm).1

/-- The queue holds the dependencies of the enabled entries: the seeds are enabled. -/
theorem mem_queue {i : ℕ} :
    i ∈ queue classifications mods ↔
      ∃ m ∈ mods, m.defaultEnabled ∧ i ∈ hardDeps classifications mods m := by
  simp only [queue, List.mem_flatMap, List.mem_filter, Bool.or_eq_true, decide_eq_true_iff]
  constructor
  · rintro ⟨⟨m, j⟩, ⟨hm, he⟩, hi⟩
    have hj := List.mem_zipIdx_iff_getElem?.1 hm
    refine ⟨m, List.mem_of_getElem? hj, ?_, hi⟩
    rcases he with he | he
    · exact he
    · obtain ⟨m', hm', hs⟩ := mem_seeds.1 he
      obtain rfl : m = m' := Option.some.inj (hj.symm.trans hm')
      simp only [seed, Bool.and_eq_true] at hs
      exact hs.1.1
  · rintro ⟨m, hm, he, hi⟩
    obtain ⟨j, hj⟩ := List.getElem?_of_mem hm
    exact ⟨(m, j), ⟨List.mem_zipIdx_iff_getElem?.2 hj, .inl he⟩, hi⟩

theorem mem_depsAt {i j : ℕ} :
    j ∈ depsAt classifications mods i ↔
      ∃ m, mods[i]? = some m ∧ j ∈ hardDeps classifications mods m := by
  unfold depsAt
  cases mods[i]? <;> simp

theorem supported_depsAt :
    Worklist.Supported (depsAt classifications mods) (Finset.range mods.length) := by
  intro i hi
  have : mods[i]? = none := List.getElem?_eq_none (by simpa using hi)
  rw [depsAt, this, Option.elim_none]

/-- The dependencies of the seeds are on the queue. -/
theorem flushed_seeds : Worklist.Flushed (depsAt classifications mods)
    (seeds classifications mods) (queue classifications mods).reverse := by
  intro i hi j hj
  obtain ⟨m, hm, hs⟩ := mem_seeds.1 hi
  obtain ⟨m', hm', hj⟩ := mem_depsAt.1 hj
  obtain rfl : m = m' := Option.some.inj (hm.symm.trans hm')
  simp only [seed, Bool.and_eq_true] at hs
  exact .inr (List.mem_reverse.2 (mem_queue.2 ⟨m, List.mem_of_getElem? hm, hs.1.1, hj⟩))

/-- The walk only locks what is locked. -/
theorem locked_of_mem_walk {i : ℕ} (h : i ∈ walk classifications mods) :
    ∃ m, mods[i]? = some m ∧ Locked classifications mods m := by
  rcases Worklist.reached_of_mem_closure supported_depsAt i h with h | ⟨j, hj, hr⟩
  · obtain ⟨m, hm, hs⟩ := mem_seeds.1 h
    exact ⟨m, hm, .seed (List.mem_of_getElem? hm) hs⟩
  · clear h
    induction hr with
    | refl =>
      obtain ⟨m, hm, he, hi⟩ := mem_queue.1 (List.mem_reverse.1 hj)
      obtain ⟨n, hn, hr, hl⟩ := of_mem_hardDeps hi
      exact ⟨n, hn, .enabled hm he (List.mem_of_getElem? hn) hr hl⟩
    | tail _ hkl ih =>
      obtain ⟨m, hm, hlm⟩ := ih
      obtain ⟨m', hm', hi⟩ := mem_depsAt.1 hkl
      obtain rfl : m = m' := Option.some.inj (hm.symm.trans hm')
      obtain ⟨n, hn, hr, hl⟩ := of_mem_hardDeps hi
      exact ⟨n, hn, .step hlm (List.mem_of_getElem? hn) hr hl⟩

/-- Among distinct filenames, the walk locks everything that is locked. -/
theorem mem_walk_of_locked (hn : (mods.map fun m => m.filename).Nodup) {m : ModEntry}
    (h : Locked classifications mods m) :
    ∀ i, mods[i]? = some m → i ∈ walk classifications mods := by
  induction h with
  | seed _ hs =>
    exact fun i hi => Worklist.subset_closure supported_depsAt _ _ (mem_seeds.2 ⟨_, hi, hs⟩)
  | enabled hm he _ hr hl =>
    intro i hi
    refine Worklist.mem_closure_of_mem_stack supported_depsAt i ?_
    exact List.mem_reverse.2
      (mem_queue.2 ⟨_, hm, he, mem_hardDeps_of_hardRequires hn hi hr hl⟩)
  | step hlm _ hr hl ih =>
    intro i hi
    obtain ⟨j, hj⟩ := List.getElem?_of_mem hlm.mem
    exact Worklist.mem_closure_of_mem_succ supported_depsAt flushed_seeds (ih j hj)
      (mem_depsAt.2 ⟨_, hj, mem_hardDeps_of_hardRequires hn hi hr hl⟩)

/-- Among distinct filenames, the walk locks exactly what is locked. -/
theorem mem_walk_iff (hn : (mods.map fun m => m.filename).Nodup) {m : ModEntry} {i : ℕ}
    (hi : mods[i]? = some m) : i ∈ walk classifications mods ↔ Locked classifications mods m := by
  refine ⟨fun h => ?_, fun h => mem_walk_of_locked hn h i hi⟩
  obtain ⟨m', hm', hl⟩ := locked_of_mem_walk h
  obtain rfl : m = m' := Option.some.inj (hi.symm.trans hm')
  exact hl

end Walk

/-! ## What is left of the required set -/

/-- A locked entry that the build refuses: client-side by a hard verdict. -/
def Offends (m : ModEntry) : Prop :=
  excluded classifications m = false ∧ side classifications m = some .client ∧
    soft classifications m = false

section Settle

variable {classifications}

/-- What one entry leaves of the required set: all but its own index, if it is never
    required. If it stays required, it does not offend. -/
theorem settle_eq_ok {required required' : Finset ℕ} {p : ModEntry × ℕ}
    (h : settle classifications required p = .ok required') :
    (∀ i, i ∈ required' ↔ i ∈ required ∧ (p.2 = i → excluded classifications p.1 = false)) ∧
      (p.2 ∈ required' → ¬ Offends classifications p.1) := by
  unfold settle at h
  split_ifs at h with hmem hex hc hs <;> cases h
  · refine ⟨fun i => ?_, fun _ ho => absurd ho.1 (by simp [hex])⟩
    rw [Finset.mem_erase, and_comm, ne_comm]
    simp [hex]
  · exact ⟨fun i => by simp [hex], fun _ ho => absurd ho.2.2 (by simp [hs])⟩
  · exact ⟨fun i => by simp [hex], fun _ ho => absurd ho.2.1 hc⟩
  · refine ⟨fun i => ?_, fun h => absurd h hmem⟩
    exact ⟨fun hi => ⟨hi, fun hip => absurd (hip ▸ hi) hmem⟩, And.left⟩

theorem settle_eq_error {required : Finset ℕ} {p : ModEntry × ℕ} {e : String}
    (h : settle classifications required p = .error e) :
    p.2 ∈ required ∧ Offends classifications p.1 ∧ e = clientRequired p.1 := by
  unfold settle at h
  split_ifs at h with hmem hex hc hs
  cases h
  exact ⟨hmem, ⟨by simpa using hex, hc, by simpa using hs⟩, rfl⟩

/-- What all entries leave of the required set. -/
theorem foldlM_settle_eq_ok {entries : List (ModEntry × ℕ)} {required required' : Finset ℕ}
    (h : entries.foldlM (settle classifications) required = .ok required') :
    (∀ i, i ∈ required' ↔
        i ∈ required ∧ ∀ p ∈ entries, p.2 = i → excluded classifications p.1 = false) ∧
      ∀ p ∈ entries, p.2 ∈ required' → ¬ Offends classifications p.1 := by
  induction entries generalizing required with
  | nil => cases h; simp
  | cons p entries ih =>
    rw [List.foldlM_cons] at h
    cases hp : settle classifications required p with
    | error e => rw [hp] at h; cases h
    | ok r =>
      rw [hp] at h
      obtain ⟨hr, hno⟩ := settle_eq_ok hp
      obtain ⟨hr', hno'⟩ := ih h
      refine ⟨fun i => by rw [hr', hr, and_assoc, List.forall_mem_cons], ?_⟩
      rw [List.forall_mem_cons]
      exact ⟨fun hi => hno ((hr' _).1 hi).1, hno'⟩

/-- The error is about an entry of the required set that offends. -/
theorem foldlM_settle_eq_error {entries : List (ModEntry × ℕ)} {required : Finset ℕ} {e : String}
    (h : entries.foldlM (settle classifications) required = .error e) :
    ∃ p ∈ entries, p.2 ∈ required ∧ Offends classifications p.1 ∧
      e = clientRequired p.1 := by
  induction entries generalizing required with
  | nil => cases h
  | cons p entries ih =>
    rw [List.foldlM_cons] at h
    cases hp : settle classifications required p with
    | error e' =>
      rw [hp] at h
      cases h
      exact ⟨p, List.mem_cons_self, settle_eq_error hp⟩
    | ok r =>
      rw [hp] at h
      obtain ⟨q, hq, hqr, ho⟩ := ih h
      exact ⟨q, List.mem_cons_of_mem _ hq, (((settle_eq_ok hp).1 _).1 hqr).1, ho⟩

end Settle

/-! ## The derived entries -/

section Derive

variable {classifications} {mods out : List ModEntry}

/-- What `deriveRequired` gives: the opted-out entries, presented with what is left of
    the walk. -/
theorem deriveRequired_eq_ok (h : deriveRequired classifications mods = .ok out) :
    ∃ required : Finset ℕ,
      out = (mods.map (optOut classifications)).zipIdx.map
        (fun p => present classifications p.1 (p.2 ∈ required)) ∧
      ∀ i m, (mods.map (optOut classifications))[i]? = some m →
        (i ∈ required ↔ i ∈ walk classifications (mods.map (optOut classifications)) ∧
          excluded classifications m = false) ∧
        (i ∈ required → ¬ Offends classifications m) := by
  simp only [deriveRequired] at h
  cases hr : (mods.map (optOut classifications)).zipIdx.foldlM (settle classifications)
    (walk classifications (mods.map (optOut classifications))) with
  | error e => rw [hr] at h; cases h
  | ok required =>
    rw [hr] at h
    obtain ⟨hmem, hno⟩ := foldlM_settle_eq_ok hr
    refine ⟨required, (Except.ok.inj h).symm, fun i m hm => ?_⟩
    have hmi : (m, i) ∈ (mods.map (optOut classifications)).zipIdx :=
      List.mem_zipIdx_iff_getElem?.2 hm
    refine ⟨?_, hno (m, i) hmi⟩
    rw [hmem]
    refine and_congr_right fun _ => ⟨fun hp => hp (m, i) hmi rfl, fun hex p hp hpi => ?_⟩
    rw [List.mem_zipIdx_iff_getElem?, hpi, hm, Option.some.injEq] at hp
    exact hp ▸ hex

/-- The error of `deriveRequired` is about a locked entry that offends. -/
theorem deriveRequired_eq_error {e : String} (h : deriveRequired classifications mods = .error e) :
    ∃ m, Locked classifications (mods.map (optOut classifications)) m ∧
      Offends classifications m ∧ e = clientRequired m := by
  simp only [deriveRequired] at h
  cases hr : (mods.map (optOut classifications)).zipIdx.foldlM (settle classifications)
    (walk classifications (mods.map (optOut classifications))) with
  | ok required => rw [hr] at h; cases h
  | error e' =>
    rw [hr] at h
    cases h
    obtain ⟨p, hp, hw, ho, he⟩ := foldlM_settle_eq_error hr
    obtain ⟨m, hm, hl⟩ := locked_of_mem_walk hw
    obtain rfl : p.1 = m := Option.some.inj ((List.mem_zipIdx_iff_getElem?.1 hp).symm.trans hm)
    exact ⟨p.1, hl, ho, he⟩

/-- A derived entry is an opted-out one, presented; it is required only if it is locked,
    may be required, and does not offend. -/
theorem of_mem_derived (h : deriveRequired classifications mods = .ok out) {o : ModEntry}
    (ho : o ∈ out) :
    ∃ m ∈ mods.map (optOut classifications), ∃ required : Bool,
      o = present classifications m required ∧
        (required = true → Locked classifications (mods.map (optOut classifications)) m ∧
          excluded classifications m = false ∧ ¬ Offends classifications m) := by
  obtain ⟨required, rfl, hreq⟩ := deriveRequired_eq_ok h
  obtain ⟨⟨m, i⟩, hp, rfl⟩ := List.mem_map.1 ho
  have hm := List.mem_zipIdx_iff_getElem?.1 hp
  refine ⟨m, List.mem_of_getElem? hm, _, rfl, fun hi => ?_⟩
  have hi := of_decide_eq_true hi
  obtain ⟨hw, hex⟩ := (hreq i m hm).1.1 hi
  obtain ⟨m', hm', hl⟩ := locked_of_mem_walk hw
  obtain rfl : m = m' := Option.some.inj (hm.symm.trans hm')
  exact ⟨hl, hex, (hreq i m hm).2 hi⟩

/-- Among distinct filenames, every opted-out entry is derived, and required exactly if
    it is locked and may be required. -/
theorem mem_derived (hn : (mods.map fun m => m.filename).Nodup)
    (h : deriveRequired classifications mods = .ok out) {m : ModEntry}
    (hm : m ∈ mods.map (optOut classifications)) :
    ∃ required : Bool, present classifications m required ∈ out ∧
      (required = true ↔ Locked classifications (mods.map (optOut classifications)) m ∧
        excluded classifications m = false) := by
  obtain ⟨required, rfl, hreq⟩ := deriveRequired_eq_ok h
  obtain ⟨i, hi⟩ := List.getElem?_of_mem hm
  refine ⟨_, List.mem_map.2 ⟨(m, i), List.mem_zipIdx_iff_getElem?.2 hi, rfl⟩, ?_⟩
  rw [decide_eq_true_iff, (hreq i m hi).1, mem_walk_iff _ hi]
  simpa [Function.comp_def] using hn

/-! ## The client invariant -/

/-- What `deriveRequired` gives keeps the client invariant: nothing server-side and no
    jar that is not a mod is required, nothing client-side is unless its verdict is soft,
    server-side mods are opted out, and an entry is shown as required exactly when it is.
    It fails only on a client-side mod with a hard verdict that it would have locked. -/
theorem deriveRequired_client_invariant (classifications : Classifications)
    (mods : List ModEntry) :
    match deriveRequired classifications mods with
    | .ok out => ∀ m ∈ out,
        (side classifications m = some .server ∨ nonMod classifications m = true →
          m.required = false) ∧
        (side classifications m = some .client → m.required = true →
          soft classifications m = true) ∧
        (side classifications m = some .server → m.defaultEnabled = false) ∧
        (m.required = true ↔ m.display.bind (fun d => d.presence) = some .required)
    | .error e => ∃ m ∈ mods, Locked classifications (mods.map (optOut classifications)) m ∧
        side classifications m = some .client ∧ soft classifications m = false ∧
        excluded classifications m = false ∧ e = clientRequired m := by
  split
  · next out h =>
    intro o ho
    obtain ⟨m, hm, required, rfl, hreq⟩ := of_mem_derived h ho
    simp only [side_present, nonMod_present, soft_present, required_present,
      defaultEnabled_present, presence_present]
    refine ⟨fun hex => ?_, fun hc hr => ?_, fun hs => ?_, ?_⟩
    · cases required with
      | false => rfl
      | true =>
        have := (hreq rfl).2.1
        simp only [excluded, decide_eq_false_iff_not] at this
        exact absurd hex this
    · obtain ⟨_, hex, hno⟩ := hreq hr
      by_contra hns
      exact hno ⟨hex, hc, by simpa using hns⟩
    · obtain ⟨n, _, rfl⟩ := List.mem_map.1 hm
      exact defaultEnabled_optOut n (by simpa using hs)
    · exact (presence_eq_required m required fun hr => (hreq hr).2.1).symm
  · next e h =>
    obtain ⟨m, hl, ⟨hex, hc, hs⟩, he⟩ := deriveRequired_eq_error h
    obtain ⟨n, hn, rfl⟩ := List.mem_map.1 hl.mem
    -- A client-side entry is not touched by the opting out.
    have hopt : optOut classifications n = n := by
      rw [optOut, if_neg (by rw [side_optOut] at hc; simp [hc])]
    rw [hopt] at hl hex hc hs he
    exact ⟨n, hn, hl, hc, hs, hex, he⟩

/-! ## On whose account a mod is required -/

/-- Every required entry is required in itself, or on account of an entry that is
    installed: one that is enabled, or required too. -/
def Justified (classifications : Classifications) (out : List ModEntry) : Prop :=
  ∀ m ∈ out, m.required = true →
    (m.defaultEnabled = true ∧ mustMatch classifications m = true) ∨
      ∃ n ∈ out, (n.defaultEnabled = true ∨ n.required = true) ∧ n.HardRequires m.filename

instance (classifications : Classifications) (out : List ModEntry) :
    Decidable (Justified classifications out) :=
  inferInstanceAs (Decidable (∀ m ∈ out, m.required = true → _ ∨ _))

/-- What the walk locks on account of an entry that it takes out again, and that nobody
    enabled, is locked on account of something installed as well. -/
def LockedByInstalled (classifications : Classifications) (mods : List ModEntry) : Prop :=
  ∀ k, Locked classifications mods k → excluded classifications k = true →
    k.defaultEnabled = false → ∀ m ∈ mods, k.HardRequires m.filename →
      lockable classifications m = true → excluded classifications m = false →
        seed classifications m = false →
          ∃ n ∈ mods, n.HardRequires m.filename ∧ (n.defaultEnabled = true ∨
            Locked classifications mods n ∧ excluded classifications n = false)

/-- An entry that may be required and is enabled and carried by both sides is a seed. -/
theorem seed_of_mustMatch {m : ModEntry} (hex : excluded classifications m = false)
    (he : m.defaultEnabled = true) (hp : mustMatch classifications m = true) :
    seed classifications m = true := by
  simp only [excluded, decide_eq_false_iff_not, not_or, Bool.not_eq_true] at hex
  simp [seed, he, hex.2, hp]

/-- The required entries are justified exactly when those locked behind the entries that
    are taken out are locked by something installed too. -/
theorem deriveRequired_justified_iff (hn : (mods.map fun m => m.filename).Nodup)
    (h : deriveRequired classifications mods = .ok out) :
    Justified classifications out ↔
      LockedByInstalled classifications (mods.map (optOut classifications)) := by
  constructor
  · intro hj k hk hkex hke m hm hkm hlm hmex hms
    -- The entry behind `k` is locked and may be required, so it is.
    obtain ⟨required, hmo, hreq⟩ := mem_derived hn h hm
    have hr := hreq.2 ⟨.step hk hm hkm hlm, hmex⟩
    rcases hj _ hmo (by simpa using hr) with ⟨he, hp⟩ | ⟨o, ho, hon, hor⟩
    · rw [defaultEnabled_present] at he
      rw [mustMatch_present] at hp
      rw [seed_of_mustMatch hmex he hp] at hms
      exact absurd hms (by simp)
    · obtain ⟨n, hnm, required', rfl, hreq'⟩ := of_mem_derived h ho
      rw [hardRequires_present, filename_present] at hor
      refine ⟨n, hnm, hor, ?_⟩
      rw [defaultEnabled_present, required_present] at hon
      exact hon.imp_right fun hr => ⟨(hreq' hr).1, (hreq' hr).2.1⟩
  · intro hl o ho hr
    obtain ⟨m, hm, required, rfl, hreq⟩ := of_mem_derived h ho
    rw [required_present] at hr
    obtain ⟨hlm, hmex, _⟩ := hreq hr
    rw [defaultEnabled_present, mustMatch_present, filename_present]
    by_cases hms : seed classifications m = true
    · simp only [seed, Bool.and_eq_true] at hms
      exact .inl ⟨hms.1.1, hms.2⟩
    -- An entry that requires `m`, and is enabled or locked and not taken out.
    obtain ⟨n, hnm, hnr, hni⟩ : ∃ n ∈ mods.map (optOut classifications),
        n.HardRequires m.filename ∧ (n.defaultEnabled = true ∨
          Locked classifications (mods.map (optOut classifications)) n ∧
            excluded classifications n = false) := by
      cases hlm with
      | seed _ hs => exact absurd hs hms
      | enabled hn he _ hr _ => exact ⟨_, hn, hr, .inl he⟩
      | @step k _ hk _ hkm hlm =>
        cases hke : k.defaultEnabled with
        | true => exact ⟨k, hk.mem, hkm, .inl hke⟩
        | false =>
          cases hkex : excluded classifications k with
          | false => exact ⟨k, hk.mem, hkm, .inr ⟨hk, hkex⟩⟩
          | true => exact hl k hk hkex hke m hm hkm hlm hmex (by simpa using hms)
    obtain ⟨required', hno, hreq'⟩ := mem_derived hn h hnm
    refine .inr ⟨_, hno, ?_, (hardRequires_present n required').2 hnr⟩
    rw [defaultEnabled_present, required_present]
    exact hni.imp_right hreq'.2

/-- A mod of the default install that needs a server-side mod, which needs a library
    nobody enabled. -/
def serverChain : List ModEntry :=
  let entry (filename : String) (defaultEnabled : Bool) (needs : List String) : ModEntry :=
    { filename, sha1 := "", sizeBytes := 0, required := false, defaultEnabled,
      source := .smrtCache "", slug := none
      display := some { Display.default with
        requires := needs.map fun f => { filename := f, versionRange := none, optional := false } } }
  [entry "a.jar" true ["s.jar"], entry "s.jar" true ["l.jar"], entry "l.jar" false []]

/-- Of the chain, only the mod in the middle is classified: it is server-side, or not. -/
def chainClassified (s : SideClass) : Classifications := fun filename =>
  if filename = "s.jar" then
    some { side := some s, policy := some .tolerant, kind := none, provenance := .modrinthEnv,
           bytecodeSide := none, bytecodePolicy := none, sideConfidence := some "high",
           optionalBoth := false }
  else none

/-- With a mod of both sides in the middle of the chain, what is required is justified. -/
theorem deriveRequired_justified_both :
    ∃ out, deriveRequired (chainClassified .both) serverChain = .ok out ∧
      (Justified (chainClassified .both) out ↔
        LockedByInstalled (chainClassified .both)
          (serverChain.map (optOut (chainClassified .both)))) :=
  ⟨_, rfl, deriveRequired_justified_iff (by decide) rfl⟩

/-- With a server-side mod in the middle of the chain, the library is required on
    account of that mod alone, which is neither enabled nor required. -/
theorem deriveRequired_not_justified :
    (serverChain.map fun m => m.filename).Nodup ∧
      ∃ out, deriveRequired (chainClassified .server) serverChain = .ok out ∧
        ¬ Justified (chainClassified .server) out :=
  ⟨by decide, _, rfl, by decide⟩

end Derive

end Smrt
