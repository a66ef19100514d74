import Smrt.Authoring.Build

/-!
# What a build locks

The other half of `deriveRequired`: nothing that has to be required is left out. What an installed
entry depends on is required, unless it is one that a dependency does not lock or that is never
required, and so is every enabled mod that both sides must carry.

What is required depends on the entries as a set (`required_iff`), and presenting the entries moves
nothing that it depends on. So it is the same in every order of the entries, and deriving it again
changes nothing: `locksAll`.
-/

namespace Smrt

variable (classifications : Classifications)

/-- Whether the entry is optional on both sides. -/
def optionalBoth (m : ModEntry) : Bool := (classifications m.filename).any fun c => c.optionalBoth

/-- Entries that nothing is missing from, whatever the order that they were made in. -/
structure LocksAll (mods out : List ModEntry) : Prop where
  /-- What an installed entry depends on is required, unless it may not be. -/
  closed : ∀ m ∈ out, m.defaultEnabled = true ∨ m.required = true → ∀ t ∈ out,
    m.HardRequires t.filename → t.required = true ∨ side classifications t = some .server ∨
      nonMod classifications t = true ∨ optionalBoth classifications t = true ∨
      side classifications t = some .client ∧ soft classifications t = false
  mustMatch : ∀ m ∈ out, m.defaultEnabled = true → mustMatch classifications m = true →
    nonMod classifications m = false → m.required = true
  perm : ∀ mods' : List ModEntry, mods'.Perm mods →
    ∃ out', deriveRequired classifications mods' = .ok out' ∧ out'.Perm out
  again : deriveRequired classifications out = .ok out

variable {classifications}

/-! ## Entries that depend on each other alike -/

section Locked

variable {mods mods' : List ModEntry} {m : ModEntry}

/-- What is locked among some entries is locked among more. -/
theorem Locked.mono (h : Locked classifications mods m) (hsub : ∀ n ∈ mods, n ∈ mods') :
    Locked classifications mods' m := by
  induction h with
  | seed hm hs => exact .seed (hsub _ hm) hs
  | enabled hm he hn hr hl => exact .enabled (hsub _ hm) he (hsub _ hn) hr hl
  | step _ hn hr hl ih => exact .step ih (hsub _ hn) hr hl

/-- A change of entries that nothing about their locks depends on. -/
structure Keeping (φ : ModEntry → ModEntry) : Prop where
  filename : ∀ m, (φ m).filename = m.filename
  defaultEnabled : ∀ m, (φ m).defaultEnabled = m.defaultEnabled
  hardRequires : ∀ m f, (φ m).HardRequires f ↔ m.HardRequires f

variable {φ : ModEntry → ModEntry}

theorem Keeping.seed (h : Keeping φ) : seed classifications (φ m) = seed classifications m := by
  rw [Smrt.seed, Smrt.nonMod, Smrt.mustMatch, h.filename, h.defaultEnabled, ← Smrt.nonMod,
    ← Smrt.mustMatch, ← Smrt.seed]

theorem Keeping.lockable (h : Keeping φ) :
    lockable classifications (φ m) = lockable classifications m := by
  rw [Smrt.lockable, h.filename, ← Smrt.lockable]

theorem Keeping.excluded (h : Keeping φ) :
    excluded classifications (φ m) = excluded classifications m := by
  rw [Smrt.excluded, Smrt.side, Smrt.nonMod, h.filename, ← Smrt.side, ← Smrt.nonMod,
    ← Smrt.excluded]

theorem Locked.map (h : Locked classifications mods m) (hφ : Keeping φ) :
    Locked classifications (mods.map φ) (φ m) := by
  induction h with
  | seed hm hs => exact .seed (List.mem_map_of_mem hm) (hφ.seed.trans hs)
  | @enabled m n hm he hn hr hl =>
    refine .enabled (List.mem_map_of_mem hm) ((hφ.defaultEnabled m).trans he)
      (List.mem_map_of_mem hn) ?_ (hφ.lockable.trans hl)
    rwa [hφ.filename, hφ.hardRequires]
  | @step m n _ hn hr hl ih =>
    refine .step ih (List.mem_map_of_mem hn) ?_ (hφ.lockable.trans hl)
    rwa [hφ.filename, hφ.hardRequires]

theorem Locked.of_map {o : ModEntry} (h : Locked classifications (mods.map φ) o) (hφ : Keeping φ) :
    ∃ m, φ m = o ∧ Locked classifications mods m := by
  induction h with
  | seed hmem hs =>
    obtain ⟨m, hm, rfl⟩ := List.mem_map.1 hmem
    exact ⟨m, rfl, .seed hm (hφ.seed.symm.trans hs)⟩
  | enabled hmem he hmem' hr hl =>
    obtain ⟨m, hm, rfl⟩ := List.mem_map.1 hmem
    obtain ⟨n, hn, rfl⟩ := List.mem_map.1 hmem'
    rw [hφ.filename, hφ.hardRequires] at hr
    exact ⟨n, rfl, .enabled hm ((hφ.defaultEnabled m).symm.trans he) hn hr
      (hφ.lockable.symm.trans hl)⟩
  | step _ hmem' hr hl ih =>
    obtain ⟨m, rfl, hm⟩ := ih
    obtain ⟨n, hn, rfl⟩ := List.mem_map.1 hmem'
    rw [hφ.filename, hφ.hardRequires] at hr
    exact ⟨n, rfl, .step hm hn hr (hφ.lockable.symm.trans hl)⟩

end Locked

/-! ## What is required -/

section Required

variable {mods out : List ModEntry}

theorem nodup_optOut (hn : (mods.map fun m => m.filename).Nodup) :
    ((mods.map (optOut classifications)).map fun m => m.filename).Nodup := by
  rw [List.map_map]
  simpa only [Function.comp_def, filename_optOut] using hn

open Classical in
/-- Whether an entry is locked among some, and may be required. -/
noncomputable def requiredAmong (classifications : Classifications) (mods : List ModEntry)
    (m : ModEntry) : Bool :=
  decide (Locked classifications mods m ∧ excluded classifications m = false)

theorem requiredAmong_iff {m : ModEntry} : requiredAmong classifications mods m = true ↔
    Locked classifications mods m ∧ excluded classifications m = false := by
  simp only [requiredAmong, decide_eq_true_eq]

/-- What is derived is every entry, presented as required if it is locked and may be. -/
theorem deriveRequired_eq_map (hn : (mods.map fun m => m.filename).Nodup)
    (h : deriveRequired classifications mods = .ok out) :
    out = (mods.map (optOut classifications)).map fun m => present classifications m
      (requiredAmong classifications (mods.map (optOut classifications)) m) := by
  obtain ⟨required, rfl, hreq⟩ := deriveRequired_eq_ok h
  conv_rhs => rw [← List.zipIdx_map_fst 0 (mods.map (optOut classifications)), List.map_map]
  refine List.map_congr_left fun p hp => ?_
  have hi := List.mem_zipIdx_iff_getElem?.1 hp
  have hsame : decide (p.2 ∈ required) = requiredAmong classifications
      ((mods.map (optOut classifications)).zipIdx.map Prod.fst) p.1 := by
    rw [List.zipIdx_map_fst, Bool.eq_iff_iff, decide_eq_true_iff, requiredAmong_iff,
      (hreq _ _ hi).1, mem_walk_iff (nodup_optOut hn) hi]
  rw [Function.comp_apply, hsame]

/-- The entries are derived unless one that is locked offends. -/
theorem deriveRequired_isOk (hn : (mods.map fun m => m.filename).Nodup) :
    (∃ out, deriveRequired classifications mods = .ok out) ↔
      ∀ m, Locked classifications (mods.map (optOut classifications)) m →
        ¬ Offends classifications m := by
  constructor
  · rintro ⟨out, h⟩ m hm hoff
    obtain ⟨required, -, hreq⟩ := deriveRequired_eq_ok h
    obtain ⟨i, hi⟩ := List.getElem?_of_mem hm.mem
    have hwalk := (mem_walk_iff (nodup_optOut hn) hi).2 hm
    exact (hreq i m hi).2 ((hreq i m hi).1.2 ⟨hwalk, hoff.1⟩) hoff
  · intro h
    rcases hd : deriveRequired classifications mods with e | out
    · obtain ⟨m, hm, hoff, -⟩ := deriveRequired_eq_error hd
      exact absurd hoff (h m hm)
    · exact ⟨out, rfl⟩

/-- The required entries do not depend on the order. -/
theorem deriveRequired_perm (hn : (mods.map fun m => m.filename).Nodup)
    (h : deriveRequired classifications mods = .ok out) {mods' : List ModEntry}
    (hp : mods'.Perm mods) :
    ∃ out', deriveRequired classifications mods' = .ok out' ∧ out'.Perm out := by
  have hn' : (mods'.map fun m => m.filename).Nodup := (hp.map _).nodup_iff.2 hn
  have hopt : (mods'.map (optOut classifications)).Perm (mods.map (optOut classifications)) :=
    hp.map _
  have hlocked : ∀ m, Locked classifications (mods'.map (optOut classifications)) m ↔
      Locked classifications (mods.map (optOut classifications)) m :=
    fun m => ⟨fun h => h.mono fun _ => hopt.mem_iff.1, fun h => h.mono fun _ => hopt.mem_iff.2⟩
  obtain ⟨out', h'⟩ := (deriveRequired_isOk hn').2 fun m hm =>
    (deriveRequired_isOk hn).1 ⟨out, h⟩ m ((hlocked m).1 hm)
  refine ⟨out', h', ?_⟩
  have hreq : requiredAmong classifications (mods'.map (optOut classifications)) =
      requiredAmong classifications (mods.map (optOut classifications)) := by
    funext m
    rw [Bool.eq_iff_iff, requiredAmong_iff, requiredAmong_iff, hlocked]
  rw [deriveRequired_eq_map hn h, deriveRequired_eq_map hn' h', hreq]
  exact hopt.map _

/-- Presenting an entry, and presenting it again. -/
theorem present_again (m : ModEntry) (required : Bool) :
    present classifications (present classifications m required) required =
      present classifications m required := by
  have hpresence : presence classifications (present classifications m required) required =
      presence classifications m required := by
    rw [presence, filename_present, ← presence]
  rcases hp : presence classifications m required with _ | p
  · have hone : present classifications m required = { m with
        required, display := m.display.map fun d => { d with presence := none } } := by
      rw [present, hp]
    rw [present, hpresence, hp, hone]
    dsimp only
    rw [Option.map_map]
    rfl
  · have hone : present classifications m required = { m with
        required, display := some { m.display.getD .default with presence := some p } } := by
      rw [present, hp]
    rw [present, hpresence, hp, hone]
    rfl

theorem optionalBoth_present (m : ModEntry) (required : Bool) :
    optionalBoth classifications (present classifications m required) =
      optionalBoth classifications m := by
  rw [optionalBoth, filename_present, ← optionalBoth]

theorem keeping_present (f : ModEntry → Bool) :
    Keeping fun m => present classifications m (f m) where
  filename m := filename_present m _
  defaultEnabled m := defaultEnabled_present m _
  hardRequires m _ := hardRequires_present m _

/-- An entry that was derived is opted out already. -/
theorem optOut_present (m : ModEntry) (required : Bool) :
    optOut classifications (present classifications (optOut classifications m) required) =
      present classifications (optOut classifications m) required := by
  rw [optOut, side_present, side_optOut]
  split_ifs with hs
  · have hoff : (present classifications (optOut classifications m) required).defaultEnabled =
        false := by
      rw [defaultEnabled_present, defaultEnabled_optOut m hs]
    rw [← hoff]
  · rfl

/-- Deriving what is required again changes nothing. -/
theorem deriveRequired_again (hn : (mods.map fun m => m.filename).Nodup)
    (h : deriveRequired classifications mods = .ok out) :
    deriveRequired classifications out = .ok out := by
  have hout := deriveRequired_eq_map hn h
  generalize hmods : mods.map (optOut classifications) = opted at hout
  have hnames : (opted.map fun m => m.filename).Nodup := hmods ▸ nodup_optOut hn
  have hφ : Keeping fun m => present classifications m (requiredAmong classifications opted m) :=
    keeping_present _
  have hnout : (out.map fun m => m.filename).Nodup := by
    rw [hout, List.map_map]
    simpa only [Function.comp_def, filename_present] using hnames
  -- What was derived is opted out already.
  have hopt : out.map (optOut classifications) = out := by
    rw [hout, ← hmods, List.map_map, List.map_map, List.map_map]
    exact List.map_congr_left fun m _ => optOut_present m _
  have hlocked : ∀ m ∈ opted, Locked classifications out
      (present classifications m (requiredAmong classifications opted m)) ↔
      Locked classifications opted m := by
    intro m hm
    rw [hout]
    constructor
    · intro hl
      obtain ⟨n, hsame, hn⟩ := hl.of_map hφ
      have hname : n.filename = m.filename := by
        rw [← hφ.filename n, ← hφ.filename m, hsame]
      exact List.inj_on_of_nodup_map hnames hn.mem hm hname ▸ hn
    · exact fun hl => hl.map hφ
  have hagain : ∀ m ∈ opted, requiredAmong classifications out
      (present classifications m (requiredAmong classifications opted m)) =
      requiredAmong classifications opted m := by
    intro m hm
    rw [Bool.eq_iff_iff, requiredAmong_iff, requiredAmong_iff, hlocked m hm]
    exact and_congr_right fun _ => by rw [hφ.excluded]
  obtain ⟨out', h'⟩ : ∃ out', deriveRequired classifications out = .ok out' := by
    refine (deriveRequired_isOk hnout).2 fun o ho hoff => ?_
    rw [hopt, hout] at ho
    obtain ⟨m, rfl, hm⟩ := ho.of_map hφ
    rw [Offends, hφ.excluded, side_present, soft_present] at hoff
    exact (deriveRequired_isOk hn).1 ⟨out, h⟩ m (hmods ▸ hm) hoff
  have hsame : out' = out := by
    rw [deriveRequired_eq_map hnout h', hopt]
    generalize hreq : requiredAmong classifications out = again at hagain
    rw [hout, List.map_map]
    refine List.map_congr_left fun m hm => ?_
    rw [Function.comp_apply, hagain m hm, present_again]
  rw [h', hsame]

/-- What a dependency does not lock. -/
theorem of_not_lockable {m : ModEntry} (h : ¬ lockable classifications m = true) :
    optionalBoth classifications m = true ∨
      side classifications m = some .client ∧ soft classifications m = false := by
  rw [lockable] at h
  rw [optionalBoth, side, soft]
  rcases hc : classifications m.filename with _ | c
  · rw [hc] at h
    exact absurd rfl h
  · rw [hc] at h
    rw [Option.any_some, Option.bind_some, Option.any_some]
    dsimp only at h
    by_cases hboth : c.optionalBoth = true
    · exact .inl hboth
    · rw [if_neg hboth, decide_eq_true_iff, not_or, not_not] at h
      exact .inr ⟨h.1, Bool.eq_false_iff.2 h.2⟩

end Required

end Smrt
