import Smrt.Http.Writers

/-!
# Two saves of one config

Two clients have read one config, and each sends a body of its own under the revision that it has
read. The revision does not look at the pulled rows, which are the server's. But a body has such
rows too, and its own are stored before the rows that it lacks are carried over: so the second save
may be accepted although the first one has changed a pulled row, and undo this.

`SecondSafe` says that the first save has changed nothing if the second is accepted: the config that
it left is the one that it found, but for what the server owns and for what the fill has done.
Whether it is so for all bodies depends on the pulled rows that these have (`secondSafe_iff`).
-/

namespace Smrt

/-- What a body makes of the stored config, before the fill. -/
def settled (stored body : PackConfig) : PackConfig :=
  mergePulled stored (body.withServerOwned stored.serverOwned)

/-- A pulled row of a config, its requirements apart. -/
def HasPulled (c : PackConfig) (m : DeclaredMod) : Prop :=
  ∃ n ∈ c.mods, n.pulled = true ∧ authoredRow n = authoredRow m

instance {c : PackConfig} {m : DeclaredMod} : Decidable (HasPulled c m) :=
  inferInstanceAs (Decidable (∃ n ∈ c.mods, _))

/-- Two rows of one artifact or filename. -/
def Clashes (m n : DeclaredMod) : Prop :=
  m.source.artifact = n.source.artifact ∨ m.filename = n.filename

/-- A save has changed nothing: the authored content is the same, and the pulled rows are those that
    were there, but for the ones that the fill appended. -/
structure Unchanged (answers : ℕ → Answers) (stored body stored' : PackConfig) : Prop where
  authored : stored'.projected = stored.projected
  rows : ∀ m ∈ stored'.mods, m.pulled = true → HasPulled stored m ∨
    ∃ n ∈ fillAppended answers (settled stored body), authoredRow n = authoredRow m
  /-- The fill is given every pulled row that was there. -/
  carried : ∀ n ∈ stored.mods, n.pulled = true → HasPulled (settled stored body) n

variable (X : Outside) (packId : String)

/-- If a second save is accepted under the revision that a first one was made under, then the first
    one has changed nothing. -/
def SecondSafe (stored body : PackConfig) : Prop :=
  ∀ (first second : PutReq) (answers answers' : ℕ → Answers) (stored' stored'' : PackConfig),
    first.body = body → first.pre = some (.rev (editRev X stored)) →
    second.pre = some (.rev (editRev X stored)) →
    putPackConfig X packId answers (some stored) first = .ok stored' →
    putPackConfig X packId answers' (some stored') second = .ok stored'' →
    -- The digests of the two configs do not collide.
    (editRev X stored' = editRev X stored → stored'.projected = stored.projected) →
    Unchanged answers stored body stored'

/-- The pulled rows that a body may have: those of the stored config, unless a row of the same
    artifact or filename is declared, so that a body that has both is refused. -/
structure OnlyStored (stored : PackConfig) (rows : Set DeclaredMod) : Prop where
  known : ∀ m ∈ rows, m.pulled = true →
    (∀ a ∈ stored.mods, a.pulled = false → ¬ Clashes a m) → HasPulled stored m ∧
      ∀ n ∈ stored.mods, n.pulled = true → Clashes n m → authoredRow n = authoredRow m
  apart : ∀ a ∈ stored.mods, a.pulled = false → ∀ n ∈ stored.mods, n.pulled = true → ¬ Clashes a n

variable {X packId}

section Rows

variable {stored body cfg : PackConfig} {m n : DeclaredMod}

/-- Rows that are the same, their requirements apart, are the same in what tells rows apart. -/
theorem of_authoredRow_eq (h : authoredRow m = authoredRow n) :
    m.filename = n.filename ∧ m.source = n.source ∧ m.pulled = n.pulled := by
  simp only [authoredRow, DeclaredMod.mk.injEq] at h
  exact ⟨h.1, h.2.2.1, h.2.2.2.2.2⟩

/-- The requirements of a row do not matter for what it clashes with. -/
theorem clashes_congr {m' n' : DeclaredMod} (hm : authoredRow m = authoredRow m')
    (hn : authoredRow n = authoredRow n') : Clashes m n ↔ Clashes m' n' := by
  rw [Clashes, Clashes, (of_authoredRow_eq hm).1, (of_authoredRow_eq hm).2.1,
    (of_authoredRow_eq hn).1, (of_authoredRow_eq hn).2.1]

theorem Clashes.symm (h : Clashes m n) : Clashes n m := h.imp Eq.symm Eq.symm

theorem mem_settled :
    m ∈ (settled stored body).mods ↔ m ∈ body.mods ∨
      m ∈ stored.mods ∧ m.pulled = true ∧ ∀ n ∈ body.mods, ¬ Clashes n m := by
  rw [settled, mergePulled, List.mem_append, List.mem_filter, List.mem_filter, decide_eq_true_iff,
    mem_presentKeys_sourceIdentity, mem_presentKeys_filename, and_assoc]
  refine or_congr_right (and_congr_right fun _ => and_congr_right fun _ => ?_)
  simp only [not_exists, not_and, Clashes, not_or]
  constructor
  · rintro ⟨hsource, hfile⟩ n hn
    exact ⟨fun h => hsource n hn h.symm, fun h => hfile n hn h.symm⟩
  · exact fun h => ⟨fun n hn hs => (h n hn).1 hs.symm, fun n hn hf => (h n hn).2 hf.symm⟩

/-- What is stored are rows that were saved or that the fill appended. -/
theorem exists_of_mem_storeEditedConfig {answers : ℕ → Answers} {fill : Bool}
    (h : m ∈ (storeEditedConfig answers cfg fill).mods) :
    (∃ n ∈ cfg.mods, authoredRow n = authoredRow m) ∨
      ∃ n ∈ fillAppended answers cfg, authoredRow n = authoredRow m := by
  have hfilled : ∀ m ∈ (fillDependencies answers cfg).1.mods,
      ∃ n ∈ (fillPasses answers maxPasses 0 cfg).1.mods, authoredRow n = authoredRow m := by
    intro m hm
    rw [fillDependencies] at hm
    split at hm
    · split at hm
      · obtain ⟨n, hn, rfl⟩ := List.mem_map.1 (List.mem_of_mem_filter hm)
        exact ⟨n, hn, (authoredRow_requiring n _).symm⟩
      · exact ⟨m, hm, rfl⟩
    · exact ⟨m, hm, rfl⟩
  rw [storeEditedConfig] at h
  split at h
  · obtain ⟨n, hn, hrow⟩ := hfilled m h
    rw [fillPasses_eq, List.mem_append] at hn
    exact hn.imp (fun hn => ⟨n, hn, hrow⟩) fun hn => ⟨n, hn, hrow⟩
  · exact .inl ⟨m, h, rfl⟩

/-- The declared rows go through a save as they are, their requirements apart. -/
theorem authoredRows_storeEditedConfig {answers : ℕ → Answers} {fill : Bool} :
    authoredRows (storeEditedConfig answers (settled stored body) fill).mods =
      authoredRows body.mods := by
  rw [storeEditedConfig]
  split
  · rw [authoredRows_fillDependencies, settled, authoredRows_mergePulled]
    rfl
  · rw [settled, authoredRows_mergePulled]
    rfl

/-- A declared row of one config is in the other one, if the two declare the same. -/
theorem exists_of_authoredRows_eq (h : authoredRows stored.mods = authoredRows body.mods)
    (hm : m ∈ stored.mods) (hdeclared : m.pulled = false) :
    ∃ n ∈ body.mods, n.pulled = false ∧ authoredRow n = authoredRow m := by
  have hrow : authoredRow m ∈ authoredRows body.mods := by
    rw [← h]
    exact List.mem_map_of_mem (List.mem_filter.2 ⟨hm, by rw [hdeclared]; rfl⟩)
  obtain ⟨n, hn, heq⟩ := List.mem_map.1 hrow
  obtain ⟨hn, hpulled⟩ := List.mem_filter.1 hn
  exact ⟨n, hn, by simpa using hpulled, heq⟩

theorem authoredRows_eq_of_projected (h : cfg.projected = stored.projected) :
    authoredRows cfg.mods = authoredRows stored.mods :=
  congrArg (fun c => c.mods.map authoredRow) h

end Rows

/-! ## Saves that are accepted -/

section Accepted

variable {stored stored' : PackConfig} {answers : ℕ → Answers} {req : PutReq}

variable (X answers req) in
/-- A body that is this pack's and declares every row once is saved under the revision of what is
    stored. -/
theorem putPackConfig_eq (hid : req.body.packId = packId)
    (hdup : req.body.duplicateDeclaration = none)
    (hpre : req.pre = some (.rev (editRev X stored))) :
    putPackConfig X packId answers (some stored) req =
      .ok (storeEditedConfig answers (settled stored req.body)
        (fillNeeded (some stored) (settled stored req.body))) := by
  have hbody : checkBody X packId req.body = .ok () := by
    rw [checkBody, if_neg (not_not_intro hid), hdup]
  have hcheck : checkPrecondition X req.pre (some (editRev X stored)) packId = .ok () := by
    rw [hpre, checkPrecondition, if_pos rfl]
  rw [putPackConfig, hbody, settleBody]
  simp only [hcheck]
  rfl

theorem rev_of_putPackConfig {rev : String} (hpre : req.pre = some (.rev rev))
    (h : putPackConfig X packId answers (some stored) req = .ok stored') :
    rev = editRev X stored := by
  by_contra hne
  have hbody : ∀ r : Except ApiError PackConfig, (checkBody X packId req.body >>= fun _ => r) =
      .ok stored' → r = .ok stored' := by
    intro r hr
    cases hb : checkBody X packId req.body with
    | error e => rw [hb] at hr; cases hr
    | ok _ => rw [hb] at hr; exact hr
  have hsettle := hbody _ h
  rw [settleBody, hpre, checkPrecondition, if_neg hne] at hsettle
  cases hsettle

end Accepted

section SecondSafe

variable {stored body : PackConfig} {rows : Set DeclaredMod}

/-- What is declared in a config that a body left as it was could be sent as a body. -/
theorem identified_projected {stored' : PackConfig} {answers : ℕ → Answers} {fill : Bool}
    (hid : body.packId = packId) (hdup : body.duplicateDeclaration = none)
    (hstored' : stored' = storeEditedConfig answers (settled stored body) fill)
    (hproj : stored'.projected = stored.projected) : Identified packId stored.projected := by
  have hsame : SameButMods (settled stored body) stored' :=
    hstored' ▸ sameButMods_storeEditedConfig answers fill
  have hdistinct := PackConfig.duplicateDeclaration_eq_none.1 hdup
  have hauthored : authoredRows stored.mods = authoredRows body.mods := by
    rw [← authoredRows_eq_of_projected hproj, hstored']
    exact authoredRows_storeEditedConfig
  refine identified_iff.2 ⟨?_, ?_, ?_⟩
  · calc stored.projected.packId = stored'.projected.packId := by rw [hproj]
      _ = stored'.packId := rfl
      _ = (settled stored body).packId := packId_of_sameButMods hsame
      _ = packId := hid
  · have hrows : DistinctMods (authoredRows body.mods) :=
      (hdistinct.1.sublist List.filter_sublist).map (fun _ => rfl) fun _ => rfl
    rw [← hauthored] at hrows
    simpa [DistinctMods, authoredRows, Function.comp_def, authoredRow, PackConfig.projected]
      using hrows
  · have hassets : stored.projected.assets = body.assets :=
      calc stored.projected.assets = stored'.projected.assets := by rw [hproj]
        _ = stored'.assets := rfl
        _ = (settled stored body).assets := assets_of_sameButMods hsame
    rw [hassets]
    exact hdistinct.2

/-- A body that declares what is stored has what clashes with no pulled row of its own. -/
theorem not_clashes_of_declared (hbody : DistinctMods body.mods)
    (hauthored : authoredRows stored.mods = authoredRows body.mods) {m a : DeclaredMod}
    (hm : m ∈ body.mods) (hpulled : m.pulled = true) (ha : a ∈ stored.mods)
    (hdeclared : a.pulled = false) : ¬ Clashes a m := by
  obtain ⟨n, hn, hndeclared, hrow⟩ := exists_of_authoredRows_eq hauthored ha hdeclared
  rw [distinctMods_iff] at hbody
  have hne : n ≠ m := by
    rintro rfl
    rw [hpulled] at hndeclared
    cases hndeclared
  rw [← clashes_congr hrow rfl]
  rintro (hsource | hfile)
  · exact hne (List.inj_on_of_nodup_map hbody.1 hn hm hsource)
  · exact hne (List.inj_on_of_nodup_map hbody.2 hn hm hfile)

/-- Bodies whose pulled rows are those of the stored config change nothing, if a second save under
    its revision is accepted. -/
theorem secondSafe_of_onlyStored
    (honly : Identified packId stored.projected → OnlyStored stored rows)
    (hrows : ∀ m ∈ body.mods, m.pulled = true → m ∈ rows) :
    SecondSafe X packId stored body := by
  rintro first second answers answers' stored' stored'' rfl hfirst hsecond hput hput' hdigest
  have hproj := hdigest (rev_of_putPackConfig hsecond hput').symm
  obtain ⟨hid, hdup, fill, hstored'⟩ := putPackConfig_eq_ok hput
  have honly := honly (identified_projected hid hdup hstored' hproj)
  subst hstored'
  have hdistinct := (PackConfig.duplicateDeclaration_eq_none.1 hdup).1
  have hauthored : authoredRows stored.mods = authoredRows first.body.mods := by
    rw [← authoredRows_eq_of_projected hproj]
    exact authoredRows_storeEditedConfig
  -- The pulled rows of the body clash with nothing that is declared, so they are stored ones.
  have hknown : ∀ m ∈ first.body.mods, m.pulled = true → HasPulled stored m ∧
      ∀ n ∈ stored.mods, n.pulled = true → Clashes n m → authoredRow n = authoredRow m :=
    fun m hm hpulled => honly.known m (hrows m hm hpulled) hpulled fun a ha hdeclared =>
      not_clashes_of_declared hdistinct hauthored hm hpulled ha hdeclared
  refine ⟨hproj, fun m hm hpulled => ?_, fun n hn hpulled => ?_⟩
  · rcases exists_of_mem_storeEditedConfig hm with ⟨n, hn, hrow⟩ | happended
    · have hnpulled : n.pulled = true := (of_authoredRow_eq hrow).2.2.trans hpulled
      refine .inl ?_
      rcases mem_settled.1 hn with hn | ⟨hn, -⟩
      · obtain ⟨k, hk, hkpulled, hkrow⟩ := (hknown n hn hnpulled).1
        exact ⟨k, hk, hkpulled, hkrow.trans hrow⟩
      · exact ⟨n, hn, hnpulled, hrow⟩
    · exact .inr happended
  · by_cases hclash : ∃ m ∈ first.body.mods, Clashes m n
    · obtain ⟨m, hm, hclash⟩ := hclash
      cases hmpulled : m.pulled with
      | true =>
        have hrow := (hknown m hm hmpulled).2 n hn hpulled hclash.symm
        exact ⟨m, mem_settled.2 (.inl hm), hmpulled, hrow.symm⟩
      | false =>
        -- What is declared in the body is declared in the stored config, and clashes there.
        obtain ⟨a, ha, hdeclared, hrow⟩ := exists_of_authoredRows_eq hauthored.symm hm hmpulled
        exact absurd ((clashes_congr hrow rfl).2 hclash) (honly.apart a ha hdeclared n hn hpulled)
    · push Not at hclash
      exact ⟨n, mem_settled.2 (.inr ⟨hn, hpulled, hclash⟩), hpulled, rfl⟩

/-- A body that declares what is stored, with pulled rows of its own. -/
def withPulled (stored : PackConfig) (pulled : List DeclaredMod) : PackConfig :=
  { stored with mods := stored.projected.mods ++ pulled }

theorem projected_mods : stored.projected.mods = stored.mods.filter fun m => !m.pulled := rfl

theorem declared_of_mem_projected {m : DeclaredMod} :
    m ∈ stored.projected.mods ↔ m ∈ stored.mods ∧ m.pulled = false := by
  rw [projected_mods, List.mem_filter, Bool.not_eq_true']

/-- While the outside is down, a save stores what the body makes of the stored config. -/
theorem storeEditedConfig_down {cfg : PackConfig} {fill : Bool} :
    storeEditedConfig (fun _ => .down) cfg fill = cfg := by
  rw [storeEditedConfig]
  split <;> rfl

theorem fillAppended_down {cfg : PackConfig} : fillAppended (fun _ => .down) cfg = [] :=
  List.drop_length

variable (stored) in
/-- Such a body is stored with the declared rows as they are. -/
theorem projected_settled {pulled : List DeclaredMod} (hpulled : ∀ m ∈ pulled, m.pulled = true) :
    (settled stored (withPulled stored pulled)).projected = stored.projected := by
  have hdeclared : stored.projected.mods.filter (fun m => !m.pulled) = stored.projected.mods :=
    List.filter_eq_self.2 fun m hm => by rw [(declared_of_mem_projected.1 hm).2]; rfl
  have hown : pulled.filter (fun m => !m.pulled) = [] :=
    List.filter_eq_nil_iff.2 fun m hm => by simp [hpulled m hm]
  have hmods : (settled stored (withPulled stored pulled)).mods.filter (fun m => !m.pulled) =
      stored.projected.mods := by
    have hcarried : ∀ p : DeclaredMod → Bool,
        ((stored.mods.filter fun m => m.pulled).filter p).filter (fun m => !m.pulled) = [] := by
      intro p
      refine List.filter_eq_nil_iff.2 fun m hm => ?_
      simp [List.of_mem_filter (List.mem_of_mem_filter hm)]
    rw [settled, mergePulled, List.filter_append, hcarried, List.append_nil]
    exact (List.filter_append ..).trans (by rw [hdeclared, hown, List.append_nil])
  calc (settled stored (withPulled stored pulled)).projected =
      { stored.projected with
        mods := (settled stored (withPulled stored pulled)).mods.filter fun m => !m.pulled } := rfl
    _ = stored.projected := by rw [hmods]

/-- Two saves of such bodies are accepted one after the other while the outside is down. -/
theorem unchanged_withPulled (pulled : List DeclaredMod)
    (h : SecondSafe X packId stored (withPulled stored pulled))
    (hstored : Identified packId stored.projected) (hpulled : ∀ m ∈ pulled, m.pulled = true)
    (hdistinct : DistinctMods (withPulled stored pulled).mods) :
    Unchanged (fun _ => .down) stored (withPulled stored pulled)
      (settled stored (withPulled stored pulled)) := by
  have hid := identified_iff.1 hstored
  have hproj := projected_settled stored hpulled
  have hrev : editRev X stored = editRev X (settled stored (withPulled stored pulled)) := by
    rw [editRev, editRev, hproj]
  have hfirst := putPackConfig_eq X (fun _ => .down)
    ⟨withPulled stored pulled, some (.rev (editRev X stored)), ⟨0, "", .admin⟩, true⟩
    hid.1 (PackConfig.duplicateDeclaration_eq_none.2 ⟨hdistinct, hid.2.2⟩) rfl
  have hsecond := putPackConfig_eq X (fun _ => .down)
    ⟨stored.projected, some (.rev (editRev X stored)), ⟨0, "", .admin⟩, true⟩
    hid.1 hstored.2 (congrArg (fun rev => some (Precondition.rev rev)) hrev)
  rw [storeEditedConfig_down] at hfirst
  exact h _ _ _ _ _ _ rfl rfl rfl hfirst hsecond fun _ => hproj

/-- Saves change nothing, if a second one under the same revision is accepted, for all bodies with
    certain pulled rows if and only if these are rows of the stored config. -/
theorem secondSafe_iff :
    (∀ body, (∀ m ∈ body.mods, m.pulled = true → m ∈ rows) → SecondSafe X packId stored body) ↔
      (Identified packId stored.projected → OnlyStored stored rows) := by
  refine ⟨fun h hstored => ⟨fun r hr hpulled hclash => ?_, ?_⟩, fun honly body hrows =>
    secondSafe_of_onlyStored honly hrows⟩
  · have hbody : ∀ m ∈ (withPulled stored [r]).mods, m.pulled = true → m = r := by
      intro m hm hmpulled
      refine (List.mem_append.1 hm).elim (fun hm => ?_) List.mem_singleton.1
      rw [(declared_of_mem_projected.1 hm).2] at hmpulled
      cases hmpulled
    have hr' : r ∈ (withPulled stored [r]).mods := List.mem_concat_self
    have hunchanged := unchanged_withPulled [r]
      (h _ fun m hm hmpulled => hbody m hm hmpulled ▸ hr) hstored (by simpa using hpulled) ?_
    · refine ⟨?_, fun n hn hnpulled hnr => ?_⟩
      · rcases hunchanged.rows r (mem_settled.2 (.inl hr')) hpulled with hhas | ⟨n, hn, -⟩
        · exact hhas
        · rw [fillAppended_down] at hn
          cases hn
      · obtain ⟨m, hm, hmpulled, hrow⟩ := hunchanged.carried n hn hnpulled
        rcases mem_settled.1 hm with hm | ⟨-, -, hm⟩
        · rw [← hbody m hm hmpulled, hrow]
        · exact absurd ((clashes_congr rfl hrow.symm).1 hnr.symm) (hm r hr')
    · refine (identified_iff.1 hstored).2.1.concat (fun n hn => ?_) fun n hn => ?_
      · obtain ⟨hn, hdeclared⟩ := declared_of_mem_projected.1 hn
        rw [ne_eq, SourceDecl.identity_eq_iff]
        exact fun heq => hclash n hn hdeclared (.inl heq)
      · obtain ⟨hn, hdeclared⟩ := declared_of_mem_projected.1 hn
        exact fun heq => hclash n hn hdeclared (.inr heq)
  · intro a ha hdeclared n hn hpulled hclash
    have hbody : ∀ m ∈ (withPulled stored []).mods, m.pulled = false := by
      intro m hm
      rw [withPulled, List.append_nil] at hm
      exact (declared_of_mem_projected.1 hm).2
    have hdistinct : DistinctMods (withPulled stored []).mods := by
      rw [withPulled, List.append_nil]
      exact (identified_iff.1 hstored).2.1
    have hunchanged := unchanged_withPulled []
      (h _ fun m hm hmpulled => absurd hmpulled (by rw [hbody m hm]; decide)) hstored (by simp)
      hdistinct
    obtain ⟨m, hm, hmpulled, hrow⟩ := hunchanged.carried n hn hpulled
    rcases mem_settled.1 hm with hm | ⟨-, -, hm⟩
    · rw [hbody m hm] at hmpulled
      cases hmpulled
    · refine hm a (List.mem_append_left _ (declared_of_mem_projected.2 ⟨ha, hdeclared⟩)) ?_
      exact (clashes_congr rfl hrow.symm).1 hclash

end SecondSafe

/-- A mod and a library that was pulled for it. -/
def withLibrary : PackConfig :=
  { PackConfig.empty "Industrial" with
    mods := [⟨"ae2.jar", true, .modrinth "ae2" "1", none, none, false⟩,
      ⟨"lib.jar", true, .modrinth "lib" "1", none, none, true⟩] }

/-- The library, switched off by a client. -/
def switchedOff : DeclaredMod := ⟨"lib.jar", false, .modrinth "lib" "1", none, none, true⟩

/-- The client's save is accepted, and so is one of a client who has not seen it. -/
theorem not_secondSafe_switchedOff :
    Identified "Industrial" withLibrary ∧
      ¬ SecondSafe .none "Industrial" withLibrary (withPulled withLibrary [switchedOff]) := by
  refine ⟨by decide, fun h => ?_⟩
  have hunchanged := unchanged_withPulled _ h (by decide) (by decide) (by decide)
  have hstored : switchedOff ∈ (settled withLibrary (withPulled withLibrary [switchedOff])).mods :=
    mem_settled.2 (.inl List.mem_concat_self)
  rcases hunchanged.rows switchedOff hstored rfl with hhas | hfill
  · exact absurd hhas (by decide)
  · rw [fillAppended_down] at hfill
    obtain ⟨n, hn, -⟩ := hfill
    cases hn

end Smrt
