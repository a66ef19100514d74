import Smrt.Http.Access

/-!
# The readings of the access gate

The gate (`Accounts.authorize`) is also read to list packs (`filterMay`), to say what somebody
may do to a pack (`myLevel`), and to let them write in its discussion (`notSilenced`). The
readings agree with the gate (`Agrees`) where a suspension makes no difference to the list that
is read, and no operator who is still suspended is let write (`Alike`); and nowhere else:
`agrees_iff`. A listing does not look at suspensions (`system_suspendedListed`), and what
somebody is told of a suspension does not know that it stops no operator
(`system_operatorToldSuspended`).
-/

namespace Smrt

/-! ## Rows collected into a map -/

section Rows

variable {κ β : Type} [DecidableEq κ] {rows : List (κ × β)} {f : κ → Option β}

/-- What a map that rows are collected into has at a key, if the rows are those of `f`. -/
theorem lookup_foldl_insert (h : ∀ row ∈ rows, f row.1 = some row.2) (m : AList fun _ : κ => β)
    (k : κ) :
    (rows.foldl (fun m row => m.insert row.1 row.2) m).lookup k =
      if k ∈ rows.map Prod.fst then f k else m.lookup k := by
  induction rows generalizing m with
  | nil => rfl
  | cons row rows ih =>
    rw [List.foldl_cons, ih fun r hr => h r (List.mem_cons_of_mem _ hr)]
    by_cases hk : k ∈ rows.map Prod.fst
    · rw [if_pos hk, List.map_cons, if_pos (List.mem_cons_of_mem _ hk)]
    · rw [if_neg hk]
      by_cases hrow : k = row.1
      · rw [hrow, AList.lookup_insert, if_pos (by simp), h row List.mem_cons_self]
      · rw [AList.lookup_insert_ne hrow, if_neg (by simpa [hrow] using hk)]

omit [DecidableEq κ] in
/-- Two filters keep the same of a list if they agree on it. -/
theorem filter_eq_filter_iff {l : List κ} {p q : κ → Bool} :
    l.filter p = l.filter q ↔ ∀ x ∈ l, p x = q x := by
  refine ⟨fun h x hx => ?_, List.filter_congr⟩
  rw [Bool.eq_iff_iff]
  have hmem : x ∈ l.filter p ↔ x ∈ l.filter q := by rw [h]
  simpa [List.mem_filter, hx] using hmem

end Rows

namespace Accounts

variable {a : Accounts} {identity : Identity} {packId : String} {packs : List String}
  {need : PackLevel}

/-- The rows of an account on the access lists say what the packs grant it. -/
theorem mem_packsGrantedTo {uid : Int64} {row : String × PackLevel} :
    row ∈ a.packsGrantedTo uid ↔ a.packAccessLevel row.1 uid = some row.2 := by
  rw [packsGrantedTo, List.mem_insertionSort, List.mem_filterMap, packAccessLevel,
    Option.map_eq_some_iff]
  constructor
  · rintro ⟨⟨⟨p, u⟩, grant⟩, hmem, hrow⟩
    split_ifs at hrow with hu
    obtain rfl := Option.some.inj hrow
    obtain rfl : u = uid := hu
    exact ⟨grant, AList.mem_lookup_iff.2 hmem, rfl⟩
  · rintro ⟨grant, hg, hl⟩
    exact ⟨⟨(row.1, uid), grant⟩, AList.mem_lookup_iff.1 hg, by simp [hl]⟩

/-- The level of an account on a pack: its own, or what it is granted. -/
def level (a : Accounts) (identity : Identity) (packId : String) : Option PackLevel :=
  (inherentLevel identity packId).or (a.packAccessLevel packId identity.uid)

/-- A listing keeps the packs on which the level is high enough. -/
theorem filterMay_eq : a.filterMay identity packs need =
    packs.filter fun p => (a.level identity p).any fun level => need.rank ≤ level.rank := by
  have hgranted (p : String) :
      ((a.packsGrantedTo identity.uid).foldl (fun m row => m.insert row.1 row.2)
        (∅ : AList fun _ : String => PackLevel)).lookup p = a.packAccessLevel p identity.uid := by
    rw [lookup_foldl_insert (f := fun p => a.packAccessLevel p identity.uid)
      fun row hrow => mem_packsGrantedTo.1 hrow]
    split_ifs with hp
    · rfl
    · -- No row of the account is about the pack: nothing is granted.
      refine (Option.eq_none_iff_forall_ne_some.2 fun l hl => hp ?_).symm
      exact List.mem_map.2 ⟨(p, l), mem_packsGrantedTo.2 hl, rfl⟩
  refine List.filter_congr fun p _ => ?_
  simp only [level, hgranted]
  cases inherentLevel identity p <;> rfl

/-- Whom the gate stops from writing. -/
def Stopped (a : Accounts) (identity : Identity) : Prop :=
  ¬ Role.admin.rank ≤ identity.role.rank ∧ a.suspensionOf identity.uid ≠ none

theorem authorize_iff : a.authorize identity packId need = .ok () ↔
    (PackLevel.edit.rank ≤ need.rank → ¬ a.Stopped identity) ∧
      ((a.level identity packId).any fun level => need.rank ≤ level.rank) = true := by
  rw [authorize, authorize_eq_ok, Option.map_eq_none_iff, Stopped, not_and_not_right, level,
    Option.any_eq_true]
  exact and_congr (imp_congr_right fun _ => or_iff_not_imp_left)
    (exists_congr fun _ => and_congr_right fun _ => decide_eq_true_iff.symm)

/-- Somebody is let write in a discussion if no stop applies to them. -/
theorem notSilenced_iff : a.notSilenced identity packId = .ok () ↔
    ¬ a.Stopped identity ∧ a.blockOn packId identity.uid = none := by
  rw [notSilenced, bind_eq_ok, Stopped, not_and_not_right, ← or_iff_not_imp_left]
  constructor
  · rintro ⟨_, hs, hb⟩
    refine ⟨(notSuspended_eq_ok.1 hs).imp_right Option.map_eq_none_iff.1, ?_⟩
    rcases hblock : a.blockOn packId identity.uid with _ | block
    · rfl
    · rw [hblock] at hb
      cases hb
  · rintro ⟨hs, hb⟩
    rw [hb]
    exact ⟨(), notSuspended_eq_ok.2 (hs.imp_right Option.map_eq_none_iff.2), rfl⟩

/-! ## Agreement -/

/-- The readings of the gate, for somebody, a pack, a list of packs and what they need, agree
    with it: the list is of the packs the gate lets them do it to, the level is the greatest
    one it accepts, and they are told of a stop if one applies. -/
structure Agrees (a : Accounts) (identity : Identity) (packId : String) (packs : List String)
    (need : PackLevel) : Prop where
  filterMay : a.filterMay identity packs need = packs.filter fun p => a.may identity p need
  level (l : PackLevel) : (a.myLevel identity packId).level = some l ↔
    a.authorize identity packId l = .ok () ∧
      ∀ l', a.authorize identity packId l' = .ok () → l'.rank ≤ l.rank
  level_none : (a.myLevel identity packId).level = none ↔
    ∀ l, a.authorize identity packId l ≠ .ok ()
  suspended : (a.myLevel identity packId).suspended.isSome ↔
    a.notSilenced identity packId ≠ .ok ()
  le (l l' : PackLevel) : l'.rank ≤ l.rank → a.authorize identity packId l = .ok () →
    a.authorize identity packId l' = .ok ()

/-- No pack of the list is one that somebody could write to if they were not suspended, if
    writing is what they need; and an operator who is still suspended is blocked as well. -/
structure Alike (a : Accounts) (identity : Identity) (packId : String) (packs : List String)
    (need : PackLevel) : Prop where
  listed : PackLevel.edit.rank ≤ need.rank → a.Stopped identity →
    ∀ p ∈ packs, ∀ level, a.level identity p = some level → level.rank < need.rank
  told : Role.admin.rank ≤ identity.role.rank → a.suspensionOf identity.uid ≠ none →
    a.blockOn packId identity.uid ≠ none

/-- A listing agrees with the gate on the packs that a suspension makes no difference to. -/
theorem filterMay_agrees : a.filterMay identity packs need =
      (packs.filter fun p => a.may identity p need) ↔
    (PackLevel.edit.rank ≤ need.rank → a.Stopped identity →
      ∀ p ∈ packs, ∀ level, a.level identity p = some level → level.rank < need.rank) := by
  rw [filterMay_eq, filter_eq_filter_iff]
  -- The two differ on a pack where the level is high enough and the suspension is in the way.
  have hpack (p : String) : ((a.level identity p).any fun level => need.rank ≤ level.rank) =
      a.may identity p need ↔ (PackLevel.edit.rank ≤ need.rank → a.Stopped identity →
        ∀ level, a.level identity p = some level → level.rank < need.rank) := by
    rw [Bool.eq_iff_iff, may, toBool_eq_true, authorize_iff, iff_and_self]
    cases a.level identity p with
    | none => simp
    | some level =>
      simp only [Option.any_some, decide_eq_true_eq, Option.some.injEq, forall_eq']
      grind
  simp only [hpack]
  exact ⟨fun h hn hs p hp => h p hp hn hs, fun h p hp hn hs => h hn hs p hp⟩

theorem rank_injective {l l' : PackLevel} (h : l.rank = l'.rank) : l = l' := by
  cases l <;> cases l' <;> first | rfl | cases h

/-- Asked from the highest level down, the first that is allowed is the greatest one. -/
theorem greatest_of_find {ok : PackLevel → Bool} {g : PackLevel}
    (h : [PackLevel.own, .edit, .view].find? ok = some g) :
    ok g = true ∧ ∀ l, ok l = true → l.rank ≤ g.rank := by
  refine ⟨List.find?_some h, fun l hl => ?_⟩
  simp only [List.find?_cons, List.find?_nil] at h
  cases ho : ok .own <;> cases he : ok .edit <;> cases hv : ok .view <;>
    simp only [ho, he, hv, Option.some.injEq, reduceCtorEq] at h <;> subst h
  all_goals cases l
  all_goals first | decide | exact absurd hl (by simp [ho, he])

/-- The level that somebody is told is the greatest one that the gate accepts. -/
theorem myLevel_level (l : PackLevel) : (a.myLevel identity packId).level = some l ↔
    a.authorize identity packId l = .ok () ∧
      ∀ l', a.authorize identity packId l' = .ok () → l'.rank ≤ l.rank := by
  have hmay (l : PackLevel) :
      a.may identity packId l = true ↔ a.authorize identity packId l = .ok () := toBool_eq_true
  simp only [← hmay]
  refine ⟨greatest_of_find, fun ⟨hl, hmax⟩ => ?_⟩
  rcases hf : (a.myLevel identity packId).level with _ | g
  · exact absurd hl (List.find?_eq_none.1 hf l (by cases l <;> simp))
  · obtain ⟨hg, hgmax⟩ := greatest_of_find hf
    exact congrArg some (rank_injective (Nat.le_antisymm (hmax g hg) (hgmax l hl)))

/-- Somebody is told no level if the gate accepts none. -/
theorem myLevel_level_eq_none : (a.myLevel identity packId).level = none ↔
    ∀ l, a.authorize identity packId l ≠ .ok () := by
  simp only [← toBool_eq_false]
  rw [myLevel, List.find?_eq_none]
  constructor
  · intro h l
    exact Bool.eq_false_iff.2 (h l (by cases l <;> simp))
  · intro h l _
    exact Bool.eq_false_iff.1 (h l)

/-- What somebody is told of a stop agrees with the gate, but for an operator who is still
    suspended and not blocked. -/
theorem suspended_agrees : ((a.myLevel identity packId).suspended.isSome ↔
      a.notSilenced identity packId ≠ .ok ()) ↔
    (Role.admin.rank ≤ identity.role.rank → a.suspensionOf identity.uid ≠ none →
      a.blockOn packId identity.uid ≠ none) := by
  rw [ne_eq, notSilenced_iff, Stopped, myLevel]
  rcases a.suspensionOf identity.uid with _ | s
  · simp [Option.isSome_iff_ne_none]
  · simp only [Option.isSome_some, true_iff]
    grind

/-- The readings of the gate agree with it exactly where a suspension makes no difference to
    them: in every state of the store, for everybody, every pack and every list of packs. -/
theorem agrees_iff : a.Agrees identity packId packs need ↔ a.Alike identity packId packs need := by
  constructor
  · intro h
    exact ⟨filterMay_agrees.1 h.filterMay, suspended_agrees.1 h.suspended⟩
  · intro h
    exact {
      filterMay := filterMay_agrees.2 h.listed
      level := myLevel_level
      level_none := myLevel_level_eq_none
      suspended := suspended_agrees.2 h.told
      le := fun _ _ => authorize_of_le }

end Accounts

namespace Access

open Accounts

/-- A suspended account that a pack lets edit it is listed among those that may. -/
theorem system_suspendedListed :
    ∃ a identity, (system tokened id).Reachable a ∧
      (a.resolveIdentity tokened (session "sid") 3).1 = some identity ∧
      a.filterMay identity ["Industrial"] .edit = ["Industrial"] ∧
      a.may identity "Industrial" .edit = false ∧
      ¬ a.Agrees identity "Industrial" ["Industrial"] .edit := by
  have hrun : ((system tokened id).run empty
      [.signIn 7 "seven" "sid" 0, .request operator 1 (.grantAccess "Industrial" 7 "edit"),
        .request operator 2 (.suspendAccount 7 none)]).map
      (fun a => ((a.resolveIdentity tokened (session "sid") 3).1,
        a.filterMay ⟨7, "seven", .member⟩ ["Industrial"] .edit,
        a.may ⟨7, "seven", .member⟩ "Industrial" .edit)) =
      some (some ⟨7, "seven", .member⟩, ["Industrial"], false) := by
    decide +kernel
  obtain ⟨a, ha, h⟩ := Option.map_eq_some_iff.1 hrun
  simp only [Prod.mk.injEq] at h
  obtain ⟨hid, hlist, hmay⟩ := h
  have h₀ : (system tokened id).Reachable empty := .init rfl
  refine ⟨a, _, h₀.run ha, hid, hlist, hmay, fun hagree => ?_⟩
  have hfilter := hagree.filterMay
  rw [hlist, List.filter_cons_of_neg (by rw [hmay]; decide)] at hfilter
  cases hfilter

/-- An account that is suspended, and made an operator, may write, and is told that it may
    not. -/
theorem system_operatorToldSuspended :
    ∃ a identity, (system tokened id).Reachable a ∧
      (a.resolveIdentity tokened (session "sid") 3).1 = some identity ∧
      (a.myLevel identity "Industrial").suspended.isSome = true ∧
      a.notSilenced identity "Industrial" = .ok () ∧
      ¬ a.Agrees identity "Industrial" [] .view := by
  have hrun : ((system tokened id).run empty
      [.signIn 7 "seven" "sid" 0, .request operator 1 (.suspendAccount 7 none),
        .request operator 2 (.setUserRole 7 "admin")]).map
      (fun a => ((a.resolveIdentity tokened (session "sid") 3).1,
        (a.myLevel ⟨7, "seven", .admin⟩ "Industrial").suspended.isSome,
        (a.notSilenced ⟨7, "seven", .admin⟩ "Industrial").toBool)) =
      some (some ⟨7, "seven", .admin⟩, true, true) := by
    decide +kernel
  obtain ⟨a, ha, h⟩ := Option.map_eq_some_iff.1 hrun
  simp only [Prod.mk.injEq] at h
  obtain ⟨hid, htold, hok⟩ := h
  have h₀ : (system tokened id).Reachable empty := .init rfl
  exact ⟨a, _, h₀.run ha, hid, htold, toBool_eq_true.1 hok, fun hagree =>
    hagree.suspended.1 htold (toBool_eq_true.1 hok)⟩

end Access

end Smrt
