import Smrt.Http.Access

/-!
# The keepers of a pack

A pack is kept by the owner of its namespace, by whom it grants to edit it, and by the
operators of the mirror (`Keeps`). The gate that blocks somebody from a pack refuses to block
who may edit it (`mayUid_edit`), and this is the only place that looks at who keeps a pack.

No keeper is blocked (`KeepersUnblocked`), as long as no suspended keeper is blocked and nobody
becomes a keeper of a pack that blocks them (`Careful`): `system_keepersUnblocked`. Nothing
sees to that. The gate takes a suspended keeper for somebody who keeps nothing, so that a
moderator blocks the owner of the namespace (`system_ownerBlocked`), and an account that is
blocked can be granted the pack (`system_blockedGranted`).
-/

namespace Smrt

open Accounts

namespace Access

/-- An operator of the mirror. -/
def Operates (a : Accounts) (uid : Int64) : Prop :=
  ∃ user, a.users.lookup uid = some user ∧ Role.admin.rank ≤ user.role.rank

/-- Who keeps a pack. -/
def Keeps (a : Accounts) (packId : String) (uid : Int64) : Prop :=
  packNamespaceUid packId = some uid ∨
    (∃ level, a.packAccessLevel packId uid = some level ∧
      PackLevel.edit.rank ≤ level.rank) ∨
    Operates a uid

/-- No pack blocks who keeps it. -/
def KeepersUnblocked (a : Accounts) : Prop :=
  ∀ packId uid, Keeps a packId uid → a.blockOn packId uid = none

/-- What is asked by somebody who may does not make a keeper of an account that a pack blocks,
    nor block a keeper who is suspended. -/
def CarefulRequest (a : Accounts) (identity : Identity) : Request → Prop
  | .grantAccess packId uid level =>
    a.authorize identity packId .own = .ok () → ∀ l, PackLevel.parse level = some l →
      PackLevel.edit.rank ≤ l.rank → a.blockOn packId uid = none
  | .blockFromPack packId uid reason =>
    a.authorize identity packId .edit = .ok () → (∃ note, tidyReason reason = .ok note) →
      Keeps a packId uid → Operates a uid ∨ a.suspensionOf uid = none
  | .setUserRole uid name =>
    Role.admin.rank ≤ identity.role.rank → uid ∈ a.users → ∀ role, Role.parse name = some role →
      Role.admin.rank ≤ role.rank → ∀ packId, a.blockOn packId uid = none
  | _ => True

/-- What the actions have to keep to for no keeper to be blocked. -/
def Careful (config : MirrorConfig) (a : Accounts) : Act → Prop
  | .signIn uid _ _ _ =>
    config.forcedRole uid ≠ none → ∀ packId, a.blockOn packId uid.toInt64 = none
  | .request headers now r =>
    ∀ identity, (a.resolveIdentity config headers now).1 = some identity →
      CarefulRequest a identity r

section Keepers

variable {config : MirrorConfig} {debug : String → String} {a a' : Accounts} {packId : String}
  {uid : Int64} {identity : Identity} {now : Int64} {r : Request}

/-- The account as the gate sees it is an operator if it is one. -/
theorem operates_iff : Operates a uid ↔
    Role.admin.rank ≤ ((a.identityOf uid).getD ⟨uid, "", .member⟩).role.rank := by
  rw [Operates, identityOf]
  rcases a.users.lookup uid with _ | user
  · constructor
    · rintro ⟨user, h, -⟩
      exact absurd h.symm (Option.some_ne_none user)
    · intro h
      have hle : Role.admin.rank ≤ Role.member.rank := h
      exact absurd hle (by decide)
  · constructor
    · rintro ⟨_, h, hle⟩
      exact Option.some.inj h ▸ hle
    · exact fun hle => ⟨user, rfl, hle⟩

/-- Who keeps a pack has a level there that lets them edit it. -/
theorem keeps_iff : Keeps a packId uid ↔
    ∃ level, (inherentLevel ((a.identityOf uid).getD ⟨uid, "", .member⟩) packId).or
      (a.packAccessLevel packId uid) = some level ∧ PackLevel.edit.rank ≤ level.rank := by
  rw [Keeps, operates_iff, inherentLevel.eq_def, identityOf_getD_uid]
  split_ifs with hop
  · exact ⟨fun _ => ⟨.own, rfl, by decide⟩, fun _ => .inr (.inr hop)⟩
  · rcases packNamespaceUid packId with _ | owner
    · simp [hop]
    · by_cases howner : owner = uid
      · subst howner
        simp only [if_true, true_or, true_iff, Option.some_or]
        exact ⟨.own, rfl, by decide⟩
      · simp [hop, howner, Ne.symm howner]

/-- The gate takes somebody for a keeper of a pack if they keep it, unless they are suspended. -/
theorem mayUid_edit : a.mayUid packId uid .edit = true ↔
    Keeps a packId uid ∧ (Operates a uid ∨ a.suspensionOf uid = none) := by
  rw [mayUid, may, toBool_eq_true, Accounts.authorize, authorize_eq_ok, identityOf_getD_uid, ← keeps_iff,
    ← operates_iff, Option.map_eq_none_iff, and_comm]
  simp

/-! ## Steps -/

/-- Nobody new keeps a pack that blocks them, and nobody is blocked who keeps the pack. -/
theorem KeepersUnblocked.mono (h : KeepersUnblocked a)
    (hkeeps : ∀ p u, Keeps a' p u → Keeps a p u ∨ a.blockOn p u = none)
    (hblock : ∀ p u, Keeps a' p u → a.blockOn p u = none → a'.blockOn p u = none) :
    KeepersUnblocked a' := by
  intro p u hk
  rcases hkeeps p u hk with hk' | hb
  · exact hblock p u hk (h p u hk')
  · exact hblock p u hk hb

/-- The rung of an account changes: who becomes an operator is blocked nowhere. -/
theorem KeepersUnblocked.setUser (h : KeepersUnblocked a) {user : User}
    (hop : Role.admin.rank ≤ user.role.rank →
      Operates a uid ∨ ∀ p, a.blockOn p uid = none) :
    KeepersUnblocked { a with users := a.users.insert uid user } := by
  refine h.mono (fun p u hk => ?_) fun _ _ _ => id
  rcases hk with howner | hgrant | ⟨v, hv, hle⟩
  · exact .inl (.inl howner)
  · exact .inl (.inr (.inl hgrant))
  · by_cases hu : u = uid
    · subst hu
      rw [AList.lookup_insert, Option.some.injEq] at hv
      exact (hop (hv ▸ hle)).imp (fun ho => .inr (.inr ho)) fun hb => hb p
    · rw [AList.lookup_insert_ne hu] at hv
      exact .inl (.inr (.inr ⟨v, hv, hle⟩))

theorem KeepersUnblocked.grant (h : KeepersUnblocked a) {grant : Grant}
    (hb : PackLevel.edit.rank ≤ grant.level.rank → a.blockOn packId uid = none) :
    KeepersUnblocked { a with packAccess := a.packAccess.insert (packId, uid) grant } := by
  refine h.mono (fun p u hk => ?_) fun _ _ _ => id
  rcases hk with howner | ⟨level, hl, hle⟩ | hop
  · exact .inl (.inl howner)
  · by_cases hpu : (p, u) = (packId, uid)
    · obtain ⟨rfl, rfl⟩ := Prod.mk.inj hpu
      rw [packAccessLevel, AList.lookup_insert] at hl
      exact .inr (hb (Option.some.inj hl ▸ hle))
    · rw [packAccessLevel, AList.lookup_insert_ne hpu] at hl
      exact .inl (.inr (.inl ⟨level, hl, hle⟩))
  · exact .inl (.inr (.inr hop))

theorem KeepersUnblocked.revoke (h : KeepersUnblocked a) :
    KeepersUnblocked (a.revokePackAccess packId uid) := by
  refine h.mono (fun p u hk => ?_) fun _ _ _ => id
  rcases hk with howner | ⟨level, hl, hle⟩ | hop
  · exact .inl (.inl howner)
  · by_cases hpu : (p, u) = (packId, uid)
    · rw [revokePackAccess, packAccessLevel, hpu, AList.lookup_erase] at hl
      cases hl
    · rw [revokePackAccess, packAccessLevel, AList.lookup_erase_ne hpu] at hl
      exact .inl (.inr (.inl ⟨level, hl, hle⟩))
  · exact .inl (.inr (.inr hop))

theorem KeepersUnblocked.block (h : KeepersUnblocked a) {block : PackBlock}
    (hk : ¬ Keeps a packId uid) :
    KeepersUnblocked { a with packBlocks := a.packBlocks.insert (packId, uid) block } := by
  refine h.mono (fun p u hk => .inl hk) fun p u hk' hb => ?_
  have hpu : (p, u) ≠ (packId, uid) := by
    rintro ⟨⟩
    exact hk hk'
  rw [blockOn, AList.lookup_insert_ne hpu]
  exact hb

theorem KeepersUnblocked.unblock (h : KeepersUnblocked a) :
    KeepersUnblocked (a.unblockFromPack packId uid) := by
  refine h.mono (fun p u hk => .inl hk) fun p u _ hb => ?_
  change (a.packBlocks.erase (packId, uid)).lookup (p, u) = none
  by_cases hpu : (p, u) = (packId, uid)
  · rw [hpu, AList.lookup_erase]
  · rw [AList.lookup_erase_ne hpu]
    exact hb

/-- A request is served. -/
theorem KeepersUnblocked.handle (h : KeepersUnblocked a) (hr : CarefulRequest a identity r)
    (hh : handle debug a identity now r = .ok a') : KeepersUnblocked a' := by
  cases r with
  | grantAccess packId uid level =>
    obtain ⟨hauth, -, l, hl, rfl⟩ := grantAccess_eq_ok hh
    exact h.grant (hr hauth l hl)
  | revokeAccess packId uid =>
    obtain ⟨-, rfl⟩ := revokeAccess_eq_ok hh
    exact h.revoke
  | blockFromPack packId uid reason =>
    obtain ⟨hauth, hmay, -, note, hnote, rfl⟩ := blockFromPack_eq_ok hh
    refine h.block fun hk => ?_
    -- The gate answered that the account is no keeper, which is right of one not suspended.
    exact absurd (mayUid_edit.2 ⟨hk, hr hauth ⟨note, hnote⟩ hk⟩) (Bool.eq_false_iff.1 hmay)
  | unblockFromPack packId uid =>
    obtain rfl := unblockFromPack_eq_ok hh
    exact h.unblock
  | suspendAccount uid reason =>
    obtain ⟨note, rfl⟩ := suspendAccount_eq_ok hh
    exact h
  | liftSuspension uid =>
    obtain rfl := liftSuspension_eq_ok hh
    exact h
  | setUserRole uid name =>
    obtain ⟨hadmin, role, user, hrole, huser, rfl⟩ := setUserRole_eq_ok hh
    have hmem : uid ∈ a.users := AList.lookup_isSome.1 (huser ▸ rfl)
    exact h.setUser fun hle => .inr (hr hadmin hmem role hrole hle)

/-- Somebody signs in. -/
theorem KeepersUnblocked.signIn (h : KeepersUnblocked a) {login sid : String}
    {forcedRole : Option Role} (hr : forcedRole ≠ none → ∀ p, a.blockOn p uid = none)
    (hs : a.signInGithub uid login forcedRole sid now = some a') : KeepersUnblocked a' := by
  rw [signInGithub] at hs
  split_ifs at hs
  obtain rfl := Option.some.inj hs
  have hset : KeepersUnblocked { a with users := a.users.insert uid ⟨login,
      forcedRole.getD (((a.users.lookup uid).map User.role).getD .member)⟩ } := by
    refine h.setUser fun hle => ?_
    rcases forcedRole with _ | role
    -- No rung is forced: who is an operator now was one.
    · refine .inl ?_
      cases hu : a.users.lookup uid with
      | none => rw [hu] at hle; cases hle
      | some user => rw [hu] at hle; exact ⟨user, hu, hle⟩
    · exact .inr (hr (Option.some_ne_none role))
  exact hset

/-- In every run in which no suspended keeper is blocked and nobody becomes a keeper of a pack
    that blocks them, no keeper is blocked. -/
theorem system_keepersUnblocked (h : (system config debug).Reach (Careful config) a) :
    KeepersUnblocked a := by
  refine h.invariant (fun a ha => ?_) fun a act a' hi hok hst => ?_
  · intro p u _
    obtain rfl : a = empty := ha
    rfl
  · cases act with
    | signIn uid login sid now => exact hi.signIn hok hst
    | request headers now r =>
      obtain rfl := Option.some.inj hst
      obtain ⟨sessions, hsame | ⟨identity, hid, hh⟩⟩ := serve_snd config debug a headers now r
      · rw [hsame]
        exact hi
      · exact KeepersUnblocked.handle (a := { a with sessions }) hi
          (by cases r <;> exact hok identity hid) hh

end Keepers

/-- An operator blocks somebody who does not keep the pack from it. -/
theorem system_keepersUnblocked_block :
    ∃ a, (system tokened id).Reachable a ∧ a.blockOn "Industrial" 7 = some ⟨none, 0, 100⟩ ∧
      KeepersUnblocked a := by
  have h₀ : (system tokened id).Reach (Careful tokened) empty := .init rfl
  have h₁ := h₀.step (a := .signIn 7 "seven" "sid" 100) (by exact fun h => absurd rfl h) rfl
  have h₂ := h₁.step (a := .request operator 100 (.blockFromPack "Industrial" 7 none))
    (by exact fun _ _ _ _ _ => .inr rfl) rfl
  exact ⟨_, h₂.mono fun _ _ _ => trivial, by decide +kernel, system_keepersUnblocked h₂⟩

/-- Account 42 lets account 7 moderate the pack of its namespace, and is suspended. -/
def suspendedOwner : List Act :=
  [.signIn 42 "owner" "owner" 0, .signIn 7 "moderator" "moderator" 0,
    .request (session "owner") 1 (.grantAccess "u/42/Industrial" 7 "edit"),
    .request operator 2 (.suspendAccount 42 none)]

/-- The moderator of a pack blocks the owner of its namespace. -/
theorem system_ownerBlocked :
    ∃ a, (system tokened id).Reachable a ∧ Keeps a "u/42/Industrial" 42 ∧
      (a.blockOn "u/42/Industrial" 42).map PackBlock.blockedBy = some 7 ∧
      ¬ KeepersUnblocked a := by
  have hrun : ((system tokened id).run empty (suspendedOwner ++
      [.request (session "moderator") 3 (.blockFromPack "u/42/Industrial" 42 none)])).map
        (fun a => (a.blockOn "u/42/Industrial" 42).map PackBlock.blockedBy) = some (some 7) := by
    decide +kernel
  obtain ⟨a, ha, hb⟩ := Option.map_eq_some_iff.1 hrun
  have h₀ : (system tokened id).Reachable empty := .init rfl
  have howner : packNamespaceUid "u/42/Industrial" = some 42 := by decide +kernel
  refine ⟨a, h₀.run ha, .inl howner, hb, fun h => ?_⟩
  rw [h "u/42/Industrial" 42 (.inl howner)] at hb
  cases hb

/-- An account that a pack blocks is granted the pack. -/
theorem system_blockedGranted :
    ∃ a, (system tokened id).Reachable a ∧ a.packAccessLevel "Industrial" 7 = some .edit ∧
      ¬ KeepersUnblocked a := by
  have hrun : ((system tokened id).run empty
      [.request operator 1 (.blockFromPack "Industrial" 7 none),
        .request operator 2 (.grantAccess "Industrial" 7 "edit")]).map
        (fun a => ((a.blockOn "Industrial" 7).isSome, a.packAccessLevel "Industrial" 7)) =
      some (true, some .edit) := by
    decide +kernel
  obtain ⟨a, ha, hb⟩ := Option.map_eq_some_iff.1 hrun
  obtain ⟨hb, hl⟩ := Prod.mk.inj hb
  have h₀ : (system tokened id).Reachable empty := .init rfl
  refine ⟨a, h₀.run ha, hl, fun h => ?_⟩
  rw [h "Industrial" 7 (.inr (.inl ⟨.edit, hl, by decide⟩))] at hb
  cases hb

end Access

end Smrt
