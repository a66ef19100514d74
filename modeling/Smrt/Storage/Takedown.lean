import Smrt.Http.Uploads
import Smrt.Lib.Lines

/-!
# Takedowns

A jar that is taken down leaves the cache, and its hash is written into `removed.txt`, a file of
lines that every one of the calls reads anew (`isSha1Removed`, `recordRemoved`, `restore`). What is
listed there is not cached again. The calls do to the file what the moderation of uploads does to a
list of hashes (`view_saveCacheJar`, `view_takedown`, `view_restore`).

A hash may be spelled in letters of either case, and the file and the names of the jars are compared
letter by letter. As long as hashes are taken down and restored as they are computed, in lower case
(`AsComputed`), a takedown holds until the hash is restored, and a restore frees that hash alone
(`system_held`). In upper case neither is so (`takedown_upper`).
-/

namespace Smrt

namespace Takedown

open Uploads (Jar)

/-! ## Calls -/

/-- The cache, what is staged, and `removed.txt`; then which hashes are taken down. -/
structure State where
  cache : AList fun _ : String => Jar
  staged : AList fun _ : String => Jar
  removedTxt : Option String
  /-- The hashes whose takedown returned last, and no restore. -/
  down : List String

/-- A hash, however it is spelled. -/
def asHash (sha1 : String) : String := String.ofList (sha1.toList.map Char.toLower)

section RemovedTxt

variable (removedTxt : Option String) (sha1 : String)

def isSha1Removed : Bool :=
  removedTxt.any fun content => (lines content).any fun line => trim (String.ofList line) = sha1

def listRemoved : List String := removedTxt.elim [] entries

def recordRemoved : Option String :=
  if isSha1Removed removedTxt sha1 then removedTxt else some (addLine (removedTxt.getD "") sha1)

/-- The file without a hash, if there is one. -/
def withoutHash : Option String :=
  removedTxt.map fun content => writeLines ((entries content).filter fun l => l ≠ sha1)

end RemovedTxt

section Calls

variable (sha1Hex : Jar → String) (s : State) (sha1 : String)

def saveCacheJar (bytes : Jar) : Except ApiError State := do
  refuseIf (¬ isSha1 sha1) (.badRequest "invalid sha1")
  refuseIf (sha1Hex bytes ≠ sha1) (.badRequest
    ("sha1 mismatch: url claims " ++ sha1 ++ " but body hashes to " ++ sha1Hex bytes))
  refuseIf (isSha1Removed s.removedTxt sha1) (.badRequest
    ("sha1 " ++ sha1 ++ " is on the removed-list and cannot be re-uploaded"))
  .ok (if sha1 ∈ s.cache then s else { s with cache := s.cache.insert sha1 bytes })

def deleteCacheJar : Except ApiError State := do
  refuseIf (¬ isSha1 sha1) (.badRequest "invalid sha1")
  refuseIf (sha1 ∉ s.cache) .notFound
  .ok { s with cache := s.cache.erase sha1 }

def takedown : Except ApiError State := do
  refuseIf (¬ isSha1 sha1) (.badRequest "invalid sha1")
  .ok { s with
    cache := s.cache.erase sha1
    removedTxt := recordRemoved s.removedTxt sha1
    down := asHash sha1 :: s.down }

def restore : Except ApiError State := do
  refuseIf (¬ isSha1 sha1) (.badRequest "invalid sha1")
  .ok { s with
    removedTxt := withoutHash s.removedTxt sha1
    down := s.down.filter fun h => h ≠ asHash sha1 }

def stageUpload (bytes : Jar) : Except ApiError State := do
  refuseIf (¬ isSha1 sha1) (.badRequest "invalid sha1")
  refuseIf (sha1Hex bytes ≠ sha1)
    (.badRequest ("sha1 mismatch: " ++ sha1 ++ " vs " ++ sha1Hex bytes))
  .ok { s with staged := s.staged.insert sha1 bytes }

def promoteUpload : Except ApiError State :=
  match s.staged.lookup sha1 with
  | none => .error .notFound
  | some bytes => (saveCacheJar sha1Hex s sha1 bytes).map fun s =>
      { s with staged := s.staged.erase sha1 }

end Calls

/-! ## The removed list -/

section Removed

variable {removedTxt : Option String} {sha1 : String}

/-- A hash can be listed. -/
theorem isEntry_of_isSha1 (h : isSha1 sha1 = true) : IsEntry sha1 := by
  have hhex : isHex sha1 = true := (of_decide_eq_true h).1
  have hletters := List.all_eq_true.1 (of_decide_eq_true hhex).2
  have hspace : ∀ c ∈ sha1.toList, isWhiteSpace c = false := fun c hc =>
    not_isWhiteSpace_of_hex (of_decide_eq_true (hletters c hc))
  refine ⟨(of_decide_eq_true hhex).1, trim_eq_self hspace, fun hn => ?_⟩
  exact absurd (hspace _ hn) (by decide)

theorem isSha1Removed_iff (h : isSha1 sha1 = true) :
    isSha1Removed removedTxt sha1 = true ↔ sha1 ∈ listRemoved removedTxt := by
  rcases removedTxt with _ | content
  · rw [isSha1Removed, Option.any_none, listRemoved, Option.elim_none]
    exact ⟨fun hr => absurd hr Bool.false_ne_true, fun hin => absurd hin List.not_mem_nil⟩
  · rw [isSha1Removed, Option.any_some, listRemoved, Option.elim_some, entries, List.mem_filter,
      List.mem_map, List.any_eq_true]
    constructor
    · rintro ⟨line, hline, heq⟩
      exact ⟨⟨line, hline, of_decide_eq_true heq⟩, decide_eq_true (isEntry_of_isSha1 h).ne⟩
    · rintro ⟨⟨line, hline, heq⟩, -⟩
      exact ⟨line, hline, decide_eq_true heq⟩

/-- A hash that is written into the file is listed, after what was. -/
theorem listRemoved_recordRemoved (h : isSha1 sha1 = true) :
    listRemoved (recordRemoved removedTxt sha1) =
      if sha1 ∈ listRemoved removedTxt then listRemoved removedTxt
      else listRemoved removedTxt ++ [sha1] := by
  rw [recordRemoved]
  by_cases hin : sha1 ∈ listRemoved removedTxt
  · rw [if_pos ((isSha1Removed_iff h).2 hin), if_pos hin]
  · rw [if_neg fun hr => hin ((isSha1Removed_iff h).1 hr), if_neg hin]
    rw [listRemoved, Option.elim_some, entries_addLine _ (isEntry_of_isSha1 h)]
    rcases removedTxt with _ | content
    · rw [Option.getD_none, entries_empty]
      rfl
    · rfl

theorem listRemoved_withoutHash :
    listRemoved (withoutHash removedTxt sha1) = (listRemoved removedTxt).filter fun l => l ≠ sha1 := by
  rcases removedTxt with _ | content
  · rfl
  · have hall : ∀ e ∈ (entries content).filter fun l => l ≠ sha1, IsEntry e := fun e he =>
      isEntry_of_mem_entries (List.mem_of_mem_filter he)
    rw [withoutHash, Option.map_some, listRemoved, Option.elim_some, entries_writeLines hall,
      listRemoved, Option.elim_some]

end Removed

/-! ## The calls on a list -/

section View

variable {sha1Hex : Jar → String} {s s' : State} {sha1 : String} (u : Uploads.State)

/-- What the moderation of uploads sees of the files. -/
def State.view (s : State) (u : Uploads.State) : Uploads.State :=
  { u with cache := s.cache, staged := s.staged, removed := listRemoved s.removedTxt }

theorem saveCacheJar_eq_ok {bytes : Jar} : saveCacheJar sha1Hex s sha1 bytes = .ok s' ↔
    isSha1 sha1 = true ∧ sha1Hex bytes = sha1 ∧ sha1 ∉ listRemoved s.removedTxt ∧
      s' = if sha1 ∈ s.cache then s else { s with cache := s.cache.insert sha1 bytes } := by
  simp only [saveCacheJar, bind_eq_ok, refuseIf_eq_ok, not_not, Except.ok.injEq]
  constructor
  · rintro ⟨_, hsha1, _, hhash, _, hremoved, rfl⟩
    exact ⟨hsha1, hhash, fun hin => hremoved ((isSha1Removed_iff hsha1).2 hin),
      rfl⟩
  · rintro ⟨hsha1, hhash, hremoved, rfl⟩
    exact ⟨(), hsha1, (), hhash, (), fun hin =>
      hremoved ((isSha1Removed_iff hsha1).1 hin), rfl⟩

theorem takedown_eq_ok : takedown s sha1 = .ok s' ↔ isSha1 sha1 = true ∧
    s' = { s with
      cache := s.cache.erase sha1
      removedTxt := recordRemoved s.removedTxt sha1
      down := asHash sha1 :: s.down } := by
  simp only [takedown, bind_eq_ok, refuseIf_eq_ok, not_not, Except.ok.injEq]
  constructor
  · rintro ⟨_, h, he⟩
    exact ⟨h, he.symm⟩
  · rintro ⟨h, he⟩
    exact ⟨(), h, he.symm⟩

theorem restore_eq_ok : restore s sha1 = .ok s' ↔ isSha1 sha1 = true ∧
    s' = { s with
      removedTxt := withoutHash s.removedTxt sha1
      down := s.down.filter fun h => h ≠ asHash sha1 } := by
  simp only [restore, bind_eq_ok, refuseIf_eq_ok, not_not, Except.ok.injEq]
  constructor
  · rintro ⟨_, h, he⟩
    exact ⟨h, he.symm⟩
  · rintro ⟨h, he⟩
    exact ⟨(), h, he.symm⟩

/-- A jar is cached if it is with the list. -/
theorem view_saveCacheJar {bytes : Jar} :
    (saveCacheJar sha1Hex s sha1 bytes).map (·.view u) =
      Uploads.saveCacheJar sha1Hex (s.view u) sha1 bytes := by
  rw [saveCacheJar, Uploads.saveCacheJar]
  by_cases hsha1 : isSha1 sha1 = true
  · have hlisted : isSha1Removed s.removedTxt sha1 = true ↔ sha1 ∈ listRemoved s.removedTxt :=
      isSha1Removed_iff hsha1
    have hcached : (if sha1 ∈ s.cache then s else
        { s with cache := s.cache.insert sha1 bytes }).view u =
          if sha1 ∈ s.cache then s.view u else
            { s.view u with cache := s.cache.insert sha1 bytes } := by
      split_ifs <;> rfl
    rw [refuseIf_congr hlisted]
    simp only [map_bind]
    exact congrArg (refuseIf _ _ >>= fun _ => refuseIf _ _ >>= fun _ => refuseIf _ _ >>= fun _ =>
      Except.ok ·) hcached
  · rw [refuseIf, if_pos hsha1]
    rfl

/-- A hash is listed that is taken down. -/
theorem view_takedown :
    (takedown s sha1).map (·.view u) = Uploads.takedown (s.view u) sha1 := by
  rw [takedown, Uploads.takedown]
  by_cases hsha1 : isSha1 sha1 = true
  · rw [refuseIf, if_neg (not_not_intro hsha1)]
    exact congrArg (fun removed => Except.ok { s.view u with cache := s.cache.erase sha1, removed })
      (listRemoved_recordRemoved hsha1)
  · rw [refuseIf, if_pos hsha1]
    rfl

/-- And it is listed no more when it is restored. -/
theorem view_restore : (restore s sha1).map (·.view u) = Uploads.restore (s.view u) sha1 := by
  rw [restore, Uploads.restore]
  by_cases hsha1 : isSha1 sha1 = true
  · rw [refuseIf, if_neg (not_not_intro hsha1)]
    exact congrArg (fun removed => Except.ok { s.view u with removed }) listRemoved_withoutHash
  · rw [refuseIf, if_pos hsha1]
    rfl

end View

/-! ## The system -/

/-- The calls, with any argument. -/
inductive Act
  | saveCacheJar (sha1 : String) (bytes : Jar)
  | deleteCacheJar (sha1 : String)
  | takedown (sha1 : String)
  | restore (sha1 : String)
  | stageUpload (sha1 : String) (bytes : Jar)
  | promoteUpload (sha1 : String)

section Step

variable (sha1Hex : Jar → String)

def handle (s : State) : Act → Except ApiError State
  | .saveCacheJar sha1 bytes => Takedown.saveCacheJar sha1Hex s sha1 bytes
  | .deleteCacheJar sha1 => Takedown.deleteCacheJar s sha1
  | .takedown sha1 => Takedown.takedown s sha1
  | .restore sha1 => Takedown.restore s sha1
  | .stageUpload sha1 bytes => Takedown.stageUpload sha1Hex s sha1 bytes
  | .promoteUpload sha1 => Takedown.promoteUpload sha1Hex s sha1

/-- The state after a call: one that is refused changes nothing. -/
def step (s : State) (a : Act) : Option State :=
  match handle sha1Hex s a with
  | .ok s' => some s'
  | .error _ => some s

/-- Before any takedown, every cached jar is under its hash, whatever is staged and listed. -/
def system : System State Act where
  init s := s.down = [] ∧ ∀ sha1 jar, s.cache.lookup sha1 = some jar → sha1Hex jar = sha1
  step := step sha1Hex

end Step

/-- A hash is taken down or restored in lower case. -/
def AsComputed (_ : State) : Act → Prop
  | .takedown sha1 => asHash sha1 = sha1
  | .restore sha1 => asHash sha1 = sha1
  | _ => True

/-- No jar of a hash is cached, and none gets into the cache. -/
structure Held (sha1Hex : Jar → String) (s : State) (hash : String) : Prop where
  absent (sha1 : String) (jar : Jar) : s.cache.lookup sha1 = some jar → sha1Hex jar ≠ hash
  save (sha1 : String) (bytes : Jar) (s' : State) : sha1Hex bytes = hash →
    saveCacheJar sha1Hex s sha1 bytes ≠ .ok s'
  promote (sha1 : String) (bytes : Jar) (s' : State) : s.staged.lookup sha1 = some bytes →
    sha1Hex bytes = hash → promoteUpload sha1Hex s sha1 ≠ .ok s'

/-- What a restore of a hash does: jars of it can be cached, and no others that could not be. -/
structure Freed (sha1Hex : Jar → String) (s s' : State) (hash : String) : Prop where
  save (bytes : Jar) : sha1Hex bytes = hash → ∃ t, saveCacheJar sha1Hex s' hash bytes = .ok t
  others (sha1 : String) (bytes : Jar) : sha1Hex bytes ≠ hash →
    ((∃ t, saveCacheJar sha1Hex s' sha1 bytes = .ok t) ↔
      ∃ t, saveCacheJar sha1Hex s sha1 bytes = .ok t)

/-- Jars are cached under their hashes, and those that are taken down are listed and not cached. -/
structure Inv (sha1Hex : Jar → String) (s : State) : Prop where
  hashed (sha1 : String) (jar : Jar) : s.cache.lookup sha1 = some jar → sha1Hex jar = sha1
  listed : ∀ h ∈ s.down, h ∈ listRemoved s.removedTxt
  absent : ∀ h ∈ s.down, h ∉ s.cache

section Inv

variable {sha1Hex : Jar → String} {s s' : State} {sha1 hash : String}

theorem Inv.held (h : Inv sha1Hex s) (hmem : hash ∈ s.down) : Held sha1Hex s hash := by
  have hsave : ∀ sha1 bytes s', sha1Hex bytes = hash → saveCacheJar sha1Hex s sha1 bytes ≠ .ok s' := by
    intro sha1 bytes s' hbytes hs
    obtain ⟨-, hsame, hnot, -⟩ := saveCacheJar_eq_ok.1 hs
    rw [← hsame, hbytes] at hnot
    exact hnot (h.listed hash hmem)
  refine ⟨fun sha1 jar hjar hhash => ?_, hsave, fun sha1 bytes s' hstaged hbytes hs => ?_⟩
  · have hin : hash ∈ s.cache := by
      rw [← hhash, h.hashed sha1 jar hjar]
      exact AList.lookup_isSome.1 (hjar ▸ rfl)
    exact h.absent hash hmem hin
  · rw [promoteUpload, hstaged] at hs
    obtain ⟨t, ht, -⟩ := map_eq_ok.1 hs
    exact hsave sha1 bytes t hbytes ht

/-- A jar that is cached is of no hash that is taken down. -/
theorem Inv.save (h : Inv sha1Hex s) {bytes : Jar}
    (hs : saveCacheJar sha1Hex s sha1 bytes = .ok s') : Inv sha1Hex s' := by
  obtain ⟨-, hhash, hnot, rfl⟩ := saveCacheJar_eq_ok.1 hs
  split_ifs with hin
  · exact h
  · refine ⟨fun name jar hjar => ?_, h.listed, fun k hk hmem => ?_⟩
    · by_cases hname : name = sha1
      · rw [hname, AList.lookup_insert] at hjar
        rw [hname, ← Option.some.inj hjar, hhash]
      · rw [AList.lookup_insert_ne hname] at hjar
        exact h.hashed name jar hjar
    · rcases (AList.mem_insert _).1 hmem with rfl | hmem
      · exact hnot (h.listed _ hk)
      · exact h.absent k hk hmem

theorem Inv.promote (h : Inv sha1Hex s) (hs : promoteUpload sha1Hex s sha1 = .ok s') :
    Inv sha1Hex s' := by
  rw [promoteUpload] at hs
  split at hs
  · exact absurd hs nofun
  · obtain ⟨t, ht, rfl⟩ := map_eq_ok.1 hs
    have hinv := h.save ht
    exact ⟨hinv.hashed, hinv.listed, hinv.absent⟩

/-- What is in a cache without a jar is in the cache. -/
theorem Inv.erase (h : Inv sha1Hex s) (sha1 : String) :
    Inv sha1Hex { s with cache := s.cache.erase sha1 } := by
  refine ⟨fun name jar hjar => ?_, h.listed, fun k hk hmem =>
    h.absent k hk (AList.mem_erase.1 hmem).2⟩
  by_cases hname : name = sha1
  · rw [hname, AList.lookup_erase] at hjar
    exact absurd hjar nofun
  · rw [AList.lookup_erase_ne hname] at hjar
    exact h.hashed name jar hjar

theorem Inv.takedown (h : Inv sha1Hex s) (hlow : asHash sha1 = sha1)
    (hs : Takedown.takedown s sha1 = .ok s') : Inv sha1Hex s' := by
  obtain ⟨hsha1, rfl⟩ := takedown_eq_ok.1 hs
  have herase := h.erase sha1
  refine ⟨herase.hashed, fun k hk => ?_, fun k hk => ?_⟩
  · rw [listRemoved_recordRemoved hsha1]
    rcases List.mem_cons.1 hk with rfl | hk
    · rw [hlow]
      split_ifs with hin
      · exact hin
      · exact List.mem_append_right _ (List.mem_singleton_self _)
    · split_ifs
      · exact h.listed k hk
      · exact List.mem_append_left _ (h.listed k hk)
  · rcases List.mem_cons.1 hk with rfl | hk
    · rw [hlow]
      exact fun hmem => (AList.mem_erase.1 hmem).1 rfl
    · exact herase.absent k hk

theorem Inv.restore (h : Inv sha1Hex s) (hlow : asHash sha1 = sha1)
    (hs : Takedown.restore s sha1 = .ok s') : Inv sha1Hex s' := by
  obtain ⟨-, rfl⟩ := restore_eq_ok.1 hs
  refine ⟨h.hashed, fun k hk => ?_, fun k hk => h.absent k (List.mem_of_mem_filter hk)⟩
  obtain ⟨hk, hne⟩ := List.mem_filter.1 hk
  rw [listRemoved_withoutHash]
  exact List.mem_filter.2 ⟨h.listed k hk, hlow ▸ hne⟩

theorem inv_of_reach (h : (system sha1Hex).Reach AsComputed s) : Inv sha1Hex s := by
  refine h.invariant ?_ ?_
  · rintro s ⟨hdown, hhashed⟩
    refine ⟨hhashed, ?_, ?_⟩ <;> rw [hdown] <;> exact fun _ hk => absurd hk List.not_mem_nil
  · intro s a s' hs hok hst
    have hst : step sha1Hex s a = some s' := hst
    rw [step] at hst
    split at hst
    · rename_i t ht
      obtain rfl := Option.some.inj hst
      rcases a with ⟨sha1, bytes⟩ | sha1 | sha1 | sha1 | ⟨sha1, bytes⟩ | sha1
      · exact hs.save ht
      · simp only [handle, deleteCacheJar, bind_eq_ok] at ht
        obtain ⟨_, _, _, _, hs'⟩ := ht
        exact Except.ok.inj hs' ▸ hs.erase sha1
      · exact hs.takedown hok ht
      · exact hs.restore hok ht
      · simp only [handle, stageUpload, bind_eq_ok] at ht
        obtain ⟨_, _, _, _, hs'⟩ := ht
        exact Except.ok.inj hs' ▸ ⟨hs.hashed, hs.listed, hs.absent⟩
      · exact hs.promote ht
    · exact Option.some.inj hst ▸ hs

theorem freed_restore (hs : restore s hash = .ok s') : Freed sha1Hex s s' hash := by
  obtain ⟨hsha1, rfl⟩ := restore_eq_ok.1 hs
  refine ⟨fun bytes hbytes => ⟨_, saveCacheJar_eq_ok.2 ⟨hsha1, hbytes, ?_, rfl⟩⟩, fun sha1 bytes hne => ?_⟩
  · rw [listRemoved_withoutHash]
    exact fun hin => of_decide_eq_true (List.mem_filter.1 hin).2 rfl
  · -- only the hash itself is taken off the list
    have hiff : sha1Hex bytes = sha1 → (sha1 ∉ listRemoved (withoutHash s.removedTxt hash) ↔
        sha1 ∉ listRemoved s.removedTxt) := by
      intro hhash
      rw [listRemoved_withoutHash, List.mem_filter, decide_eq_true_iff,
        and_iff_left (hhash ▸ hne)]
    constructor
    · rintro ⟨t, ht⟩
      obtain ⟨h₁, hhash, hnot, -⟩ := saveCacheJar_eq_ok.1 ht
      exact ⟨_, saveCacheJar_eq_ok.2 ⟨h₁, hhash, (hiff hhash).1 hnot, rfl⟩⟩
    · rintro ⟨t, ht⟩
      obtain ⟨h₁, hhash, hnot, -⟩ := saveCacheJar_eq_ok.1 ht
      exact ⟨_, saveCacheJar_eq_ok.2 ⟨h₁, hhash, (hiff hhash).2 hnot, rfl⟩⟩

/-- As long as hashes are taken down and restored in lower case, no jar of a hash that is taken down
    is cached, or gets into the cache, and a restore frees its hash alone. -/
theorem system_held (h : (system sha1Hex).Reach AsComputed s) :
    (∀ hash ∈ s.down, Held sha1Hex s hash) ∧
      ∀ hash s', asHash hash = hash → restore s hash = .ok s' → Freed sha1Hex s s' hash :=
  ⟨fun _ hmem => (inv_of_reach h).held hmem, fun _ _ _ hs => freed_restore hs⟩

instance : ∀ s, DecidablePred (AsComputed s)
  | _, .takedown sha1 => inferInstanceAs (Decidable (asHash sha1 = sha1))
  | _, .restore sha1 => inferInstanceAs (Decidable (asHash sha1 = sha1))
  | _, .saveCacheJar _ _ => isTrue trivial
  | _, .deleteCacheJar _ => isTrue trivial
  | _, .stageUpload _ _ => isTrue trivial
  | _, .promoteUpload _ => isTrue trivial

/-- Nothing is cached, and no file lists anything. -/
def empty : State := ⟨∅, ∅, none, []⟩

open Uploads (abc abcSha1)

/-- The hash of the jar in upper case. -/
def upperSha1 : String := String.ofList (abcSha1.toList.map Char.toUpper)

/-- A jar is cached and taken down. -/
theorem system_held_abc : ∃ s : State, abcSha1 ∈ s.down ∧
    (∀ hash ∈ s.down, Held (fun _ => abcSha1) s hash) ∧
      ∀ hash s', asHash hash = hash → restore s hash = .ok s' →
        Freed (fun _ => abcSha1) s s' hash := by
  have hrun : (((system fun _ => abcSha1).guarded AsComputed).run empty
      [.saveCacheJar abcSha1 abc, .takedown abcSha1]).any
        (fun s : State => abcSha1 ∈ s.down) = true := by
    decide +kernel
  obtain ⟨s, hs, hdown⟩ := (Option.any_eq_true _ _).1 hrun
  have h₀ : ((system fun _ => abcSha1).guarded AsComputed).Reachable empty :=
    .init ⟨rfl, fun sha1 jar hjar => absurd hjar nofun⟩
  exact ⟨s, of_decide_eq_true hdown, system_held (h₀.run hs).of_guarded⟩

/-- A jar is taken down by its hash in upper case, and stays in the cache. -/
theorem takedown_upper : ∃ s : State, (system fun _ => abcSha1).Reachable s ∧
    abcSha1 ∈ s.down ∧ s.cache.lookup abcSha1 = some abc ∧ ¬ Held (fun _ => abcSha1) s abcSha1 := by
  have hrun : ((system fun _ => abcSha1).run empty
      [.saveCacheJar abcSha1 abc, .takedown upperSha1]).any
        (fun s : State => abcSha1 ∈ s.down ∧ s.cache.lookup abcSha1 = some abc) = true := by
    decide +kernel
  obtain ⟨s, hs, hend⟩ := (Option.any_eq_true _ _).1 hrun
  obtain ⟨hdown, hcached⟩ := of_decide_eq_true hend
  have h₀ : (system fun _ => abcSha1).Reachable empty :=
    .init ⟨rfl, fun sha1 jar hjar => absurd hjar nofun⟩
  exact ⟨s, h₀.run hs, hdown, hcached, fun hheld => hheld.absent abcSha1 abc hcached rfl⟩

end Inv

end Takedown

end Smrt
