import Smrt.Storage.History

/-!
# How far a pack is off its last commit

The status of a pack lists what has changed since its last commit (`commitStatus`). As long as the
revision of the config is the one that the commit has written down, the snapshot is not read, and
nothing is listed.

The revision is a digest of what a client authors, and this is all that the diff reads. So without a
collision of the two digests the list is that of the diff, whatever rows of the mirror's own have
come and gone (`commitStatus_changes`).
-/

namespace Smrt

/-- The whole config as one change, when there is a snapshot that cannot be read. -/
def wholeConfig : ConfigChange where
  group := .pack
  op := .change
  key := "config"
  label := "config"
  field := some .value
  «from» := none
  «to» := none
  project := none

/-- Where the history is, and what has changed since. -/
structure CommitStatus where
  head : Option CommitRecord
  changes : List ConfigChange
  uncommitted : ℕ
  pendingAuthors : List String

section Status

variable (X : Outside) (packId : String) (d : History.Disk) (live : PackConfig)

/-- What has changed since a commit, read off its snapshot. -/
def fullDiff (id : String) : List ConfigChange :=
  match History.loadCommitConfig X.operatorUid packId d id with
  | some snapshot => diffConfigs snapshot live
  | none => [wholeConfig]

/-- What has changed since the last commit, where an equal revision is an answer. -/
def statusChanges : List ConfigChange :=
  match History.commitHead packId d with
  | none => []
  | some id =>
    if (History.loadCommit packId d id).any fun c => editRev X live = c.configRev then []
    else fullDiff X packId d live id

def commitStatus : CommitStatus where
  head := (History.commitHead packId d).bind (History.loadCommit packId d)
  changes := statusChanges X packId d live
  uncommitted := if (History.commitHead packId d).isNone then 1
    else (statusChanges X packId d live).length
  pendingAuthors := if isSafeId packId then d.pending.getD [] else []

end Status

variable {X : Outside} {N : Naming} {cfg live : PackConfig}

/-- The diff reads nothing that the revision is not a digest of. -/
theorem diffConfigs_eq_nil_of_projected (h : live.projected = cfg.projected) :
    diffConfigs cfg live = [] := by
  rw [← diffConfigs_projected, h, diffConfigs_self]

/-- A config of the revision that a commit has written down does not differ from its snapshot, and
    the status says of every config what the diff with the snapshot says. -/
theorem commitStatus_changes {c : Commit} {parent : Option String} {author message : String}
    {contributors : List String} {at' : String}
    (hc : c = makeCommit X N cfg parent author message contributors at')
    -- The digests of the two configs do not collide.
    (hdigest : editRev X live = editRev X cfg → live.projected = cfg.projected) :
    (editRev X live = c.configRev → diffConfigs c.snapshot live = []) ∧
      ∀ packId d id, History.commitHead packId d = some id →
        History.loadCommit packId d id = some c.record →
        History.loadCommitConfig X.operatorUid packId d id = some c.snapshot →
        (commitStatus X packId d live).changes = diffConfigs c.snapshot live := by
  subst hc
  have hfast : editRev X live = editRev X cfg → diffConfigs cfg live = [] :=
    fun hrev => diffConfigs_eq_nil_of_projected (hdigest hrev)
  refine ⟨hfast, fun packId d id hhead hrecord hsnapshot => ?_⟩
  have hchanges : (commitStatus X packId d live).changes =
      if editRev X live = editRev X cfg then [] else diffConfigs cfg live := by
    rw [commitStatus, statusChanges, hhead]
    simp only [hrecord, fullDiff, hsnapshot, Option.any_some, decide_eq_true_eq]
    rfl
  rw [hchanges]
  split_ifs with hrev
  · exact (hfast hrev).symm
  · rfl

/-- The pack with nothing in it, after a library was pulled and it was taken back into a draft. -/
def drafted : PackConfig :=
  { PackConfig.empty "Industrial" with
    visibility := .draft
    mods := [⟨"lib.jar", true, .modrinth "lib" "1", none, none, true⟩] }

/-- Neither is a change since the commit. -/
theorem commitStatus_changes_drafted : diffConfigs (makeCommit .none ⟨fun t => t, fun _ => ""⟩
    (.empty "Industrial") none "ada" "first" ["ada"] "2026-01-01T00:00:00Z").snapshot drafted =
      [] :=
  (commitStatus_changes rfl fun _ => rfl).1 rfl

end Smrt
