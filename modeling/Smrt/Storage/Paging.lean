import Mathlib.Data.Nat.Find
import Smrt.Storage.History

/-!
# The log, page by page

The log is read in pages: the first one from `HEAD` on, and every other one after the last commit of
the page before (`page`). Each page is read when somebody asks for it, and commits may have been
saved meanwhile. But a page continues at a commit and not at a number of commits, and what a commit
follows stays what it is. So the pages, until an empty one, are the history as it was at the first
page (`system_page`).
-/

namespace Smrt

namespace History

/-- The `k`-th page of the log, each of which is read from the files of its own moment. -/
def page (packId : String) (limit : ℕ) (disks : ℕ → Disk) : ℕ → List CommitRecord
  | 0 => commitLog packId (disks 0) none limit
  | k + 1 => match (page packId limit disks k).getLast? with
    | some c => commitLog packId (disks (k + 1)) (some c.id) limit
    | none => []

section Pages

variable {α : Type*}

/-- The first pages of a list are its beginning. -/
theorem flatMap_drop_take (l : List α) (limit k : ℕ) :
    ((List.range k).flatMap fun i => (l.drop (i * limit)).take limit) = l.take (k * limit) := by
  induction k with
  | zero => simp
  | succ k ih =>
    rw [List.range_succ, List.flatMap_append, ih, List.flatMap_singleton, Nat.succ_mul,
      List.take_add]

/-- What comes before the next page ends as this page does. -/
theorem getLast?_drop_take {l : List α} {n limit : ℕ} {a : α}
    (h : ((l.drop n).take limit).getLast? = some a) :
    ∃ before, l = before ++ a :: l.drop (n + limit) := by
  have hlast : (l.take (n + limit)).getLast? = some a := by
    rw [List.take_add, List.getLast?_append, h, Option.some_or]
  obtain ⟨before, hbefore⟩ := List.getLast?_eq_some_iff.1 hlast
  refine ⟨before, ?_⟩
  calc l = l.take (n + limit) ++ l.drop (n + limit) := (List.take_append_drop _ _).symm
    _ = before ++ a :: l.drop (n + limit) := by rw [hbefore, List.append_assoc]; rfl

/-- A page of no commits is at the end. -/
theorem drop_take_eq_nil {l : List α} {n limit : ℕ} (hlimit : 1 ≤ limit) :
    (l.drop n).take limit = [] ↔ l.length ≤ n := by
  rw [List.take_eq_nil_iff, List.drop_eq_nil_iff]
  exact or_iff_right (by omega)

end Pages

section Chain

variable {operatorUid : Int64} {packId : String} {d : Disk} {p : Option String}
  {l : List Commit} {c : Commit}

/-- After a commit of a chain come those that it follows. -/
theorem Chain.parent {a : List Commit} (h : Chain operatorUid packId d p (a ++ c :: l)) :
    Chain operatorUid packId d c.parent l := by
  induction a generalizing p with
  | nil =>
    rcases h with _ | ⟨_, _, _, h⟩
    exact h
  | cons b a ih =>
    rcases h with _ | ⟨_, _, _, h⟩
    exact ih h

theorem commitLog_after {a : List Commit} (h : Chain operatorUid packId d p (a ++ c :: l))
    (limit : ℕ) :
    commitLog packId d (some c.id) limit = (l.map Commit.record).take limit := by
  have hload := (h.load (List.mem_append_right a List.mem_cons_self)).2.1
  rw [commitLog, hload]
  exact walk_eq h.parent limit

/-- A page is its part of the history, as long as this can be read. -/
theorem page_eq {disks : ℕ → Disk} {limit : ℕ}
    (hhead : p = commitHead packId (disks 0))
    (h : ∀ k, Chain operatorUid packId (disks k) p l) (k : ℕ) :
    page packId limit disks k = ((l.map Commit.record).drop (k * limit)).take limit := by
  induction k with
  | zero =>
    rw [page, commitLog, ← hhead, walk_eq (h 0), Nat.zero_mul, List.drop_zero]
  | succ k ih =>
    rw [page, ih]
    generalize hlast : (((l.map Commit.record).drop (k * limit)).take limit).getLast? = last
    rcases last with _ | r
    · -- An empty page: there is nothing after it either.
      have hnil := List.getLast?_eq_none_iff.1 hlast
      rw [List.take_eq_nil_iff, List.drop_eq_nil_iff] at hnil
      rcases hnil with rfl | hlen
      · simp
      · rw [List.drop_eq_nil_of_le (hlen.trans (Nat.mul_le_mul_right _ (Nat.le_succ k))),
          List.take_nil]
    · obtain ⟨before, hl⟩ := getLast?_drop_take hlast
      rw [Nat.succ_mul]
      generalize (l.map Commit.record).drop (k * limit + limit) = rest at hl ⊢
      obtain ⟨a, b, rfl, _, hb⟩ := List.map_eq_append_iff.1 hl
      obtain ⟨c, b, rfl, rfl, rfl⟩ := List.map_eq_cons_iff.1 hb
      exact commitLog_after (h (k + 1)) limit

end Chain

section Run

variable {X : Outside} {N : Naming} {packId : String} {s s' : State} {l : List Commit}

/-- What a chain ends with is a chain, from where it begins. -/
theorem Chain.of_append {operatorUid : Int64} {d : Disk} {p : Option String} {a : List Commit}
    (h : Chain operatorUid packId d p (a ++ l)) : ∃ q, Chain operatorUid packId d q l := by
  induction a generalizing p with
  | nil => exact ⟨p, h⟩
  | cons b a ih =>
    rcases h with _ | ⟨_, _, _, h⟩
    exact ih h

/-- A chain begins where its first commit is. -/
theorem Chain.start_eq {operatorUid : Int64} {d d' : Disk} {p q : Option String}
    (h : Chain operatorUid packId d p l) (h' : Chain operatorUid packId d' q l) : p = q := by
  rcases h with _ | _
  · rcases h' with _ | _
    rfl
  · rcases h' with _ | _
    rfl

/-- The history of a state can be read in every later one. -/
theorem Inv.still (h : Inv X N packId s l)
    (hs : ((system X N packId).since s).Reach (NoCollision X N packId) s') :
    Chain X.operatorUid packId s'.disk (commitHead packId s.disk) l := by
  obtain ⟨l', hl'⟩ := h.since hs
  obtain ⟨q, hq⟩ := hl'.chain.of_append
  rwa [h.chain.start_eq hq]

/-- As long as no two digests collide, the pages of the log, each of them read when something may
    have been saved since the one before, are up to the first empty one the history as it was at the
    first page: every commit of it once, in its order. -/
theorem system_page {states : ℕ → State} {limit : ℕ}
    (h : (system X N packId).Reach (NoCollision X N packId) (states 0))
    (hlater : ∀ k, ((system X N packId).since (states k)).Reach (NoCollision X N packId)
      (states (k + 1)))
    (hlimit : 1 ≤ limit) :
    ∃ l, Chain X.operatorUid packId (states 0).disk (commitHead packId (states 0).disk) l ∧
      (l.map Commit.id).Nodup ∧
      ∃ pages, (∀ k < pages, page packId limit (fun k => (states k).disk) k ≠ []) ∧
        page packId limit (fun k => (states k).disk) pages = [] ∧
        (List.range pages).flatMap (page packId limit fun k => (states k).disk) =
          l.map Commit.record := by
  obtain ⟨l, hl⟩ := inv_of_reach h
  have hsince : ∀ k, ((system X N packId).since (states 0)).Reach (NoCollision X N packId)
      (states k) := by
    intro k
    induction k with
    | zero => exact .init rfl
    | succ k ih => exact ih.trans (hlater k)
  have hpage : ∀ k, page packId limit (fun k => (states k).disk) k =
      ((l.map Commit.record).drop (k * limit)).take limit :=
    page_eq rfl fun k => hl.still (hsince k)
  have hend : ∃ k, (l.map Commit.record).length ≤ k * limit :=
    ⟨(l.map Commit.record).length, Nat.le_mul_of_pos_right _ hlimit⟩
  refine ⟨l, hl.chain, hl.chain.nodup, Nat.find hend, fun k hk => ?_, ?_, ?_⟩
  · rw [hpage, ne_eq, drop_take_eq_nil hlimit]
    exact Nat.find_min hend hk
  · rw [hpage, drop_take_eq_nil hlimit]
    exact Nat.find_spec hend
  · have hpages : page packId limit (fun k => (states k).disk) =
        fun k => ((l.map Commit.record).drop (k * limit)).take limit := funext hpage
    rw [hpages, flatMap_drop_take, List.take_of_length_le (Nat.find_spec hend)]

/-- A pack with one commit, whose second page is read after a second commit was saved: the pages are
    the one commit. -/
theorem system_page_saves : ∃ (states : ℕ → State) (pages : ℕ),
    (commitLog "Anvil" (states 1).disk none 9).length = 2 ∧
      ((List.range pages).flatMap (page "Anvil" 1 fun k => (states k).disk)).map CommitRecord.id =
        ["5afb5b59a5633cae487d434d2fb18e970232c78c"] := by
  have hrun : (((system .none naming "Anvil").guarded (NoCollision .none naming "Anvil")).run
      start (saves.take 1)).any (fun s : State =>
        ((((system .none naming "Anvil").guarded (NoCollision .none naming "Anvil")).run
          s (saves.drop 1)).any fun s' : State =>
            (commitLog "Anvil" s.disk none 9).map CommitRecord.id =
              ["5afb5b59a5633cae487d434d2fb18e970232c78c"] ∧
            (commitLog "Anvil" s'.disk none 9).length = 2)) = true := by
    decide +kernel
  obtain ⟨s, hs, hrun⟩ := (Option.any_eq_true _ _).1 hrun
  obtain ⟨s', hs', hlog⟩ := (Option.any_eq_true _ _).1 hrun
  obtain ⟨hids, htwo⟩ := of_decide_eq_true hlog
  have h₀ : ((system .none naming "Anvil").guarded
      (NoCollision .none naming "Anvil")).Reachable start :=
    .init ⟨fun _ => rfl, fun _ => rfl, rfl, rfl⟩
  let states : ℕ → State := fun k => if k = 0 then s else s'
  have hlater : ∀ k, ((system .none naming "Anvil").since (states k)).Reach
      (NoCollision .none naming "Anvil") (states (k + 1)) := by
    intro k
    rcases k with _ | k
    · exact System.Reachable.of_guarded (S := (system .none naming "Anvil").since s)
        (System.reachable_since_of_run hs')
    · exact .init rfl
  obtain ⟨l, hl, -, pages, -, -, hpages⟩ := system_page
    (h₀.run hs).of_guarded hlater (Nat.le_refl 1)
  refine ⟨states, pages, htwo, ?_⟩
  rw [hpages]
  have hwhole : ((l.map Commit.record).take 9).map CommitRecord.id =
      ["5afb5b59a5633cae487d434d2fb18e970232c78c"] := by
    rw [← walk_eq hl 9]
    exact hids
  have hshort : (l.map Commit.record).length ≤ 9 := by
    have hlen := congrArg List.length hwhole
    rw [List.length_map, List.length_take, List.length_singleton] at hlen
    omega
  rwa [List.take_of_length_le hshort] at hwhole

end Run

end History

end Smrt
