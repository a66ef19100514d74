import Smrt.Accounts.Listings
import Smrt.Http.Page
import Smrt.Registry.Browse

/-!
# The listings that page

The mods of the registry (`getMods`), the threads of a pack (`publicThreads`), the comments on a thread
(`publicThread`), what a member was told (`myNotifications`) and the audit trail (`getAuditLog`) answer
whole, or in pages. What guards them is left out.

Each listing is served as its pages say (`Pages.Serves`): a cursor names the place of the last row, and
the next page goes on after this place in the listing of its own moment.

* `listings_paged`: followed to the end, the pages are the listing, and rows that are added meanwhile
  make no row of the listing be skipped or repeated (`Paged`);
* `auditLog_capped`: but unpaged, the audit trail answers the newest two hundred rows only.
-/

namespace Smrt

open Pages PageQuery Registry

/-! ## Handlers -/

section Handlers

variable (b : Base64)

/-- The number that a cursor starts with. -/
def firstNumber (page : PageQuery) : Option ℤ :=
  (page.cursor b).bind fun parts => parts.head?.bind parseI64

/-- A filter without the fields that are blank. -/
def Registry.ModsFilter.nonBlank (query : ModsFilter) : ModsFilter :=
  let blank (s : Option String) : Option String := (s.map trim).filter fun s => s ≠ ""
  ⟨blank query.q, blank query.loader, blank query.mc⟩

def getMods (t : Catalog) (query : ModsFilter) (page : PageQuery) :
    List ModSummary × Option String :=
  page.split b (t.listMods query.nonBlank (firstNumber b page) page.probe) fun m =>
    [toString m.modId]

/-- The place that a cursor of the threads names. -/
def threadPlace (page : PageQuery) : Option (ℤ × ℤ) :=
  (page.cursor b).bind fun
    | [opened, id] => (parseI64 opened).bind fun opened => (parseI64 id).map fun id => (opened, id)
    | _ => none

def publicThreads (a : Accounts) (d : Discussions) (packId : String) (kind : Option String)
    (all : Bool) (page : PageQuery) : List ShownThread × Option String :=
  page.split b (d.threadsFor a packId kind (!all) (threadPlace b page) page.probe) fun t =>
    [toString t.thread.createdAt.toInt, toString t.id]

/-- The discussion of a thread; the thread itself rides with every page. -/
def publicThread (a : Accounts) (d : Discussions) (threadId : ℕ) (page : PageQuery) :
    List ThreadComment × Option String :=
  page.split b (d.commentsOn a threadId (firstNumber b page) page.probe) fun c => [toString c.id]

def myNotifications (a : Accounts) (d : Discussions) (uid : Int64) (unread : Bool)
    (page : PageQuery) : List Notification × Option String :=
  -- the plain cap reads the same `limit`, so that it is never what bounds the answer
  let probe := page.probe.or (page.limit.map fun n => min (max n 1) 200)
  page.split b (d.notificationsFor a uid unread (firstNumber b page) probe) fun n => [toString n.id]

def getAuditLog (log : AuditLog) (page : PageQuery) : List (ℕ × AuditEntry) × Option String :=
  page.split b (log.listAudit (page.probe.getD 200) (firstNumber b page)) fun r => [toString r.1]

end Handlers

/-- A listing of a state of a kind, answered in pages of any size: followed to the end they are the
    listing, and when rows are added between the pages, none of the listing is skipped or repeated. -/
def Paged {S σ : Type} (answer : S → PageQuery → List σ × Option String) (whole : S → List σ)
    (label : σ → ℕ) (Stored : S → Prop) (Extends : S → S → Prop) : Prop :=
  ∀ limit, (∀ s, Stored s → Walks (fun c => answer s ⟨some limit, c⟩) (clamp limit) (whole s)) ∧
    ∀ s : ℕ → S, (∀ i, Stored (s i)) → (∀ i, Extends (s i) (s (i + 1))) →
      Unbroken (fun i c => answer (s i) ⟨some limit, c⟩) label (whole (s 0))

/-! ## Cursors -/

section Serves

variable {b : Base64} (hb : b.Inverts) {limit : ℕ}

include hb

theorem firstNumber_encode {n : ℕ} {l : Option ℕ} (h : n < 2 ^ 63) :
    firstNumber b ⟨l, some (encode b [toString n])⟩ = some (n : ℤ) := by
  have hcursor := cursor_encode hb l (List.cons_ne_nil (n : ℤ) [])
  rw [firstNumber]
  exact (congrArg (Option.bind · _) hcursor).trans (parseI64_toString_nat h)

theorem threadPlace_encode {opened : Int64} {n : ℕ} {l : Option ℕ} (h : n < 2 ^ 63) :
    threadPlace b ⟨l, some (encode b [toString opened.toInt, toString n])⟩ =
      some (opened.toInt, (n : ℤ)) := by
  have hcursor := cursor_encode hb l (List.cons_ne_nil opened.toInt [(n : ℤ)])
  rw [threadPlace]
  refine (congrArg (Option.bind · _) hcursor).trans ?_
  have hopened : parseI64 (toString opened.toInt) = some opened.toInt :=
    parseI64_toString opened.le_toInt opened.toInt_lt
  have hid : parseI64 (toString (n : ℤ)) = some (n : ℤ) := parseI64_toString_nat h
  simp only [List.map_cons, List.map_nil, Option.bind_some, hopened, hid, Option.map_some]

/-! ## How the listings are served -/

theorem getMods_serves {t : ℕ → Catalog} (hids : ∀ i, (t i).mods.Rowids)
    (hext : ∀ i, (t i).Extends (t (i + 1))) (query : ModsFilter) :
    Serves Registry.modKey Prod.fst (fun i => (t i).summary none) (fun m => encode b [toString m.modId])
      (clamp limit) (fun i => (t i).modRows query.nonBlank none none)
      (fun i c => getMods b (t i) query ⟨some limit, c⟩) where
  size_pos := clamp_pos
  sorted _ := Catalog.pairwise_modRows
  named i r hr s hs h := Table.eq_of_id_eq (t i).mods.increasing (Catalog.mem_modRows.1 hr).1
    (Catalog.mem_modRows.1 hs).1 h
  grows i := Catalog.modRows_extends (hext i)
  first i := by
    rw [getMods, Catalog.listMods_eq, ← split_limited]
    exact congrArg (split _ b · _) map_limited
  next i r hr := by
    have hmem := (Catalog.mem_modRows.1 hr).1
    have hplace : firstNumber b ⟨some limit, some (encode b [toString ((t i).summary none r).modId])⟩ =
        some (r.1 : ℤ) := firstNumber_encode hb (hids i r hmem)
    rw [getMods, hplace, Catalog.listMods_eq, Catalog.modRows_after ((hext i).mods hmem), map_limited]
    exact split_limited

theorem publicThreads_serves {a : ℕ → Accounts} {d : ℕ → Discussions}
    (hids : ∀ i, (d i).threads.Rowids) (hext : ∀ i, (d i).Extends (d (i + 1))) (packId : String)
    (kind : Option String) (all : Bool) :
    Serves Discussions.threadKey Prod.fst (fun i => (d i).showThread (a i))
      (fun t => encode b [toString t.thread.createdAt.toInt, toString t.id]) (clamp limit)
      (fun i => (d i).threadRows packId kind (!all) none none)
      (fun i c => publicThreads b (a i) (d i) packId kind all ⟨some limit, c⟩) where
  size_pos := clamp_pos
  sorted _ := Discussions.pairwise_threadRows
  named i r hr s hs h := Table.eq_of_id_eq (d i).threads.increasing
    (Discussions.mem_threadRows.1 hr).1 (Discussions.mem_threadRows.1 hs).1 h
  grows i := (hext i).threadRows
  first i := by
    rw [publicThreads, Discussions.threadsFor, ← split_limited]
    exact congrArg (split _ b · _) map_limited
  next i r hr := by
    have hplace : threadPlace b ⟨some limit, some (encode b
          [toString ((d i).showThread (a i) r).thread.createdAt.toInt,
            toString ((d i).showThread (a i) r).id])⟩ = some (r.2.createdAt.toInt, (r.1 : ℤ)) :=
      threadPlace_encode hb (hids i r (Discussions.mem_threadRows.1 hr).1)
    rw [publicThreads, hplace, Discussions.threadsFor, Discussions.threadRows_after, map_limited]
    exact split_limited

theorem publicThread_serves {a : ℕ → Accounts} {d : ℕ → Discussions}
    (hids : ∀ i, (d i).comments.Rowids) (hext : ∀ i, (d i).Extends (d (i + 1))) (threadId : ℕ) :
    Serves Prod.fst Prod.fst (fun i => Discussions.showComment (a i))
      (fun c => encode b [toString c.id]) (clamp limit)
      (fun i => (d i).commentRows threadId none none)
      (fun i c => publicThread b (a i) (d i) threadId ⟨some limit, c⟩) where
  size_pos := clamp_pos
  sorted _ := Discussions.pairwise_commentRows
  named i r hr s hs h := Table.eq_of_id_eq (d i).comments.increasing
    (List.mem_of_mem_filter hr) (List.mem_of_mem_filter hs) h
  grows i := (hext i).commentRows
  first i := by
    rw [publicThread, Discussions.commentsOn, ← split_limited]
    exact congrArg (split _ b · _) map_limited
  next i r hr := by
    have hplace : firstNumber b ⟨some limit, some (encode b
        [toString (Discussions.showComment (a i) r).id])⟩ = some (r.1 : ℤ) :=
      firstNumber_encode hb (hids i r (List.mem_of_mem_filter hr))
    rw [publicThread, hplace, Discussions.commentsOn, Discussions.commentRows_after, map_limited]
    exact split_limited

theorem myNotifications_serves {a : ℕ → Accounts} {d : ℕ → Discussions}
    (hids : ∀ i, (d i).notifications.Rowids) (hext : ∀ i, (d i).Extends (d (i + 1)))
    (uid : Int64) (unread : Bool) :
    Serves (fun r => OrderDual.toDual r.1) Prod.fst (fun i => Discussions.showNotice (a i))
      (fun n => encode b [toString n.id]) (clamp limit) (fun i => (d i).noticeRows uid unread)
      (fun i c => myNotifications b (a i) (d i) uid unread ⟨some limit, c⟩) where
  size_pos := clamp_pos
  sorted _ := Discussions.pairwise_noticeRows
  named i r hr s hs h := by
    have hx := Table.eq_of_id_eq (d i).notifications.increasing
      (Discussions.mem_noticeRows.1 hr).1 (Discussions.mem_noticeRows.1 hs).1 h
    obtain ⟨-, hrow⟩ := Prod.mk.inj hx
    have ht := (Discussions.mem_noticeRows.1 hr).2.1
    rw [hrow, (Discussions.mem_noticeRows.1 hs).2.1] at ht
    exact Prod.ext h (Prod.ext hrow (Option.some.inj ht).symm)
  grows i := (hext i).noticeRows
  first i := by
    have hplace : firstNumber b ⟨some limit, none⟩ = none := rfl
    rw [myNotifications, hplace, Discussions.notificationsFor_none, map_limited]
    exact split_limited
  next i r hr := by
    have hplace : firstNumber b ⟨some limit, some (encode b
        [toString (Discussions.showNotice (a i) r).id])⟩ = some (r.1 : ℤ) :=
      firstNumber_encode hb (hids i _ (Discussions.mem_noticeRows.1 hr).1)
    rw [myNotifications, hplace, Discussions.notificationsFor_after, map_limited]
    exact split_limited

theorem getAuditLog_serves {log : ℕ → AuditLog} (hids : ∀ i, (log i).Rowids)
    (hext : ∀ i, (log i).Extends (log (i + 1))) :
    Serves (fun r => OrderDual.toDual r.1) Prod.fst (fun _ => id)
      (fun r => encode b [toString r.1]) (clamp limit) (fun i => (log i).rows.reverse)
      (fun i c => getAuditLog b (log i) ⟨some limit, c⟩) where
  size_pos := clamp_pos
  sorted i := List.pairwise_reverse.2 (log i).increasing
  named i r hr s hs h := Table.eq_of_id_eq (log i).increasing (List.mem_reverse.1 hr)
    (List.mem_reverse.1 hs) h
  grows i := fun r hr => List.mem_reverse.2 (hext i (List.mem_reverse.1 hr))
  first i := by
    have hplace : firstNumber b ⟨some limit, none⟩ = none := rfl
    rw [getAuditLog, hplace, AuditLog.listAudit_none, AuditLog.ofInt_natCast, List.map_id]
    exact split_limited
  next i r hr := by
    have hplace : firstNumber b ⟨some limit, some (encode b [toString (id r).1])⟩ =
        some (r.1 : ℤ) := firstNumber_encode hb (hids i r (List.mem_reverse.1 hr))
    rw [getAuditLog, hplace, AuditLog.listAudit_after, AuditLog.ofInt_natCast, List.map_id]
    exact split_limited

end Serves

/-! ## Following the pages -/

/-- A listing whose pages are served is paged. -/
theorem paged_of_serves {S σ ρ κ : Type} [LinearOrder κ] {answer : S → PageQuery → List σ × Option String}
    {whole : S → List σ} {label : σ → ℕ} {Stored : S → Prop} {Extends : S → S → Prop} {key : ρ → κ}
    {name : ρ → ℕ} (shown : S → ρ → σ) {mint : σ → String} {rows : S → List ρ}
    (hserves : ∀ limit (s : ℕ → S), (∀ i, Stored (s i)) → (∀ i, Extends (s i) (s (i + 1))) →
      Serves key name (fun i => shown (s i)) mint (clamp limit) (fun i => rows (s i))
        fun i c => answer (s i) ⟨some limit, c⟩)
    (hself : ∀ s, Extends s s) (hlabel : ∀ s r, label (shown s r) = name r)
    (hwhole : ∀ s, whole s = (rows s).map (shown s)) :
    Paged answer whole label Stored Extends := by
  intro limit
  refine ⟨fun s hs => ?_, fun s hs hext => ?_⟩
  · rw [hwhole]
    exact (hserves limit (fun _ => s) (fun _ => hs) fun _ => hself s).walks
  · rw [hwhole]
    exact (hserves limit s hs hext).unbroken fun i r => hlabel (s i) r

section Paged

variable {b : Base64} (hb : b.Inverts)

include hb

theorem getMods_paged (query : ModsFilter) :
    Paged (fun t => getMods b t query) (fun t => (getMods b t query ⟨none, none⟩).1)
      ModSummary.modId (fun t => t.mods.Rowids) Catalog.Extends :=
  paged_of_serves (fun t => t.summary none)
    (fun _ _ hids hext => getMods_serves hb hids hext query) Catalog.extends_self
    (fun _ _ => rfl) fun _ => rfl

theorem publicThreads_paged (packId : String) (kind : Option String) (all : Bool) :
    Paged (fun s : Accounts × Discussions => publicThreads b s.1 s.2 packId kind all)
      (fun s => (publicThreads b s.1 s.2 packId kind all ⟨none, none⟩).1) ShownThread.id
      (fun s => s.2.threads.Rowids) (fun s s' => s.2.Extends s'.2) :=
  paged_of_serves (fun s => s.2.showThread s.1)
    (fun _ _ hids hext => publicThreads_serves hb hids hext packId kind all)
    (fun s => s.2.extends_self) (fun _ _ => rfl) fun _ => rfl

theorem publicThread_paged (threadId : ℕ) :
    Paged (fun s : Accounts × Discussions => publicThread b s.1 s.2 threadId)
      (fun s => (publicThread b s.1 s.2 threadId ⟨none, none⟩).1) ThreadComment.id
      (fun s => s.2.comments.Rowids) (fun s s' => s.2.Extends s'.2) :=
  paged_of_serves (fun s => Discussions.showComment s.1)
    (fun _ _ hids hext => publicThread_serves hb hids hext threadId)
    (fun s => s.2.extends_self) (fun _ _ => rfl) fun _ => rfl

theorem myNotifications_paged (uid : Int64) (unread : Bool) :
    Paged (fun s : Accounts × Discussions => myNotifications b s.1 s.2 uid unread)
      (fun s => (myNotifications b s.1 s.2 uid unread ⟨none, none⟩).1) Notification.id
      (fun s => s.2.notifications.Rowids) (fun s s' => s.2.Extends s'.2) :=
  paged_of_serves (fun s => Discussions.showNotice s.1)
    (fun _ _ hids hext => myNotifications_serves hb hids hext uid unread)
    (fun s => s.2.extends_self) (fun _ _ => rfl) fun _ => Discussions.notificationsFor_none none

/-- Of the audit trail the pages are all there is, also what is past the newest two hundred rows. -/
theorem getAuditLog_paged :
    Paged (getAuditLog b) (fun log => log.rows.reverse) Prod.fst Table.Rowids Table.Extends :=
  paged_of_serves (fun _ => id) (fun _ _ hids hext => getAuditLog_serves hb hids hext)
    (fun _ _ h => h) (fun _ _ => rfl) fun _ => (List.map_id _).symm

end Paged

/-- Each listing is what its pages are, of the audit trail all of it, whose newest two hundred rows
    are what is answered without paging. -/
theorem listings_paged (b : Base64) (hb : b.Inverts) :
    (∀ query, Paged (fun t => getMods b t query) (fun t => (getMods b t query ⟨none, none⟩).1)
      ModSummary.modId (fun t => t.mods.Rowids) Catalog.Extends) ∧
    (∀ packId kind all,
      Paged (fun s : Accounts × Discussions => publicThreads b s.1 s.2 packId kind all)
        (fun s => (publicThreads b s.1 s.2 packId kind all ⟨none, none⟩).1) ShownThread.id
        (fun s => s.2.threads.Rowids) (fun s s' => s.2.Extends s'.2)) ∧
    (∀ threadId, Paged (fun s : Accounts × Discussions => publicThread b s.1 s.2 threadId)
      (fun s => (publicThread b s.1 s.2 threadId ⟨none, none⟩).1) ThreadComment.id
      (fun s => s.2.comments.Rowids) (fun s s' => s.2.Extends s'.2)) ∧
    (∀ uid unread, Paged (fun s : Accounts × Discussions => myNotifications b s.1 s.2 uid unread)
      (fun s => (myNotifications b s.1 s.2 uid unread ⟨none, none⟩).1) Notification.id
      (fun s => s.2.notifications.Rowids) (fun s s' => s.2.Extends s'.2)) ∧
    Paged (getAuditLog b) (fun log => log.rows.reverse) Prod.fst Table.Rowids Table.Extends ∧
    ∀ log, (getAuditLog b log ⟨none, none⟩).1 = log.rows.reverse.take 200 := by
  refine ⟨getMods_paged hb, publicThreads_paged hb, publicThread_paged hb, myNotifications_paged hb,
    getAuditLog_paged hb, fun log => ?_⟩
  exact AuditLog.listAudit_none 200

/-! ## Two mods, and a long trail -/

/-- A coding that has the text `1` as it is in base 64. -/
def swapped : Base64 where
  encode s := if s = "1" then "MQ" else if s = "MQ" then "1" else s
  decode s := some (if s = "1" then "MQ" else if s = "MQ" then "1" else s).toUTF8

theorem swapped_inverts : swapped.Inverts := by
  intro s
  simp only [swapped, Option.some.injEq]
  congr 1
  by_cases h : s = "1"
  · subst h
    rfl
  · by_cases h' : s = "MQ"
    · subst h'
      rfl
    · simp only [if_neg h, if_neg h']

/-- A registry of two mods, whose names are the same but for their case. -/
def twoMods : Catalog where
  mods := (Table.empty.insert ⟨some "jei", none, .harvested⟩).insert ⟨none, some "JEI", .curator⟩
  aliases := []
  releases := .empty
  versions := .empty
  relations := []
  packages := []
  targets := []
  needs := []
  jarClasses := []
  packs := []
  builds := .empty
  buildMods := []
  bridges := []
  loaderParents := []

/-- The two mods, a mod on a page. -/
theorem listings_paged_twoMods :
    (getMods swapped twoMods ⟨none, none, none⟩ ⟨some 1, none⟩).2 = some "MQ" ∧
      Walks (fun c => getMods swapped twoMods ⟨none, none, none⟩ ⟨some 1, c⟩) (clamp 1)
        (getMods swapped twoMods ⟨none, none, none⟩ ⟨none, none⟩).1 := by
  refine ⟨by decide +kernel, ?_⟩
  exact ((listings_paged swapped swapped_inverts).1 ⟨none, none, none⟩ 1).1 twoMods
    (by decide)

/-- A trail of so many acts. -/
def trail (n : ℕ) : AuditLog where
  rows := (List.range n).map fun i => (i + 1, ⟨0, "operator", "purge", none, none, 0⟩)
  increasing := List.pairwise_map.2 (List.pairwise_lt_range.imp Nat.succ_lt_succ)

/-- Unpaged, the audit trail answers the newest two hundred rows only. -/
theorem auditLog_capped : ¬ Walks (fun c => getAuditLog swapped (trail 201) ⟨some 500, c⟩) (clamp 500)
    (getAuditLog swapped (trail 201) ⟨none, none⟩).1 := by
  intro hcapped
  have hids : (trail 201).Rowids := by
    intro x hx
    obtain ⟨i, hi, rfl⟩ := List.mem_map.1 hx
    exact (Nat.succ_le_of_lt (List.mem_range.1 hi)).trans_lt (by decide)
  have hall := (getAuditLog_paged swapped_inverts 500).1 (trail 201) hids
  have hlen := congrArg List.length (hcapped.unique hall)
  have hunpaged : (getAuditLog swapped (trail 201) ⟨none, none⟩).1 =
      (trail 201).rows.reverse.take 200 := AuditLog.listAudit_none 200
  rw [hunpaged, List.length_take, List.length_reverse] at hlen
  simp [trail] at hlen

end Smrt
