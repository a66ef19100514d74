import Mathlib.Data.List.Perm.Lattice
import Mathlib.Data.List.Sort

/-!
# Pages

A listing in the order of a key is served in pages: a page is cut to a size and names, if there is
more, its last row as the one that the next page comes after (`cut`); a reader follows these names
until there is none (`follow`). The listing may change from one page to the next. What a reader is
served is not the row itself but what is shown of it at that moment, under the name of the row.

`Serves` says what the source of the pages does: it cuts the listing of the moment, from its start
or after the row that is named, and rows are added to the listing, never removed.

* `Serves.follow_full`: all pages but the last one are full;
* `Serves.walks`: over a listing that does not change, the pages are the listing;
* `Serves.unbroken`: the rows that were there at the beginning are served in their order, none
  skipped and none repeated, whatever is added meanwhile.
-/

namespace Smrt.Pages

variable {ρ σ γ ι κ : Type*}

/-- A page of the rows, and the name that the next one is asked for by, if there is more. -/
def cut (size : ℕ) (mint : σ → γ) (rows : List σ) : List σ × Option γ :=
  (rows.take size, if size < rows.length then (rows.take size).getLast?.map mint else none)

/-- So many rows at most, or all of them. -/
def limited : Option ℕ → List ρ → List ρ
  | some n, rows => rows.take n
  | none, rows => rows

/-- The pages that a reader is served who follows the names, from the `i`-th moment on, for at
    most `n` pages after the first one; and the name that is left to follow. -/
def follow (answer : ℕ → Option γ → List σ × Option γ) :
    ℕ → ℕ → Option γ → List (List σ) × Option γ
  | 0, i, c => ([(answer i c).1], (answer i c).2)
  | n + 1, i, c =>
    match answer i c with
    | (page, none) => ([page], none)
    | (page, some next) =>
      let (pages, left) := follow answer n (i + 1) (some next)
      (page :: pages, left)

/-- Followed from the start, the pages end; they are the listing, and all but the last are full. -/
def Walks (answer : Option γ → List σ × Option γ) (size : ℕ) (whole : List σ) : Prop :=
  ∃ pages : List (List σ), pages.flatten = whole ∧ (∀ p ∈ pages.dropLast, p.length = size) ∧
    ∀ n, whole.length ≤ n → follow (fun _ => answer) n 0 none = (pages, none)

/-- However far they are followed, the pages have the rows of a listing in their order, none skipped
    and none repeated; they have all of them when there is no more to follow. -/
def Unbroken [DecidableEq ι] (answer : ℕ → Option γ → List σ × Option γ) (label : σ → ι)
    (whole : List σ) : Prop :=
  ∀ n, ∃ rest, ((follow answer n 0 none).1.flatten.map label).filter (· ∈ whole.map label) ++ rest =
    whole.map label ∧ ((follow answer n 0 none).2 = none → rest = [])

theorem map_limited {f : ρ → σ} {limit : Option ℕ} {rows : List ρ} :
    (limited limit rows).map f = limited limit (rows.map f) := by
  cases limit with
  | none => rfl
  | some n => exact List.map_take

/-- What the pages are does not depend on what they are compared with. -/
theorem Walks.unique {answer : Option γ → List σ × Option γ} {size : ℕ} {whole whole' : List σ}
    (h : Walks answer size whole) (h' : Walks answer size whole') : whole = whole' := by
  obtain ⟨pages, hflat, -, hfollow⟩ := h
  obtain ⟨pages', hflat', -, hfollow'⟩ := h'
  have hpages := (hfollow _ (Nat.le_max_left _ _)).symm.trans (hfollow' _ (Nat.le_max_right _ _))
  rw [← hflat, ← hflat', (Prod.mk.inj hpages).1]

/-! ## One page -/

section Cut

variable {size : ℕ} {mint : σ → γ} {rows : List σ}

/-- One row more than the page is enough to cut it. -/
theorem cut_take : cut size mint (rows.take (size + 1)) = cut size mint rows := by
  have hlen : size < (rows.take (size + 1)).length ↔ size < rows.length := by
    rw [List.length_take]
    omega
  rw [cut, cut, List.take_take, Nat.min_eq_left (Nat.le_succ size)]
  simp only [hlen]

/-- What fits is all on one page. -/
theorem cut_of_le (h : rows.length ≤ size) : cut size mint rows = (rows, none) := by
  rw [cut, List.take_of_length_le h, if_neg (Nat.not_lt.2 h)]

/-- What does not fit is a full page, with the name of its last row, and a rest. -/
theorem exists_cut {rows : List ρ} (shown : ρ → σ) (mint : σ → γ) (hsize : 0 < size) (h : size < rows.length) :
    ∃ page last rest, rows = page ++ last :: rest ∧ rest ≠ [] ∧ page.length + 1 = size ∧
      cut size mint (rows.map shown) =
        ((page ++ [last]).map shown, some (mint (shown last))) := by
  obtain ⟨k, rfl⟩ : ∃ k, size = k + 1 := ⟨size - 1, (Nat.succ_pred_eq_of_pos hsize).symm⟩
  have hk : k < rows.length := Nat.lt_of_succ_lt h
  have htake : rows.take (k + 1) = rows.take k ++ [rows[k]] := List.take_succ_eq_append_getElem hk
  have hdrop : rows.drop k = rows[k] :: rows.drop (k + 1) := List.drop_eq_getElem_cons hk
  refine ⟨rows.take k, rows[k], rows.drop (k + 1), ?_, ?_, ?_, ?_⟩
  · rw [← hdrop, List.take_append_drop]
  · exact List.ne_nil_of_length_pos (by rw [List.length_drop]; omega)
  · rw [List.length_take_of_le hk.le]
  · rw [cut, List.length_map, if_pos h, ← List.map_take, htake, List.map_append, List.map_singleton,
      List.getLast?_concat, Option.map_some]

end Cut

/-! ## Listings in order -/

section Order

variable [LinearOrder κ] {key : ρ → κ} {l old : List ρ}

/-- The rows after a key, or all of them. -/
def after (key : ρ → κ) (b : Option κ) (l : List ρ) : List ρ :=
  l.filter fun r => ∀ k ∈ b, k < key r

@[simp] theorem after_none : after key none l = l := List.filter_eq_self.2 fun _ _ => by simp

/-- What comes after a row is the rest of the listing. -/
theorem after_append {page rest : List ρ} {last : ρ} {b : Option κ}
    (hl : l.Pairwise fun r s => key r < key s) (h : after key b l = page ++ last :: rest) :
    after key (some (key last)) l = rest := by
  have hsorted : (page ++ last :: rest).Pairwise fun r s => key r < key s := h ▸ hl.filter _
  obtain ⟨-, htail, hbefore⟩ := List.pairwise_append.1 hsorted
  -- after the row means after `b` too, as the row is
  have hlast : ∀ k ∈ b, k < key last := by
    have hmem : last ∈ after key b l := h ▸ List.mem_append_right _ List.mem_cons_self
    simpa using List.of_mem_filter hmem
  have hfilter : after key (some (key last)) l = after key (some (key last)) (after key b l) := by
    rw [after, after, after, List.filter_filter]
    refine List.filter_congr fun r _ => ?_
    simp only [Option.mem_some_iff, forall_eq', ← Bool.decide_and, decide_eq_decide]
    exact ⟨fun hr => ⟨hr, fun k hk => (hlast k hk).trans hr⟩, And.left⟩
  rw [hfilter, h, after, List.filter_append, List.filter_cons_of_neg (by simp)]
  have hpage : page.filter (fun r => ∀ k ∈ some (key last), k < key r) = [] := by
    refine List.filter_eq_nil_iff.2 fun r hr => ?_
    simpa using (hbefore r hr last List.mem_cons_self).le
  have hrest : rest.filter (fun r => ∀ k ∈ some (key last), k < key r) = rest := by
    refine List.filter_eq_self.2 fun r hr => ?_
    simpa using (List.pairwise_cons.1 htail).1 r hr
  rw [hpage, hrest, List.nil_append]

/-- Rows in order that are of another listing in order are those of it that are theirs. -/
theorem filter_eq_of_subset {p : ρ → Bool} (hl : l.Pairwise fun r s => key r < key s)
    (hold : old.Pairwise fun r s => key r < key s) (hsub : old ⊆ l)
    (hp : ∀ r ∈ l, p r = true ↔ r ∈ old) : l.filter p = old := by
  have hirrefl : ∀ {m : List ρ}, (m.Pairwise fun r s => key r < key s) → m.Nodup :=
    fun hm => hm.imp fun hlt he => absurd (congrArg key he) hlt.ne
  refine List.Perm.eq_of_pairwise (fun r s _ _ hrs hsr => absurd hrs hsr.asymm) (hl.filter _) hold ?_
  refine (List.perm_ext_iff_of_nodup ((hirrefl hl).filter _) (hirrefl hold)).2 fun r => ?_
  rw [List.mem_filter]
  exact ⟨fun ⟨hr, hpr⟩ => (hp r hr).1 hpr, fun hr => ⟨hsub hr, (hp r (hsub hr)).2 hr⟩⟩

/-- Rows sorted by a key that tells them apart are in its order. -/
theorem pairwise_insertionSort (hl : l.Nodup) (hkey : ∀ r ∈ l, ∀ s ∈ l, key r = key s → r = s) :
    (l.insertionSort fun r s => key r ≤ key s).Pairwise fun r s => key r < key s := by
  have hle : (l.insertionSort fun r s => key r ≤ key s).Pairwise fun r s => key r ≤ key s :=
    haveI : Std.Total fun r s : ρ => key r ≤ key s := ⟨fun r s => le_total (key r) (key s)⟩
    haveI : IsTrans ρ fun r s => key r ≤ key s := ⟨fun _ _ _ => le_trans⟩
    List.pairwise_insertionSort _ l
  have hne := (List.perm_insertionSort (fun r s => key r ≤ key s) l).nodup_iff.2 hl
  refine (hle.and hne).imp_of_mem fun {r s} hr hs hrs => lt_of_le_of_ne hrs.1 fun he => hrs.2 ?_
  exact hkey r ((List.mem_insertionSort _).1 hr) s ((List.mem_insertionSort _).1 hs) he

/-- Sorting and leaving out rows is leaving them out and sorting. -/
theorem insertionSort_filter {p : ρ → Bool} (hl : l.Nodup)
    (hkey : ∀ r ∈ l, ∀ s ∈ l, key r = key s → r = s) :
    ((l.filter p).insertionSort fun r s => key r ≤ key s) =
      (l.insertionSort fun r s => key r ≤ key s).filter p := by
  have hsorted := pairwise_insertionSort hl hkey
  refine (filter_eq_of_subset hsorted (pairwise_insertionSort (hl.filter p) ?_) ?_ ?_).symm
  · exact fun r hr s hs => hkey r (List.mem_of_mem_filter hr) s (List.mem_of_mem_filter hs)
  · intro r hr
    rw [List.mem_insertionSort] at hr ⊢
    exact List.mem_of_mem_filter hr
  · intro r hr
    rw [List.mem_insertionSort] at hr ⊢
    rw [List.mem_filter, and_iff_right hr]

/-- The rows after a key, of a listing in which other rows are, are named among the names there. -/
theorem names_after [DecidableEq ι] {name : ρ → ι} (hl : l.Pairwise fun r s => key r < key s)
    (hname : ∀ r ∈ l, ∀ s ∈ l, name r = name s → r = s)
    (hold : old.Pairwise fun r s => key r < key s) (hsub : old ⊆ l) (b : Option κ) :
    ((after key b l).map name).filter (· ∈ old.map name) = (after key b old).map name := by
  rw [List.filter_map]
  congr 1
  refine filter_eq_of_subset (hl.filter _) (hold.filter _) (List.filter_subset _ hsub) ?_
  intro r hr
  obtain ⟨hmem, hafter⟩ := List.mem_filter.1 hr
  rw [Function.comp_apply, decide_eq_true_eq, List.mem_map, after, List.mem_filter]
  constructor
  · rintro ⟨s, hs, hsr⟩
    exact ⟨hname s (hsub hs) r hmem hsr ▸ hs, hafter⟩
  · exact fun h => ⟨r, h.1, rfl⟩

end Order

/-! ## The walk -/

section Walk

variable {answer : ℕ → Option γ → List σ × Option γ} {i n : ℕ} {c : Option γ} {page : List σ}

/-- Without a name to follow the walk is over. -/
theorem follow_of_none (h : answer i c = (page, none)) : follow answer n i c = ([page], none) := by
  cases n <;> simp only [follow, h]

theorem follow_zero_of_some {next : γ} (h : answer i c = (page, some next)) :
    follow answer 0 i c = ([page], some next) := by
  simp only [follow, h]

theorem follow_succ_of_some {next : γ} (h : answer i c = (page, some next)) :
    follow answer (n + 1) i c = (page :: (follow answer n (i + 1) (some next)).1,
      (follow answer n (i + 1) (some next)).2) := by
  simp only [follow, h]

theorem follow_ne_nil : (follow answer n i c).1 ≠ [] := by
  rcases h : answer i c with ⟨page, _ | next⟩
  · simp [follow_of_none h]
  · cases n with
    | zero => simp [follow_zero_of_some h]
    | succ n => simp [follow_succ_of_some h]

variable [LinearOrder κ]

/-- Each page is cut from the listing of its moment, from the start or after the row that is named,
    and rows are only added to the listing. -/
structure Serves (key : ρ → κ) (name : ρ → ι) (shown : ℕ → ρ → σ) (mint : σ → γ) (size : ℕ)
    (rows : ℕ → List ρ) (answer : ℕ → Option γ → List σ × Option γ) : Prop where
  size_pos : 0 < size
  sorted : ∀ i, (rows i).Pairwise fun r s => key r < key s
  named : ∀ i, ∀ r ∈ rows i, ∀ s ∈ rows i, name r = name s → r = s
  grows : ∀ i, rows i ⊆ rows (i + 1)
  first : ∀ i, answer i none = cut size mint ((rows i).map (shown i))
  next : ∀ i, ∀ r ∈ rows i, answer (i + 1) (some (mint (shown i r))) =
    cut size mint ((after key (some (key r)) (rows (i + 1))).map (shown (i + 1)))

namespace Serves

variable {key : ρ → κ} {name : ρ → ι} {shown : ℕ → ρ → σ} {mint : σ → γ} {size : ℕ}
  {rows : ℕ → List ρ} {b : Option κ}

/-- A page is the end of the listing, or a full one after which the next is cut. -/
theorem step (h : Serves key name shown mint size rows answer)
    (hc : answer i c = cut size mint ((after key b (rows i)).map (shown i))) :
    answer i c = ((after key b (rows i)).map (shown i), none) ∨
      ∃ page last rest, after key b (rows i) = page ++ last :: rest ∧ page.length + 1 = size ∧
        answer i c = ((page ++ [last]).map (shown i), some (mint (shown i last))) ∧
        answer (i + 1) (some (mint (shown i last))) =
          cut size mint ((after key (some (key last)) (rows (i + 1))).map (shown (i + 1))) := by
  by_cases hlen : size < (after key b (rows i)).length
  · obtain ⟨page, last, rest, hsplit, -, hpage, hcut⟩ :=
      exists_cut (shown i) mint h.size_pos hlen
    have hmem : last ∈ after key b (rows i) := hsplit ▸ List.mem_append_right _ List.mem_cons_self
    exact .inr ⟨page, last, rest, hsplit, hpage, hc.trans hcut,
      h.next i last (List.mem_of_mem_filter hmem)⟩
  · refine .inl (hc.trans (cut_of_le ?_))
    rw [List.length_map]
    exact Nat.not_lt.1 hlen

/-- Every page but the last one is full. -/
theorem follow_full (h : Serves key name shown mint size rows answer)
    (hc : answer i c = cut size mint ((after key b (rows i)).map (shown i))) :
    ∀ p ∈ (follow answer n i c).1.dropLast, p.length = size := by
  induction n generalizing i b c with
  | zero =>
    intro p hp
    cases hp
  | succ n ih =>
    rcases h.step hc with hlast | ⟨page, last, rest, -, hpage, hanswer, hnext⟩
    · rw [follow_of_none hlast]
      nofun
    · rw [follow_succ_of_some hanswer, List.dropLast_cons_of_ne_nil follow_ne_nil]
      refine List.forall_mem_cons.2 ⟨?_, ih hnext⟩
      rw [List.length_map, List.length_append, List.length_singleton, hpage]

/-- Of the rows that are there when the walk goes on, the pages name those to come in their order,
    none skipped and none repeated, as far as the walk has come. -/
theorem follow_names [DecidableEq ι] {label : σ → ι} {old : List ρ}
    (h : Serves key name shown mint size rows answer) (hlabel : ∀ i r, label (shown i r) = name r)
    (hold : old.Pairwise fun r s => key r < key s) (hsub : old ⊆ rows i)
    (hc : answer i c = cut size mint ((after key b (rows i)).map (shown i))) :
    ∃ rest, ((follow answer n i c).1.flatten.map label).filter (· ∈ old.map name) ++ rest =
      (after key b old).map name ∧ ((follow answer n i c).2 = none → rest = []) := by
  have hnames : ∀ b, ((after key b (rows i)).map name).filter (· ∈ old.map name) =
      (after key b old).map name := names_after (h.sorted i) (h.named i) hold hsub
  have hshown : ∀ i (l : List ρ), (l.map (shown i)).map label = l.map name := by
    intro i l
    rw [List.map_map]
    exact List.map_congr_left fun r _ => hlabel i r
  induction n generalizing i b c with
  | zero =>
    rcases h.step hc with hlast | ⟨page, last, rest, hsplit, -, hanswer, -⟩
    · refine ⟨[], ?_, fun _ => rfl⟩
      rw [follow_of_none hlast, List.flatten_singleton, hshown, hnames, List.append_nil]
    · refine ⟨(rest.map name).filter (· ∈ old.map name), ?_, fun hnone => ?_⟩
      · rw [follow_zero_of_some hanswer, List.flatten_singleton, hshown, ← List.filter_append,
          ← List.map_append, List.append_assoc, List.singleton_append, ← hsplit, hnames]
      · rw [follow_zero_of_some hanswer] at hnone
        cases hnone
  | succ n ih =>
    rcases h.step hc with hlast | ⟨page, last, rest, hsplit, -, hanswer, hnext⟩
    · refine ⟨[], ?_, fun _ => rfl⟩
      rw [follow_of_none hlast, List.flatten_singleton, hshown, hnames, List.append_nil]
    · have hsub' := List.Subset.trans hsub (h.grows i)
      obtain ⟨left, hleft, hdone⟩ := ih hsub' hnext
        (names_after (h.sorted _) (h.named _) hold hsub')
      rw [follow_succ_of_some hanswer]
      refine ⟨left, ?_, hdone⟩
      -- the names to come after this page are the old ones of the rest that was cut off
      have hrest : (after key (some (key last)) old).map name =
          (rest.map name).filter (· ∈ old.map name) := by
        rw [← hnames, after_append (h.sorted i) hsplit]
      rw [List.flatten_cons, List.map_append, List.filter_append, List.append_assoc, hleft, hrest,
        hshown, ← List.filter_append, ← List.map_append, List.append_assoc, List.singleton_append,
        ← hsplit, hnames]

/-- The rows that were there at the beginning are served in their order, none skipped and none
    repeated, whatever is added meanwhile. -/
theorem unbroken [DecidableEq ι] {label : σ → ι} (h : Serves key name shown mint size rows answer)
    (hlabel : ∀ i r, label (shown i r) = name r) :
    Unbroken answer label ((rows 0).map (shown 0)) := by
  intro n
  have hc : answer 0 none = cut size mint ((after key none (rows 0)).map (shown 0)) := by
    rw [after_none]
    exact h.first 0
  have hwhole : ((rows 0).map (shown 0)).map label = (rows 0).map name := by
    rw [List.map_map]
    exact List.map_congr_left fun r _ => hlabel 0 r
  have hnames := h.follow_names (n := n) hlabel (h.sorted 0) (List.Subset.refl _) hc
  rw [hwhole]
  rwa [after_none] at hnames

end Serves

/-- Over a listing that does not change, the pages are the rest of the listing. -/
theorem exists_follow {key : ρ → κ} {name : ρ → ι} {shown : ρ → σ} {mint : σ → γ} {size : ℕ}
    {rows : List ρ} {answer : Option γ → List σ × Option γ}
    (h : Serves key name (fun _ => shown) mint size (fun _ => rows) fun _ => answer) {b : Option κ}
    (hc : answer c = cut size mint ((after key b rows).map shown)) {m : ℕ}
    (hm : (after key b rows).length ≤ m) :
    ∃ pages : List (List σ), pages.flatten = (after key b rows).map shown ∧
      ∀ n i, m ≤ n → follow (fun _ => answer) n i c = (pages, none) := by
  induction m generalizing b c with
  | zero =>
    refine ⟨[(after key b rows).map shown], List.flatten_singleton, fun n i _ => ?_⟩
    exact follow_of_none (hc.trans (cut_of_le (by rw [List.length_map]; omega)))
  | succ m ih =>
    rcases h.step (i := 0) hc with hlast | ⟨page, last, rest, hsplit, hpage, hanswer, hnext⟩
    · exact ⟨[(after key b rows).map shown], List.flatten_singleton,
        fun n i _ => follow_of_none hlast⟩
    · have hrest : after key (some (key last)) rows = rest := after_append (h.sorted 0) hsplit
      have hshort : (after key (some (key last)) rows).length ≤ m := by
        rw [hsplit, List.length_append, List.length_cons] at hm
        rw [hrest]
        omega
      obtain ⟨pages, hflat, hfollow⟩ := ih hnext hshort
      refine ⟨(page ++ [last]).map shown :: pages, ?_, fun n i hn => ?_⟩
      · rw [List.flatten_cons, hflat, hrest, hsplit, ← List.map_append, List.append_assoc,
          List.singleton_append]
      · obtain ⟨k, rfl⟩ : ∃ k, n = k + 1 := ⟨n - 1, by omega⟩
        rw [@follow_succ_of_some _ _ (fun _ => answer) i _ _ _ _ hanswer,
          hfollow k (i + 1) (by omega)]

/-- Over a listing that does not change, the pages are the listing, and all but the last are full. -/
theorem Serves.walks {key : ρ → κ} {name : ρ → ι} {shown : ρ → σ} {mint : σ → γ} {size : ℕ}
    {rows : List ρ} {answer : Option γ → List σ × Option γ}
    (h : Serves key name (fun _ => shown) mint size (fun _ => rows) fun _ => answer) :
    Walks answer size (rows.map shown) := by
  have hc : answer none = cut size mint ((after key none rows).map shown) := by
    rw [after_none]
    exact h.first 0
  obtain ⟨pages, hflat, hfollow⟩ := exists_follow h hc le_rfl
  rw [after_none] at hflat hfollow
  refine ⟨pages, hflat, ?_, fun n hn => hfollow n 0 ((List.length_map _).symm.trans_le hn)⟩
  have hfull := h.follow_full (n := rows.length) (i := 0) hc
  rwa [hfollow rows.length 0 le_rfl] at hfull

end Walk

end Smrt.Pages
