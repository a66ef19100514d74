import Smrt.Authoring.Manifest
import Smrt.Lib.Decimal
import Smrt.Storage.Versions

/-!
# The next version

A build that names no version takes the next number of the version line of its config: one past the
highest that is published under that base. A number is 64 bits wide, and longer ones do not count.

So the version is a new one, and after all others of its line, exactly if none of them has the
highest number there is, or one beyond it (`nextAutoVersion_fresh_iff`).
-/

namespace Smrt

namespace AutoVersion

open Versions (Manifests manifestPath)

variable {debug : String → String} {base v w s : String} {existing : List String} {n : ℕ}

/-! ## Counters -/

/-- A version is a number under a base. -/
def IsCounter (base v : String) (n : ℕ) : Prop :=
  ∃ s : String, v = base ++ "." ++ s ∧ decimal s.toList = some n

/-- The numbers that are published under a base. -/
def counters (base : String) (existing : List String) : List UInt64 :=
  existing.filterMap fun v =>
    (stripPrefix v base).bind fun r => (stripPrefix r ".").bind parseU64

/-- The number after the highest one. -/
def nextCounter (base : String) (existing : List String) : UInt64 :=
  (counters base existing).max?.elim 0 fun n => n + 1

theorem nextAutoVersion_eq (base : String) (existing : List String) :
    nextAutoVersion base existing = base ++ "." ++ toString (nextCounter base existing) := rfl

/-- The names in the directory of the manifests that a build takes for versions. -/
def existingVersions (names : List String) : List String :=
  names.filterMap fun name => (stripSuffix name ".json").filter fun stem => stem ≠ "latest"

/-- Digits are read as a number, if it has not too many bits. -/
theorem parseU64_of_decimal (h : decimal s.toList = some n) :
    parseU64 s = if n < 2 ^ 64 then some (.ofNat n) else none := by
  obtain ⟨hdigits, hn⟩ := decimal_eq_some.1 h
  have hplus : '+' ∉ s.toList := fun hmem =>
    absurd (List.all_eq_true.1 (of_decide_eq_true hdigits).2 '+' hmem) (by decide)
  rw [parseU64_eq hplus, hn]
  simp only [hdigits, true_and]

/-- What is read as a number without a sign before it are its digits. -/
theorem decimal_of_parseU64 {x : UInt64} (h : parseU64 s = some x) (hplus : '+' ∉ s.toList) :
    decimal s.toList = some x.toNat := by
  rw [parseU64_eq hplus] at h
  split_ifs at h with hd
  obtain rfl := Option.some.inj h
  rw [UInt64.toNat_ofNat_of_lt' hd.2]
  exact decimal_eq_some.2 ⟨hd.1, rfl⟩

theorem mem_counters {x : UInt64} : x ∈ counters base existing ↔
    ∃ v ∈ existing, ∃ s, v = base ++ "." ++ s ∧ parseU64 s = some x := by
  rw [counters, List.mem_filterMap]
  refine exists_congr fun v => and_congr_right fun _ => ?_
  rw [Option.bind_eq_some_iff]
  constructor
  · rintro ⟨r, hr, h⟩
    obtain ⟨s, hs, hx⟩ := Option.bind_eq_some_iff.1 h
    rw [stripPrefix_eq_some] at hr hs
    exact ⟨s, by rw [hr, hs, String.append_assoc], hx⟩
  · rintro ⟨s, hv, hx⟩
    refine ⟨"." ++ s, stripPrefix_eq_some.2 (by rw [hv, String.append_assoc]), ?_⟩
    exact Option.bind_eq_some_iff.2 ⟨s, stripPrefix_eq_some.2 rfl, hx⟩

/-! ## Valid versions -/

theorem validatePackVersion_eq_ok : validatePackVersion debug v = .ok () ↔
    v ≠ "" ∧ (stripPrefix v "SNAPSHOT-").getD v ≠ "" ∧
      ∀ seg ∈ versionSegments ((stripPrefix v "SNAPSHOT-").getD v), isDigits seg = true := by
  simp only [validatePackVersion, bind_eq_ok, refuseIf_eq_ok]
  generalize (stripPrefix v "SNAPSHOT-").getD v = body
  rcases hf : (versionSegments body).find? fun seg => !isDigits seg with _ | seg
  · have hall : ∀ seg ∈ versionSegments body, isDigits seg = true := fun seg hseg => by
      simpa using List.find?_eq_none.1 hf seg hseg
    constructor
    · rintro ⟨_, hv, _, hbody, -⟩
      exact ⟨hv, hbody, hall⟩
    · rintro ⟨hv, hbody, -⟩
      exact ⟨(), hv, (), hbody, rfl⟩
  · have hbad := List.find?_some hf
    constructor
    · rintro ⟨_, _, _, _, he⟩
      cases he
    · rintro ⟨_, _, hall⟩
      rw [hall seg (List.mem_of_find?_eq_some hf)] at hbad
      exact absurd hbad (by decide)

/-- There are digits, dots and dashes in a valid version, and maybe a mark before them. -/
theorem mem_valid (h : validatePackVersion debug v = .ok ()) {c : Char} (hc : c ∈ v.toList) :
    c.isDigit = true ∨ c ∈ "SNAPSHOT-.".toList := by
  obtain ⟨-, -, hsegments⟩ := validatePackVersion_eq_ok.1 h
  have hbody : ∀ c ∈ ((stripPrefix v "SNAPSHOT-").getD v).toList,
      c.isDigit = true ∨ c ∈ "SNAPSHOT-.".toList := by
    intro c hc
    rcases mem_splitOnP (p := fun c => c = '-' ∨ c = '.') hc with hsep | ⟨seg, hseg, hc⟩
    · rcases of_decide_eq_true hsep with rfl | rfl
      · exact .inr (by decide)
      · exact .inr (by decide)
    · have hall := (of_decide_eq_true (hsegments seg hseg)).2
      exact .inl (List.all_eq_true.1 hall c hc)
  rcases hs : stripPrefix v "SNAPSHOT-" with _ | body
  · rw [hs] at hbody
    exact hbody c hc
  · rw [hs] at hbody
    rw [stripPrefix_eq_some.1 hs, String.toList_append, List.mem_append] at hc
    refine hc.elim (fun hc => .inr ?_) (hbody c)
    have hmark : "SNAPSHOT-.".toList = "SNAPSHOT-".toList ++ ['.'] := by decide
    rw [hmark]
    exact List.mem_append_left _ hc

theorem not_mem_valid (h : validatePackVersion debug v = .ok ()) {c : Char}
    (hd : c.isDigit = false) (hc : c ∉ "SNAPSHOT-.".toList) : c ∉ v.toList := fun hmem =>
  (mem_valid h hmem).elim (fun hdigit => absurd (hd.symm.trans hdigit) (by decide)) hc

/-- A number under a valid base is a valid version. -/
theorem valid_counter (h : validatePackVersion debug base = .ok ())
    (hs : isDigits s.toList = true) :
    validatePackVersion debug (base ++ "." ++ s) = .ok () := by
  obtain ⟨hne, -, hsegments⟩ := validatePackVersion_eq_ok.1 h
  have happend : ∀ body : String, (∀ seg ∈ versionSegments body, isDigits seg = true) →
      ∀ seg ∈ versionSegments (body ++ "." ++ s), isDigits seg = true := by
    intro body hall seg hseg
    have hlist : (body ++ "." ++ s).toList = body.toList ++ '.' :: s.toList := by
      simp only [String.toList_append, List.append_assoc]
      rfl
    have hlast : (s.toList.splitOnP fun c => decide (c = '-' ∨ c = '.')) = [s.toList] := by
      refine List.splitOnP_eq_singleton fun c hc => decide_eq_false ?_
      have hdigit := List.all_eq_true.1 (of_decide_eq_true hs).2 c hc
      rintro (rfl | rfl)
      · exact absurd hdigit (by decide)
      · exact absurd hdigit (by decide)
    rw [versionSegments, hlist, List.splitOnP_append_cons _ _ (by decide), hlast,
      List.mem_append] at hseg
    rcases hseg with hseg | hseg
    · exact hall seg hseg
    · rwa [List.mem_singleton.1 hseg]
  have hnil : ∀ t : String, t ++ "." ++ s ≠ "" := fun t he => by
    have hdot : '.' ∈ (t ++ "." ++ s).toList := by
      rw [String.toList_append, String.toList_append]
      exact List.mem_append_left _ (List.mem_append_right _ (by decide))
    rw [he] at hdot
    exact absurd hdot (by decide)
  rw [validatePackVersion_eq_ok]
  rcases hstrip : stripPrefix base "SNAPSHOT-" with _ | body
  · have hnone : stripPrefix (base ++ "." ++ s) "SNAPSHOT-" = none := by
      rw [hstrip] at hsegments
      refine Option.eq_none_iff_forall_ne_some.2 fun rest hrest => ?_
      -- The base begins with a digit.
      obtain ⟨c, l, hbase⟩ := List.exists_cons_of_ne_nil
        (fun he => hne (String.toList_eq_nil_iff.1 he) : base.toList ≠ [])
      have hfirst := congrArg String.toList (stripPrefix_eq_some.1 hrest)
      simp only [String.toList_append, hbase, List.cons_append, List.append_assoc] at hfirst
      have hc : c = 'S' := (List.cons.inj hfirst).1
      rcases mem_splitOnP (p := fun c => c = '-' ∨ c = '.') (hbase ▸ List.mem_cons_self :
        c ∈ base.toList) with hsep | ⟨seg, hseg, hmem⟩
      · rw [hc] at hsep
        exact absurd hsep (by decide)
      · have hall := List.all_eq_true.1 (of_decide_eq_true (hsegments seg hseg)).2 c hmem
        rw [hc] at hall
        exact absurd hall (by decide)
    rw [hstrip] at hsegments
    rw [hnone]
    exact ⟨hnil base, hnil base, happend base hsegments⟩
  · have hsome : stripPrefix (base ++ "." ++ s) "SNAPSHOT-" = some (body ++ "." ++ s) := by
      rw [stripPrefix_eq_some, stripPrefix_eq_some.1 hstrip]
      simp only [String.append_assoc]
    rw [hstrip] at hsegments
    rw [hsome]
    exact ⟨hnil base, hnil body, happend body hsegments⟩

/-! ## The next one -/

theorem isDigits_of_decimal (h : decimal s.toList = some n) : isDigits s.toList = true :=
  (decimal_eq_some.1 h).1

theorem decimal_toString (n : ℕ) : decimal (toString n).toList = some n := by
  rw [toList_toString]
  exact decimal_toDigits n

/-- A number under a base is the last one that is compared. -/
theorem packVersionTuple_counter (hs : isDigits s.toList = true) :
    packVersionTuple (base ++ "." ++ s) = packVersionTuple base ++ [(parseU64 s).getD 0] := by
  have hlist : (base ++ "." ++ s).toList = base.toList ++ '.' :: s.toList := by
    simp only [String.toList_append, List.append_assoc]
    rfl
  have hlast : (s.toList.splitOnP fun c => decide (c = '.')) = [s.toList] := by
    refine List.splitOnP_eq_singleton fun c hc => decide_eq_false ?_
    rintro rfl
    exact absurd (List.all_eq_true.1 (of_decide_eq_true hs).2 '.' hc) (by decide)
  rw [packVersionTuple, hlist, List.splitOnP_append_cons _ _ (by decide), hlast, List.map_append,
    List.map_singleton, String.ofList_toList, packVersionTuple]

theorem comparePackVersions_counter {t : String} (hs : isDigits s.toList = true)
    (ht : isDigits t.toList = true) : comparePackVersions (base ++ "." ++ s) (base ++ "." ++ t) =
      compare ((parseU64 s).getD 0) ((parseU64 t).getD 0) := by
  have hlen : ∀ x, (packVersionTuple base ++ [x]).length = (packVersionTuple base).length + 1 :=
    fun x => List.length_append
  have hpad : ∀ x, (packVersionTuple base ++ [x]).rightpad ((packVersionTuple base).length + 1) 0 =
      packVersionTuple base ++ [x] := fun x => by
    rw [List.rightpad, hlen, Nat.sub_self, List.replicate_zero, List.append_nil]
  rw [comparePackVersions, packVersionTuple_counter hs, packVersionTuple_counter ht, hlen, hlen,
    Nat.max_self, hpad, hpad, compare_append_left, compare_cons, compare_self, Ordering.then_eq]

/-- What is asked of the next version of a line: its number is one of 64 bits, it is not published
    yet, it is valid if its base is, it comes after all others of the line, and it has no file yet.
    -/
structure Fresh (debug : String → String) (base : String) (existing : List String) : Prop where
  noOverflow : ∀ n ∈ (counters base existing).max?, n.toNat + 1 < 2 ^ 64
  new : nextAutoVersion base existing ∉ existing
  valid : validatePackVersion debug base = .ok () →
    validatePackVersion debug (nextAutoVersion base existing) = .ok ()
  newest : ∀ v ∈ existing, ∀ n, IsCounter base v n →
    comparePackVersions v (nextAutoVersion base existing) = .lt ∧
      ∃ m, IsCounter base (nextAutoVersion base existing) m ∧ n < m
  noConflict : validatePackVersion debug (nextAutoVersion base existing) = .ok () →
    ∀ d : Manifests, existingVersions d.entries = existing →
      manifestPath (nextAutoVersion base existing) ∉ d.files.map Prod.fst

/-- The highest number of a list. -/
theorem max?_eq_some {l : List UInt64} {m : UInt64} :
    l.max? = some m ↔ m ∈ l ∧ ∀ x ∈ l, x ≤ m := by
  have hmax : ∀ x y : UInt64, max x y = if x ≤ y then y else x := fun _ _ => rfl
  have hlawful : Std.LawfulOrderMax UInt64 := {
    max_eq_or := fun x y => by
      rw [hmax]
      split_ifs
      · exact .inr rfl
      · exact .inl rfl
    max_le_iff := fun x y z => by
      rw [hmax]
      simp only [UInt64.le_iff_toNat_le]
      split_ifs <;> omega }
  exact List.max?_eq_some_iff

/-- Unless there is none after the highest number, the next one is after all of them. -/
theorem lt_nextCounter (h : ∀ n ∈ (counters base existing).max?, n.toNat + 1 < 2 ^ 64) {x : UInt64}
    (hx : x ∈ counters base existing) : x < nextCounter base existing := by
  rw [nextCounter]
  rcases hm : (counters base existing).max? with _ | m
  · rw [List.max?_eq_none_iff.1 hm] at hx
    exact absurd hx List.not_mem_nil
  · have hle := UInt64.le_iff_toNat_le.1 ((max?_eq_some.1 hm).2 x hx)
    have hlt := h m hm
    rw [Option.elim_some, UInt64.lt_iff_toNat_lt, UInt64.toNat_add, UInt64.toNat_one,
      Nat.mod_eq_of_lt hlt]
    omega

theorem isCounter_nextAutoVersion (base : String) (existing : List String) :
    IsCounter base (nextAutoVersion base existing) (nextCounter base existing).toNat :=
  ⟨toString (nextCounter base existing), nextAutoVersion_eq _ _, decimal_toString _⟩

theorem IsCounter.unique {m : ℕ} (h : IsCounter base v n) (h' : IsCounter base v m) : n = m := by
  obtain ⟨s, rfl, hs⟩ := h
  obtain ⟨t, ht, hm⟩ := h'
  obtain rfl := (String.append_right_inj _).1 ht
  exact Option.some.inj (hs.symm.trans hm)

/-- The number of a valid version under a base, if it is one of 64 bits. -/
theorem mem_counters_of_isCounter (hv : v ∈ existing) (h : IsCounter base v n) (hn : n < 2 ^ 64) :
    UInt64.ofNat n ∈ counters base existing := by
  obtain ⟨s, hvs, hs⟩ := h
  exact mem_counters.2 ⟨v, hv, s, hvs, by rw [parseU64_of_decimal hs, if_pos hn]⟩

/-- The next version of a line is a new one and the newest exactly if no version of the line has the
    highest number of 64 bits, or one beyond it. -/
theorem nextAutoVersion_fresh_iff (hvalid : ∀ v ∈ existing, validatePackVersion debug v = .ok ()) :
    Fresh debug base existing ↔ ∀ v ∈ existing, ∀ n, IsCounter base v n → n + 1 < 2 ^ 64 := by
  constructor
  · intro h v hv n hn
    obtain ⟨-, m, hm, hlt⟩ := h.newest v hv n hn
    have hnext := hm.unique (isCounter_nextAutoVersion base existing)
    have hbound := (nextCounter base existing).toNat_lt
    omega
  intro h
  have hno : ∀ n ∈ (counters base existing).max?, n.toNat + 1 < 2 ^ 64 := by
    intro n hn
    obtain ⟨v, hv, s, rfl, hs⟩ := mem_counters.1 (max?_eq_some.1 hn).1
    have hplus : '+' ∉ s.toList := fun hmem => by
      refine not_mem_valid (hvalid _ hv) (c := '+') (by decide) (by decide) ?_
      rw [String.toList_append]
      exact List.mem_append_right _ hmem
    exact h _ hv _ ⟨s, rfl, decimal_of_parseU64 hs hplus⟩
  have hlater : ∀ v ∈ existing, ∀ n, IsCounter base v n →
      n < 2 ^ 64 ∧ n < (nextCounter base existing).toNat := by
    intro v hv n hn
    have hbound := h v hv n hn
    have hsmall : n < 2 ^ 64 := by omega
    have hlt := lt_nextCounter hno (mem_counters_of_isCounter hv hn hsmall)
    rw [UInt64.lt_iff_toNat_lt, UInt64.toNat_ofNat_of_lt' hsmall] at hlt
    exact ⟨hsmall, hlt⟩
  have hnew : nextAutoVersion base existing ∉ existing := fun hmem =>
    absurd (hlater _ hmem _ (isCounter_nextAutoVersion base existing)).2 (lt_irrefl _)
  refine ⟨hno, hnew, fun hbase => ?_, fun v hv n hn => ?_, fun hnext d hd hmem => hnew ?_⟩
  · exact valid_counter hbase (isDigits_of_decimal (decimal_toString _))
  · obtain ⟨hsmall, hlt⟩ := hlater v hv n hn
    refine ⟨?_, _, isCounter_nextAutoVersion base existing, hlt⟩
    obtain ⟨s, rfl, hs⟩ := hn
    have hself : decimal (toString (nextCounter base existing)).toList =
        some (nextCounter base existing).toNat := decimal_toString _
    rw [nextAutoVersion_eq, comparePackVersions_counter (isDigits_of_decimal hs)
      (isDigits_of_decimal hself), parseU64_of_decimal hs, if_pos hsmall]
    have hnumber : parseU64 (toString (nextCounter base existing)) =
        some (nextCounter base existing) := by
      refine (parseU64_of_decimal hself).trans ?_
      rw [if_pos (nextCounter base existing).toNat_lt, UInt64.ofNat_toNat]
    rw [hnumber]
    refine compareOfLessAndEq_eq_lt.2 ?_
    rw [Option.getD_some, Option.getD_some, UInt64.lt_iff_toNat_lt,
      UInt64.toNat_ofNat_of_lt' hsmall]
    exact hlt
  · -- A file of this name would be listed as the version.
    have hslash : '/' ∉ (nextAutoVersion base existing ++ ".json").toList := by
      rw [String.toList_append, List.mem_append]
      exact fun hc => hc.elim (not_mem_valid hnext (by decide) (by decide)) (by decide)
    rw [manifestPath, Layout.segments_of_not_mem hslash] at hmem
    obtain ⟨f, hf, hpath⟩ := List.mem_map.1 hmem
    have hlisted : nextAutoVersion base existing ∈ existingVersions d.entries := by
      rw [existingVersions, List.mem_filterMap]
      refine ⟨nextAutoVersion base existing ++ ".json", ?_, ?_⟩
      · refine List.mem_append_left _ (List.mem_dedup.2 (List.mem_filterMap.2 ⟨f, hf, ?_⟩))
        rw [hpath, List.head?_cons]
      · refine Option.filter_eq_some_iff.2 ⟨stripSuffix_eq_some.2 rfl, decide_eq_true fun he => ?_⟩
        have hl : 'l' ∉ (nextAutoVersion base existing).toList :=
          not_mem_valid hnext (by decide) (by decide)
        rw [he] at hl
        exact hl (by decide)
    rwa [hd] at hlisted

/-- Versions of other lines do not count, and neither do zeros before a number. -/
theorem fresh_line : nextAutoVersion "0.4" ["0.4.0", "2026.05.22.2", "0.4.007"] = "0.4.8" ∧
    "0.4.8" ∉ ["0.4.0", "2026.05.22.2", "0.4.007"] := by
  have hvalid : ∀ v ∈ ["0.4.0", "2026.05.22.2", "0.4.007"], validatePackVersion id v = .ok () := by
    decide +kernel
  have hnext : nextAutoVersion "0.4" ["0.4.0", "2026.05.22.2", "0.4.007"] = "0.4.8" := by
    decide +kernel
  refine ⟨hnext, ?_⟩
  rw [← hnext]
  refine ((nextAutoVersion_fresh_iff hvalid).2 fun v hv n hn => ?_).new
  have hbound : ∀ v ∈ ["0.4.0", "2026.05.22.2", "0.4.007"],
      ∀ r ∈ stripPrefix v "0.4.", ∀ n ∈ decimal r.toList, n + 1 < 2 ^ 64 := by decide +kernel
  obtain ⟨s, rfl, hs⟩ := hn
  exact hbound _ hv s (stripPrefix_eq_some.2 rfl) n hs

/-- After the highest number comes the first one again, though it is published. -/
theorem not_fresh_last : nextAutoVersion "0.4" ["0.4.0", "0.4.18446744073709551615"] = "0.4.0" ∧
    (∀ v ∈ ["0.4.0", "0.4.18446744073709551615"], validatePackVersion id v = .ok ()) ∧
    ¬ Fresh id "0.4" ["0.4.0", "0.4.18446744073709551615"] := by
  have hnext : nextAutoVersion "0.4" ["0.4.0", "0.4.18446744073709551615"] = "0.4.0" := by
    decide +kernel
  refine ⟨hnext, by decide +kernel, fun h => h.new ?_⟩
  rw [hnext]
  exact List.mem_cons_self

end AutoVersion

end Smrt
