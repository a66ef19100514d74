import Mathlib.Data.Set.Function
import Smrt.Domain.Pack
import Smrt.Lib.Hex
import Smrt.Lib.Split

/-!
# Conditional reads

A read that answers JSON is tagged, with the hash of what is sent unless the handler has tagged it
itself, and a caller that presents the tag is answered that nothing was modified (`tagJson`). The
handler of the config of a pack does tag its answer (`getPackConfig`), with the revision that a save is
checked against: that is a hash of what the authors declare, not of what is sent.

* `keeps_of_untagged`: where the hash is of what is sent, not modified means not modified;
* `getPackConfig_keeps_iff`: of two configs with one revision it does if they are equal in the fields
  that the server owns and in their pulled rows.
-/

namespace Smrt

/-! ## Answers -/

/-- A body in memory, whose size is known, or one that is streamed. -/
inductive Body
  | whole (bytes : List UInt8)
  | streamed (bytes : List UInt8)
  deriving DecidableEq

/-- An answer, with the headers that tagging reads and writes. -/
structure Reply where
  status : ℕ
  contentType : Option String
  etag : Option String
  cacheControl : Option String
  contentLength : Option String
  body : Body
  deriving DecidableEq

inductive Method
  | get
  | head
  | post
  | put
  | delete
  deriving DecidableEq

/-- A header that can be read as text. -/
def headerStr (value : String) : Option String :=
  if value.toList.all fun c => c.toNat = 9 ∨ (32 ≤ c.toNat ∧ c.toNat ≤ 126) then some value else none

/-- Without the marks of a weak tag. -/
def stripWeak : List Char → List Char
  | 'W' :: '/' :: l => stripWeak l
  | l => l

/-- What a tag says, however it is written. -/
def opaqueTag (s : String) : String := trim (String.ofList (stripWeak (trim s).toList))

/-- Whether a list of tags covers `tag`. -/
def holds (header tag : String) : Bool :=
  match headerStr header with
  | none => false
  | some list =>
    (pieces [','] 0 [] list.toList).any fun candidate =>
      trim (String.ofList candidate) = "*" ∨ opaqueTag (String.ofList candidate) = opaqueTag tag

def isJson (resp : Reply) : Bool :=
  resp.contentType.any fun v => (stripPrefix v "application/json").isSome

/-- The same answer, without the body. -/
def notModified (resp : Reply) : Reply :=
  { resp with status := 304, contentType := none, contentLength := none, body := .whole [] }

def maxTagged : ℕ := 8 * 1024 * 1024

section Tags

variable (sha1 : List UInt8 → String)

/-- The tag of the bytes that are sent. -/
def contentTag (bytes : List UInt8) : String := "W/\"" ++ sha1 bytes ++ "\""

/-- A read of JSON is tagged, or answered without a body if the caller presents its tag. -/
def tagJson (method : Method) (askedFor : Option String) (resp : Reply) : Reply :=
  let readonly := method = .get ∨ method = .head
  if readonly ∧ resp.status = 200 ∧ isJson resp then
    match resp.etag, resp.body with
    | some own, _ =>
      match headerStr own with
      | none => resp
      | some tag => if askedFor.any (holds · tag) then notModified resp else resp
    | none, .streamed _ => resp
    | none, .whole bytes =>
      if maxTagged < bytes.length then resp
      else
        let tag := contentTag sha1 bytes
        let tagged := { resp with
          etag := some tag
          cacheControl := some (resp.cacheControl.getD "private, no-cache") }
        if askedFor.any (holds · tag) then notModified tagged else tagged
  else resp

/-- The revision of a config, quoted. -/
def revTag (toVec : PackConfig → List UInt8) (cfg : PackConfig) : String :=
  "\"" ++ sha1 (toVec cfg.projected) ++ "\""

/-- The answer with the config of a pack, for somebody who may see it. -/
def getPackConfig (toVec : PackConfig → List UInt8) (cfg : PackConfig) : Reply where
  status := 200
  contentType := some "application/json"
  etag := some (revTag sha1 toVec cfg)
  cacheControl := none
  contentLength := none
  body := .whole (toVec cfg)

/-- A copy that was given with a tag is what would be sent, when the caller is told under this tag that
    nothing was modified. -/
def Keeps (first later : Reply) : Prop :=
  ∀ header tag, (tagJson sha1 .get none first).etag = some tag →
    (tagJson sha1 .get (some header) later).status = 304 →
    (tagJson sha1 .get (some header) later).etag = some tag → first.body = later.body

end Tags

/-! ## Tags of the content -/

section Content

variable {sha1 : List UInt8 → String}

theorem contentTag_inj (hsha1 : Function.Injective sha1) {x y : List UInt8}
    (h : contentTag sha1 x = contentTag sha1 y) : x = y :=
  hsha1 ((String.append_right_inj _).1 ((String.append_left_inj _).1 h))

/-- What is tagged without a tag of its own is tagged with the hash of what is sent. -/
theorem body_of_tagJson {asked : Option String} {resp : Reply} {tag : String}
    (hresp : resp.etag = none) (h : (tagJson sha1 .get asked resp).etag = some tag) :
    ∃ bytes, resp.body = .whole bytes ∧ tag = contentTag sha1 bytes := by
  rw [tagJson] at h
  split at h
  · rw [hresp] at h
    rcases hbody : resp.body with bytes | bytes <;> simp only [hbody] at h
    · refine ⟨bytes, rfl, ?_⟩
      split at h
      · exact absurd (hresp.symm.trans h) nofun
      · split at h <;> exact (Option.some.inj h).symm
    · exact absurd (hresp.symm.trans h) nofun
  · exact absurd (hresp.symm.trans h) nofun

/-- Where the hash is of what is sent, not modified means not modified. -/
theorem keeps_of_untagged (hsha1 : Function.Injective sha1) {first later : Reply}
    (hfirst : first.etag = none) (hlater : later.etag = none) : Keeps sha1 first later := by
  intro header tag hgiven _ hanswered
  obtain ⟨x, hx, hxtag⟩ := body_of_tagJson hfirst hgiven
  obtain ⟨y, hy, hytag⟩ := body_of_tagJson hlater hanswered
  rw [hx, hy, contentTag_inj hsha1 (hxtag.symm.trans hytag)]

end Content

/-! ## The tag of a config -/

section Config

variable {sha1 : List UInt8 → String} {toVec : PackConfig → List UInt8} {c₀ c : PackConfig}

theorem headerStr_revTag (hhex : ∀ bytes, ∀ d ∈ (sha1 bytes).toList, d ∈ hexDigits) :
    headerStr (revTag sha1 toVec c) = some (revTag sha1 toVec c) := by
  refine if_pos (List.all_eq_true.2 fun d hd => ?_)
  have hdigits : (hexDigits.all fun d => d.toNat = 9 ∨ (32 ≤ d.toNat ∧ d.toNat ≤ 126)) = true := by
    decide
  have hquote : ("\"".toList.all fun d => d.toNat = 9 ∨ (32 ≤ d.toNat ∧ d.toNat ≤ 126)) = true := by
    decide
  rw [revTag, String.toList_append, String.toList_append, List.mem_append, List.mem_append] at hd
  rcases hd with (hd | hd) | hd
  · exact List.all_eq_true.1 hquote d hd
  · exact List.all_eq_true.1 hdigits d (hhex _ d hd)
  · exact List.all_eq_true.1 hquote d hd

/-- A tag that is presented is covered. -/
theorem holds_revTag (hhex : ∀ bytes, ∀ d ∈ (sha1 bytes).toList, d ∈ hexDigits) :
    holds (revTag sha1 toVec c) (revTag sha1 toVec c) = true := by
  have hcomma : ',' ∉ (revTag sha1 toVec c).toList := by
    rw [revTag, String.toList_append, String.toList_append, List.mem_append, List.mem_append]
    rintro ((h | h) | h)
    · exact absurd h (by decide)
    · exact absurd (hhex _ _ h) (by decide)
    · exact absurd h (by decide)
  have hpieces : pieces [','] 0 [] (revTag sha1 toVec c).toList = [(revTag sha1 toVec c).toList] :=
    pieces_eq_singleton (clear_of_not_mem hcomma)
  rw [holds, headerStr_revTag hhex]
  simp only [hpieces, List.any_cons, String.ofList_toList, or_true, decide_true, Bool.true_or]

/-- How the config is answered: with its own tag, and without the body if this is presented. -/
theorem tagJson_getPackConfig (hhex : ∀ bytes, ∀ d ∈ (sha1 bytes).toList, d ∈ hexDigits)
    (asked : Option String) : tagJson sha1 .get asked (getPackConfig sha1 toVec c) =
      if asked.any (holds · (revTag sha1 toVec c)) then
        notModified (getPackConfig sha1 toVec c)
      else getPackConfig sha1 toVec c := by
  have hpre : (stripPrefix "application/json" "application/json").isSome = true := by decide
  have hjson : isJson (getPackConfig sha1 toVec c) = true := hpre
  rw [tagJson, if_pos ⟨.inl rfl, rfl, hjson⟩]
  simp only [getPackConfig, headerStr_revTag hhex]

theorem revTag_inj (hsha1 : Function.Injective sha1)
    (hvec : Set.InjOn toVec {c₀, c, c₀.projected, c.projected})
    (h : revTag sha1 toVec c₀ = revTag sha1 toVec c) : c₀.projected = c.projected :=
  hvec (by simp) (by simp)
    (hsha1 ((String.append_right_inj _).1 ((String.append_left_inj _).1 h)))

/-- What the authors declare, the fields that the server owns and the rows are all of a config. -/
theorem eq_of_projected_eq (hproj : c₀.projected = c.projected)
    (howned : c₀.serverOwned = c.serverOwned) (hmods : c₀.mods = c.mods) : c₀ = c := by
  cases c₀
  cases c
  simp only [PackConfig.projected, PackConfig.serverOwned, PackConfig.mk.injEq,
    ServerOwned.mk.injEq] at hproj howned hmods ⊢
  tauto

/-- Of two configs with one revision, not modified means not modified if they are equal in the fields
    that the server owns and in their pulled rows. -/
theorem getPackConfig_keeps_iff (hsha1 : Function.Injective sha1)
    (hhex : ∀ bytes, ∀ d ∈ (sha1 bytes).toList, d ∈ hexDigits)
    (hvec : Set.InjOn toVec {c₀, c, c₀.projected, c.projected}) :
    Keeps sha1 (getPackConfig sha1 toVec c₀) (getPackConfig sha1 toVec c) ↔
      (c₀.projected = c.projected → c₀.serverOwned = c.serverOwned ∧ c₀.mods = c.mods) := by
  constructor
  · intro hkeeps hproj
    have htag : revTag sha1 toVec c₀ = revTag sha1 toVec c := by rw [revTag, revTag, hproj]
    have hbody := hkeeps (revTag sha1 toVec c) (revTag sha1 toVec c) ?_ ?_ ?_
    · have heq : c₀ = c := hvec (by simp) (by simp) (Body.whole.inj hbody)
      exact ⟨congrArg _ heq, congrArg _ heq⟩
    · rw [tagJson_getPackConfig hhex, Option.any_none, if_neg Bool.false_ne_true]
      exact congrArg some htag
    · rw [tagJson_getPackConfig hhex, Option.any_some, if_pos (holds_revTag hhex)]
      rfl
    · rw [tagJson_getPackConfig hhex, Option.any_some, if_pos (holds_revTag hhex)]
      rfl
  · intro hcond header tag hgiven _ hanswered
    have hfirst : revTag sha1 toVec c₀ = tag := by
      rw [tagJson_getPackConfig hhex, Option.any_none, if_neg Bool.false_ne_true] at hgiven
      exact Option.some.inj hgiven
    have hlater : revTag sha1 toVec c = tag := by
      rw [tagJson_getPackConfig hhex] at hanswered
      split at hanswered <;> exact Option.some.inj hanswered
    have hproj := revTag_inj hsha1 hvec (hfirst.trans hlater.symm)
    obtain ⟨howned, hmods⟩ := hcond hproj
    rw [eq_of_projected_eq hproj howned hmods]

end Config

/-! ## A pack that is taken back -/

/-- A pack, written as whether it is a draft. -/
def draftByte (cfg : PackConfig) : List UInt8 := [if cfg.visibility = .draft then 1 else 0]

def industrial : PackConfig := .empty "Industrial"

end Smrt
