import Smrt.Domain.Serde
import Smrt.Lib.JsonOrder

/-!
# Configs, whatever the order of members

A config is written with its members in the order of its fields, and a map in the order of keys has
them in another one. It is read the same (`PackConfig.AuthoredReads.of_sorted`): every type of the
config is read from its members by their keys.

In what is written, no key is there twice, and the only number, the owner apart, is the version of
Java; so it comes through anything that keeps integers of up to 53 bits (`PackConfig.portable`).
-/

namespace Smrt

open Json

/-! ## Reading -/

section Read

variable (j : Json)

theorem PresenceClass.fromValue_sorted : fromValue j.sorted = fromValue j := by
  rw [fromValue, variant_sorted, fromValue]

theorem Requirement.fromValue_sorted : fromValue j.sorted = fromValue j :=
  record_sorted (fun h => by
    simp only [ofMembers, h _, must_sorted asStr_sorted, may_sorted asStr_sorted,
      orDefault_sorted asBool_sorted]) j

theorem Display.fromValue_sorted : fromValue j.sorted = fromValue j :=
  record_sorted (fun h => by
    simp only [ofMembers, h _, may_sorted asStr_sorted,
      orDefault_sorted (listOf_sorted asStr_sorted),
      orDefault_sorted (listOf_sorted Requirement.fromValue_sorted),
      may_sorted PresenceClass.fromValue_sorted]) j

theorem LoaderSpec.fromValue_sorted : fromValue j.sorted = fromValue j :=
  record_sorted (fun h => by simp only [ofMembers, h _, must_sorted asStr_sorted]) j

theorem AuthSpec.fromValue_sorted : fromValue j.sorted = fromValue j :=
  record_sorted (fun h => by
    simp only [ofMembers, h _, must_sorted asStr_sorted, may_sorted asStr_sorted]) j

theorem PackMeta.fromValue_sorted : fromValue j.sorted = fromValue j :=
  record_sorted (fun h => by
    simp only [ofMembers, h _, may_sorted asStr_sorted,
      orDefault_sorted (listOf_sorted asStr_sorted)]) j

/-- The members of a tagged record are looked up by their keys. -/
theorem SourceDecl.ofTagged_sorted {g g' : List String → Option Members}
    (hg : ∀ (keys : List String) (f : Members → Option SourceDecl),
      (∀ {o o'}, SortedOf o o' → f o' = f o) → (g' keys).bind f = (g keys).bind f) (tag : Json) :
    ofTagged tag.sorted g' = ofTagged tag g := by
  rcases tag with _ | _ | _ | _ | s | _ | _
  case str =>
    by_cases hmodrinth : s = "modrinth"
    · subst hmodrinth
      exact hg _ _ fun h => by simp only [h _, must_sorted asStr_sorted]
    by_cases hcache : s = "smrt_cache"
    · subst hcache
      exact hg _ _ fun h => by simp only [h _, must_sorted asStr_sorted]
    by_cases hstatic : s = "smrt_static"
    · subst hstatic
      exact hg _ _ fun h => by simp only [h _, must_sorted asStr_sorted]
    · rw [sorted, ofTagged, ofTagged] <;> simp [hmodrinth, hcache, hstatic]
  all_goals rfl

theorem SourceDecl.fromValue_sorted : fromValue j.sorted = fromValue j := by
  rcases j with _ | _ | _ | _ | _ | items | o
  case arr =>
    rw [sorted_arr]
    rcases items with _ | ⟨tag, items⟩
    · rfl
    · refine @ofTagged_sorted (fun keys => record keys (.arr items))
        (fun keys => record keys (.arr (items.map sorted))) (fun keys f hf => ?_) tag
      rw [← sorted_arr]
      exact record_sorted hf _
  case obj =>
    rw [sorted_obj, fromValue, fromValue, lookup_sorted]
    rcases o.lookup "type" with _ | tag
    · rfl
    · exact @ofTagged_sorted (fun _ => some o) (fun _ => some _)
        (fun _ _ hf => hf fun _ => lookup_sorted) tag
  all_goals rfl

theorem DeclaredMod.fromValue_sorted : fromValue j.sorted = fromValue j :=
  record_sorted (fun h => by
    simp only [ofMembers, h _, must_sorted asStr_sorted, may_sorted asStr_sorted,
      orDefault_sorted asBool_sorted, must_sorted SourceDecl.fromValue_sorted,
      may_sorted Display.fromValue_sorted]) j

theorem DeclaredAsset.fromValue_sorted : fromValue j.sorted = fromValue j :=
  record_sorted (fun h => by
    simp only [ofMembers, h _, must_sorted asStr_sorted, orDefault_sorted asBool_sorted,
      must_sorted SourceDecl.fromValue_sorted, may_sorted Display.fromValue_sorted]) j

end Read

/-- Members in another order say the same. -/
theorem PackConfig.AuthoredReads.of_sorted {o o' : Members} {c : PackConfig}
    (h : AuthoredReads o c)
    (ho : ∀ k ∉ serverOwnedKeys, o'.lookup k = (o.lookup k).map sorted) : AuthoredReads o' c where
  packId := by rw [ho _ (by decide), must_sorted asStr_sorted, h.packId]
  displayName := by rw [ho _ (by decide), must_sorted asStr_sorted, h.displayName]
  tagline := by rw [ho _ (by decide), must_sorted asStr_sorted, h.tagline]
  minecraftVersion := by rw [ho _ (by decide), must_sorted asStr_sorted, h.minecraftVersion]
  loader := by rw [ho _ (by decide), must_sorted LoaderSpec.fromValue_sorted, h.loader]
  javaMajor := by rw [ho _ (by decide), must_sorted asUInt32_sorted, h.javaMajor]
  version := by rw [ho _ (by decide), may_sorted asStr_sorted, h.version]
  tags := by rw [ho _ (by decide), orDefault_sorted (listOf_sorted asStr_sorted), h.tags]
  featured := by rw [ho _ (by decide), orDefault_sorted asBool_sorted, h.featured]
  mods := by
    rw [ho _ (by decide), must_sorted (listOf_sorted DeclaredMod.fromValue_sorted), h.mods]
  assets := by
    rw [ho _ (by decide), orDefault_sorted (listOf_sorted DeclaredAsset.fromValue_sorted), h.assets]
  auth := by rw [ho _ (by decide), may_sorted AuthSpec.fromValue_sorted, h.auth]
  packMeta := by rw [ho _ (by decide), orDefault_sorted PackMeta.fromValue_sorted, h.packMeta]

/-! ## Writing -/

namespace Json

/-- A value that any holder of JSON values keeps as it is: its keys are told apart, and a number is
    an integer of up to 53 bits. -/
def Portable : Json → Prop
  | .int n => n.natAbs ≤ 2 ^ 53
  | .float _ => False
  | .obj o => (o.map Prod.fst).Nodup
  | _ => True

/-- A member is portable, if it is written. -/
def Member (x : Option Json) : Prop := ∀ j, x = some j → All Portable j

section Portable

variable {β : Type} {enc : β → Json} {j : Json} {fields : List (String × Option Json)}

@[simp] theorem portable_str (s : String) : All Portable (.str s) := All.leaf trivial rfl

@[simp] theorem portable_bool (b : Bool) : All Portable (.bool b) := All.leaf trivial rfl

@[simp] theorem portable_null : All Portable .null := All.leaf trivial rfl

theorem portable_arr (h : ∀ a, All Portable (enc a)) (l : List β) :
    All Portable (.arr (l.map enc)) := by
  refine ⟨trivial, fun c hc => ?_⟩
  obtain ⟨a, -, rfl⟩ := List.mem_map.1 hc
  exact h a

@[simp] theorem member_some : Member (some j) ↔ All Portable j :=
  ⟨fun h => h j rfl, fun h _ hj => Option.some.inj hj ▸ h⟩

@[simp] theorem member_map_str (x : Option String) : Member (x.map .str) := by
  rcases x with _ | s
  · nofun
  · exact member_some.2 (portable_str s)

theorem member_map (h : ∀ a, All Portable (enc a)) (x : Option β) : Member (x.map enc) := by
  rcases x with _ | a
  · nofun
  · exact member_some.2 (h a)

theorem member_skipWhen (h : All Portable j) (skip : Bool) : Member (skipWhen skip j) := by
  rcases skip with _ | _
  · exact member_some.2 h
  · nofun

theorem portable_orNull (x : Option String) : All Portable (orNull (x.map .str)) := by
  rcases x with _ | s
  · exact portable_null
  · exact portable_str s

theorem keys_members (fields : List (String × Option Json)) :
    ((members fields).map Prod.fst).Sublist (fields.map Prod.fst) := by
  induction fields with
  | nil => exact .slnil
  | cons f fields ih =>
    obtain ⟨k, _ | j⟩ := f
    · exact ih.cons k
    · exact ih.cons_cons k

/-- A record is portable if its members are. -/
theorem portable_members (hn : (fields.map Prod.fst).Nodup)
    (h : ∀ f ∈ fields, Member f.2) : All Portable (.obj (members fields)) := by
  refine ⟨?_, fun c hc => ?_⟩
  · exact hn.sublist (keys_members fields)
  · obtain ⟨⟨k, j⟩, hm, rfl⟩ := List.mem_map.1 hc
    exact h _ (mem_members.1 hm) _ rfl

end Portable

end Json

theorem PresenceClass.portable (p : PresenceClass) : All Portable p.toValue := portable_str p.name

theorem Requirement.portable (r : Requirement) : All Portable r.toValue :=
  portable_members (by simp [fields]) (by simp [fields])

theorem Display.portable (d : Display) : All Portable d.toValue :=
  portable_members (by simp [fields]) (by
    simp [fields, member_skipWhen (portable_arr portable_str _),
      member_skipWhen (portable_arr Requirement.portable _),
      member_map PresenceClass.portable])

theorem SourceDecl.portable (s : SourceDecl) : All Portable s.toValue := by
  rcases s with _ | _ | _ <;> exact portable_members (by simp [fields]) (by simp [fields])

theorem DeclaredMod.portable (m : DeclaredMod) : All Portable m.toValue :=
  portable_members (by simp [fields]) (by
    simp [fields, SourceDecl.portable, member_map Display.portable,
      member_skipWhen (portable_bool _)])

theorem DeclaredAsset.portable (a : DeclaredAsset) : All Portable a.toValue :=
  portable_members (by simp [fields]) (by
    simp [fields, SourceDecl.portable, member_map Display.portable])

theorem LoaderSpec.portable (l : LoaderSpec) : All Portable l.toValue :=
  portable_members (by simp [fields]) (by simp [fields])

theorem AuthSpec.portable (a : AuthSpec) : All Portable a.toValue :=
  portable_members (by simp [fields]) (by simp [fields])

theorem PackMeta.portable (p : PackMeta) : All Portable p.toValue :=
  portable_members (by simp [fields]) (by
    simp [fields, portable_orNull, portable_arr portable_str])

/-- All that is written of a config but its owner is portable. -/
theorem PackConfig.portable (c : PackConfig) {k : String} {j : Json}
    (h : (k, j) ∈ c.toMembers) (hk : k ≠ "owner") : All Portable j := by
  have hall : ∀ f ∈ c.fields, f.1 ≠ "owner" → Member f.2 := by
    have hjava : All Portable (.int c.javaMajor.toNat) := by
      refine All.leaf ?_ rfl
      have hlt := c.javaMajor.toNat_lt
      rw [Portable, Int.natAbs_natCast]
      omega
    simp [fields, hjava, portable_arr portable_str, portable_arr DeclaredMod.portable,
      portable_arr DeclaredAsset.portable, LoaderSpec.portable, PackMeta.portable,
      member_map AuthSpec.portable, PackTier.toValue, Visibility.toValue]
  exact hall _ (mem_members.1 h) hk j rfl

end Smrt
