import Mathlib.Data.Finset.Union
import Smrt.Authoring.ClassFile

/-!
# Descriptors

The descriptor of a field or of a method is searched byte by byte for the objects in it. No byte of
a character of several bytes is taken for an `L` or a `;`, so that what is found are the names
between these characters (`objectTypes`, `extractObjectTypes_eq`), and no part of a character is.
-/

namespace Smrt

namespace ClassFile

open Bootstrap (Bytes)

/-- The names in a text that are between an `L` and a `;`, where one may have begun. -/
def objectTypesFrom : Option (List Char) → List Char → List (List Char)
  | _, [] => []
  | none, c :: l => objectTypesFrom (if c = 'L' then some [] else none) l
  | some name, c :: l =>
    if c = ';' then (if name = [] then [] else [name]) ++ objectTypesFrom none l
    else objectTypesFrom (some (name ++ [c])) l

def objectTypes (desc : String) : List String :=
  (objectTypesFrom none desc.toList).map String.ofList

/-! ## Characters in bytes -/

section Bytes

variable {c : Char} {l pre post : List Char}

def encode (l : List Char) : Bytes := l.flatMap String.utf8EncodeChar

theorem encode_append : encode (pre ++ post) = encode pre ++ encode post := List.flatMap_append

theorem encode_cons : encode (c :: l) = String.utf8EncodeChar c ++ encode l := List.flatMap_cons

/-- Where bytes of characters are taken up to a character of one byte, the characters are. -/
theorem takeWhile_encode {d : Char} (hd : d.toNat < 128) (l : List Char) :
    (encode l).takeWhile (fun b => b ≠ d.toUInt8) = encode (l.takeWhile fun c => c ≠ d) := by
  induction l with
  | nil => rfl
  | cons c l ih =>
    rw [encode_cons]
    by_cases hc : c = d
    · obtain ⟨-, hone⟩ | ⟨hle, -⟩ := utf8EncodeChar_cases c
      · have hfirst : UInt8.ofNat c.toNat = d.toUInt8 := by
          rw [hc]
          rfl
        rw [hone, List.singleton_append, hfirst, List.takeWhile_cons_of_neg (by simp),
          List.takeWhile_cons_of_neg (by simp [hc])]
        rfl
      · rw [hc] at hle
        omega
    · have hall : ∀ b ∈ String.utf8EncodeChar c, decide (b ≠ d.toUInt8) = true := fun b hb =>
        decide_eq_true fun he => hc (eq_of_mem_utf8EncodeChar hd hb he)
      have hnext : (c :: l).takeWhile (fun c => c ≠ d) = c :: l.takeWhile fun c => c ≠ d :=
        List.takeWhile_cons_of_pos (decide_eq_true hc)
      rw [List.takeWhile_append_of_pos hall, ih, hnext, encode_cons]

theorem utf8Bytes_eq (s : String) : utf8Bytes s = encode s.toList := rfl

theorem length_encode_cons : (encode (c :: l)).length = c.utf8Size + (encode l).length := by
  rw [encode_cons, List.length_append, String.length_utf8EncodeChar]

/-- Whole characters are dropped, and taken. -/
theorem dropBytes_encode (pre post : List Char) :
    dropBytes (encode pre).length (pre ++ post) = some post := by
  induction pre with
  | nil => rw [List.nil_append]; cases post <;> rfl
  | cons c pre ih =>
    have hpos := c.utf8Size_pos
    obtain ⟨n, hn⟩ : ∃ n, (encode (c :: pre)).length = n + 1 :=
      ⟨(encode (c :: pre)).length - 1, by rw [length_encode_cons]; omega⟩
    have hlen := hn
    rw [length_encode_cons] at hlen
    rw [hn, List.cons_append, dropBytes, if_pos (by omega), ← hlen, Nat.add_sub_cancel_left, ih]

theorem takeBytes_encode (pre post : List Char) :
    takeBytes (encode pre).length (pre ++ post) = some pre := by
  induction pre with
  | nil => rw [List.nil_append]; cases post <;> rfl
  | cons c pre ih =>
    have hpos := c.utf8Size_pos
    obtain ⟨n, hn⟩ : ∃ n, (encode (c :: pre)).length = n + 1 :=
      ⟨(encode (c :: pre)).length - 1, by rw [length_encode_cons]; omega⟩
    have hlen := hn
    rw [length_encode_cons] at hlen
    rw [hn, List.cons_append, takeBytes, if_pos (by omega), ← hlen, Nat.add_sub_cancel_left, ih,
      Option.map_some]

theorem utf8Len_eq (l : List Char) : String.utf8Len l = (encode l).length := by
  induction l with
  | nil => rfl
  | cons c l ih => rw [String.utf8Len_cons, ih, length_encode_cons, Nat.add_comm]

/-- A part of a text between characters is the characters between. -/
theorem slice_encode {s : String} {name : List Char} (h : s.toList = pre ++ (name ++ post)) :
    slice s (encode pre).length ((encode pre).length + (encode name).length) =
      .ok (String.ofList name) := by
  have hsize : s.utf8ByteSize = (encode s.toList).length := by
    rw [← String.ofList_toList (s := s), String.utf8ByteSize_ofList, String.toList_ofList]
    exact utf8Len_eq _
  have hlen : (encode s.toList).length =
      (encode pre).length + ((encode name).length + (encode post).length) := by
    rw [h, encode_append, encode_append, List.length_append, List.length_append]
  rw [slice, if_neg (by omega), h, dropBytes_encode, Option.bind_some, Nat.add_sub_cancel_left,
    takeBytes_encode]

end Bytes

/-! ## The search -/

section Search

variable {s : String} {name l pre post : List Char} {out : Finset String} {fuel i : ℕ}

theorem objectTypesFrom_of_mem (hname : ';' ∉ name) (w : List Char) :
    objectTypesFrom (some w) (name ++ ';' :: l) =
      (if w ++ name = [] then [] else [w ++ name]) ++ objectTypesFrom none l := by
  induction name generalizing w with
  | nil => rw [List.nil_append, List.append_nil, objectTypesFrom, if_pos rfl]
  | cons c name ih =>
    obtain ⟨hc, hname⟩ := List.ne_and_not_mem_of_not_mem_cons hname
    rw [List.cons_append, objectTypesFrom, if_neg (Ne.symm hc), ih hname, List.append_assoc,
      List.singleton_append]

/-- A name that is not ended is none. -/
theorem objectTypesFrom_of_not_mem (hl : ';' ∉ l) (w : List Char) :
    objectTypesFrom (some w) l = [] := by
  induction l generalizing w with
  | nil => rfl
  | cons c l ih =>
    obtain ⟨hc, hl⟩ := List.ne_and_not_mem_of_not_mem_cons hl
    rw [objectTypesFrom, if_neg (Ne.symm hc), ih hl]

/-- A name is what is before the first `;`. -/
theorem takeWhile_name (hname : ';' ∉ name) (hpost : post = [] ∨ ∃ rest, post = ';' :: rest) :
    (name ++ post).takeWhile (fun c => c ≠ ';') = name := by
  have hall : ∀ c ∈ name, decide (c ≠ ';') = true := fun c hc =>
    decide_eq_true fun he => hname (he ▸ hc)
  rw [List.takeWhile_append_of_pos hall]
  obtain rfl | ⟨rest, rfl⟩ := hpost
  · exact List.append_nil name
  · rw [List.takeWhile_cons_of_neg (by simp), List.append_nil]

/-- There is nothing after the end. -/
theorem extractFrom_of_le (h : (utf8Bytes s).length ≤ i) : extractFrom s fuel i out = .ok out := by
  rcases fuel with _ | fuel
  · rw [extractFrom, if_neg (by omega)]
  · rw [extractFrom, List.getElem?_eq_none h]

/-- Bytes with no `L` among them are passed over. -/
theorem extractFrom_skip {bs rest : Bytes} (hs : (utf8Bytes s).drop i = bs ++ rest)
    (hbs : ∀ b ∈ bs, b ≠ 'L'.toUInt8) :
    extractFrom s (bs.length + fuel) i out = extractFrom s fuel (i + bs.length) out := by
  induction bs generalizing i with
  | nil => rw [List.length_nil, Nat.zero_add, Nat.add_zero]
  | cons b bs ih =>
    have hb : (utf8Bytes s)[i]? = some b := by
      rw [← Nat.add_zero i, ← List.getElem?_drop, hs]
      rfl
    have hnext : (utf8Bytes s).drop (i + 1) = bs ++ rest := by
      rw [← List.tail_drop, hs]
      rfl
    rw [List.length_cons, Nat.add_right_comm, extractFrom, hb]
    dsimp only
    rw [if_neg (hbs b List.mem_cons_self), ih hnext fun b hb => hbs b (List.mem_cons_of_mem _ hb),
      Nat.add_right_comm, Nat.add_assoc]

theorem encode_eq_nil : encode l = [] ↔ l = [] := by
  refine ⟨fun h => ?_, fun h => by rw [h]; rfl⟩
  rcases l with _ | ⟨c, l⟩
  · rfl
  · have hlen := congrArg List.length h
    rw [length_encode_cons, List.length_nil] at hlen
    have := c.utf8Size_pos
    omega

/-- An `L` begins a name, which is not kept if it is empty or does not end. -/
theorem extractFrom_name (h : s.toList = pre ++ ['L'] ++ (name ++ post))
    (hname : (name ++ post).takeWhile (fun c => c ≠ ';') = name) :
    extractFrom s (fuel + 1) (encode pre).length out =
      extractFrom s fuel ((encode (pre ++ ['L'] ++ name)).length + 1)
        (if post ≠ [] ∧ name ≠ [] then insert (String.ofList name) out else out) := by
  have hbytes : utf8Bytes s = encode pre ++ ([76] ++ (encode name ++ encode post)) := by
    rw [utf8Bytes_eq, h, encode_append, encode_append, encode_append, List.append_assoc]
    rfl
  have hstart : (encode (pre ++ ['L'])).length = (encode pre).length + 1 := by
    rw [encode_append, List.length_append]
    rfl
  have hletter : (utf8Bytes s)[(encode pre).length]? = some 'L'.toUInt8 := by
    rw [hbytes, List.getElem?_append_right le_rfl, Nat.sub_self]
    rfl
  have hdrop : (utf8Bytes s).drop ((encode pre).length + 1) = encode (name ++ post) := by
    rw [utf8Bytes_eq, h, encode_append, ← hstart, List.drop_left]
  have hlen : (utf8Bytes s).length =
      (encode pre).length + 1 + (encode name).length + (encode post).length := by
    rw [hbytes, List.length_append, List.length_append, List.length_append, List.length_singleton]
    omega
  have hend : (encode (pre ++ ['L'] ++ name)).length =
      (encode pre).length + 1 + (encode name).length := by
    rw [encode_append, List.length_append, hstart]
  rw [extractFrom, hletter]
  dsimp only
  rw [if_pos rfl, hdrop, takeWhile_encode (by decide), hname, hend]
  by_cases hkeep : post ≠ [] ∧ name ≠ []
  · have hpost := List.length_pos_iff.2 (mt encode_eq_nil.1 hkeep.1)
    have hpos := List.length_pos_iff.2 (mt encode_eq_nil.1 hkeep.2)
    have hslice : slice s ((encode pre).length + 1)
        ((encode pre).length + 1 + (encode name).length) = .ok (String.ofList name) := by
      rw [← hstart]
      exact slice_encode h
    rw [if_pos ⟨by omega, by omega⟩, if_pos hkeep, hslice]
    rfl
  · rw [if_neg hkeep, if_neg fun hlt => hkeep ⟨fun hnil => ?_, fun hnil => ?_⟩]
    · rw [hnil] at hlen
      have : (encode ([] : List Char)).length = 0 := rfl
      omega
    · rw [hnil] at hlt
      have : (encode ([] : List Char)).length = 0 := rfl
      omega

/-- After the characters before it, what is found in the rest are the names in it. -/
theorem extractFrom_eq {n : ℕ} (hn : post.length ≤ n) (h : s.toList = pre ++ post)
    (hfuel : (encode post).length ≤ fuel) :
    extractFrom s fuel (encode pre).length out =
      .ok (out ∪ ((objectTypesFrom none post).map String.ofList).toFinset) := by
  induction n generalizing pre post out fuel with
  | zero =>
    rw [List.length_eq_zero_iff.1 (Nat.le_zero.1 hn), List.append_nil] at h
    rw [List.length_eq_zero_iff.1 (Nat.le_zero.1 hn),
      extractFrom_of_le (by rw [utf8Bytes_eq, h])]
    exact congrArg Except.ok (Finset.union_empty out).symm
  | succ n ih =>
    rcases post with _ | ⟨c, l⟩
    · exact ih (Nat.zero_le _) h hfuel
    have hl : l.length ≤ n := Nat.le_of_succ_le_succ hn
    rw [encode_cons, List.length_append] at hfuel
    by_cases hc : c = 'L'
    · subst hc
      obtain ⟨fuel, rfl⟩ : ∃ k, fuel = k + 1 :=
        ⟨fuel - 1, by have : (String.utf8EncodeChar 'L').length = 1 := rfl; omega⟩
      have hfrom : objectTypesFrom none ('L' :: l) = objectTypesFrom (some []) l := rfl
      rw [hfrom]
      by_cases hmem : ';' ∈ l
      · obtain ⟨name, rest, rfl, hname⟩ := List.eq_append_cons_of_mem hmem
        have hs : s.toList = pre ++ ['L'] ++ (name ++ ';' :: rest) := by
          rw [h, List.append_assoc]
          rfl
        have hnext : (encode (pre ++ ['L'] ++ name)).length + 1 =
            (encode (pre ++ ['L'] ++ name ++ [';'])).length := by
          have hsplit : encode (pre ++ ['L'] ++ name ++ [';']) =
              encode (pre ++ ['L'] ++ name) ++ encode [';'] := encode_append
          rw [hsplit, List.length_append]
          rfl
        have hshort : rest.length ≤ n := by
          rw [List.length_append, List.length_cons] at hl
          omega
        have hless : (encode rest).length ≤ fuel := by
          have hone : (String.utf8EncodeChar 'L').length = 1 := rfl
          rw [encode_append, encode_cons, List.length_append, List.length_append] at hfuel
          omega
        rw [extractFrom_name hs (takeWhile_name hname (.inr ⟨rest, rfl⟩)), hnext,
          ih hshort (by rw [hs, List.append_assoc, List.append_assoc, List.append_assoc,
            List.append_assoc]; rfl) hless, objectTypesFrom_of_mem hname, List.nil_append]
        congr 1
        by_cases hempty : name = []
        · rw [if_neg fun hne => hne.2 hempty, if_pos hempty, List.nil_append]
        · rw [if_pos ⟨List.cons_ne_nil _ _, hempty⟩, if_neg hempty, List.singleton_append,
            List.map_cons, List.toFinset_cons, Finset.insert_union, Finset.union_insert]
      · -- the name does not end
        have hs : s.toList = pre ++ ['L'] ++ (l ++ []) := by
          rw [h, List.append_assoc, List.append_nil]
          rfl
        have hend : (utf8Bytes s).length ≤ (encode (pre ++ ['L'] ++ l)).length + 1 := by
          rw [utf8Bytes_eq, hs, List.append_nil]
          exact Nat.le_succ _
        rw [extractFrom_name hs (takeWhile_name hmem (.inl rfl)), extractFrom_of_le hend,
          if_neg fun hne => hne.1 rfl, objectTypesFrom_of_not_mem hmem]
        exact congrArg Except.ok (Finset.union_empty out).symm
    · have hskip : ∀ b ∈ String.utf8EncodeChar c, b ≠ 'L'.toUInt8 := fun b hb he =>
        hc (eq_of_mem_utf8EncodeChar (by decide) hb he)
      have hdrop :
          (utf8Bytes s).drop (encode pre).length = String.utf8EncodeChar c ++ encode l := by
        rw [utf8Bytes_eq, h, encode_append, List.drop_left, encode_cons]
      have hnext : (encode pre).length + (String.utf8EncodeChar c).length =
          (encode (pre ++ [c])).length := by
        rw [encode_append, List.length_append]
        congr 2
        exact (List.append_nil _).symm
      obtain ⟨fuel, rfl⟩ : ∃ k, fuel = (String.utf8EncodeChar c).length + k :=
        ⟨fuel - (String.utf8EncodeChar c).length, by omega⟩
      rw [extractFrom_skip hdrop hskip, hnext, objectTypesFrom, if_neg hc]
      exact ih hl (by rw [h, List.append_assoc]; rfl) (by omega)

/-- What is found in a descriptor are the names in it. -/
theorem extractObjectTypes_eq :
    extractObjectTypes s out = .ok (out ∪ (objectTypes s).toFinset) := by
  have hstart : (encode []).length = 0 := rfl
  have hs : s.toList = [] ++ s.toList := rfl
  rw [extractObjectTypes, ← hstart]
  exact extractFrom_eq le_rfl hs le_rfl

variable {cp : List Cp} {i : ℕ}

/-- The types in the descriptor in a slot. -/
def typesAt (cp : List Cp) (i : ℕ) : Finset String :=
  ((utf8 cp i).map fun d => (objectTypes d).toFinset).getD ∅

theorem descTypes_eq : descTypes cp out i = .ok (out ∪ typesAt cp i) := by
  rw [descTypes, typesAt]
  rcases utf8 cp i with _ | d
  · exact congrArg Except.ok (Finset.union_empty out).symm
  · exact extractObjectTypes_eq

/-- With the types that a constant names. -/
def entryFound (cp : List Cp) (out : Finset String) : Cp → Finset String
  | .cls nameIndex => ((utf8 cp nameIndex).map (pushType out)).getD out
  | .nameAndType _ descIndex => out ∪ typesAt cp descIndex
  | _ => out

theorem entryTypes_eq (e : Cp) : entryTypes cp out e = .ok (entryFound cp out e) := by
  rcases e with _ | _ | _ | _ | _ | _ | _
  case nameAndType => exact descTypes_eq
  all_goals rfl

/-- The types that the constants name are found. -/
theorem poolTypes_eq : poolTypes cp = .ok (cp.foldl (entryFound cp) ∅) := by
  have hfold (l : List Cp) (out : Finset String) :
      l.foldlM (entryTypes cp) out = .ok (l.foldl (entryFound cp) out) := by
    induction l generalizing out with
    | nil => rfl
    | cons e l ih =>
      rw [List.foldlM_cons, entryTypes_eq]
      exact ih _
  exact hfold cp ∅

end Search

end ClassFile

end Smrt
