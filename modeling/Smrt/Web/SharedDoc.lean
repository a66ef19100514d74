import Smrt.Authoring.DocValues
import Smrt.Lib.Assoc
import Smrt.Lib.Patch

/-!
# Writing a config into the document that is shared

The editor of a pack keeps a copy of its document, of texts that merge, maps, arrays, and plain
values (`Node`). What is on screen is written into it by going down both at once (`writeConfig`): a
text is changed by the smallest edit, the entries of a map and the rows of an array each on their
own, and a value is replaced if it is written differently. The strings are those of JavaScript,
lists of units of 16 bits.

* `touches_differ`: nothing is touched where the document reads as what is written (so that writing
  what was read touches nothing);
* `textPatch_spec`: the edit of a text is the smallest one;
* `reads_back`: the document then reads as what was written, but for absent fields and `null`, and
  for keys that every object has, which are never deleted (`Agree`); provided that no edit of a text
  cuts a pair of surrogates in two (`whole`).
-/

namespace Smrt

namespace SharedDoc

/-! ## Values -/

/-- A string: its units. -/
abbrev Text := List UInt16

/-- A value as JSON has it; the members of an object are in their order. -/
inductive Js
  | null
  | bool (b : Bool)
  | num (bits : UInt64)
  | str (t : Text)
  | arr (items : List Js)
  | obj (members : List (String × Js))

abbrev Members := List (String × Js)

namespace Js

mutual

def decEq : (a b : Js) → Decidable (a = b)
  | .null, .null => isTrue rfl
  | .bool a, .bool b => decidable_of_iff (a = b) (by simp)
  | .num a, .num b => decidable_of_iff (a = b) (by simp)
  | .str a, .str b => decidable_of_iff (a = b) (by simp)
  | .arr a, .arr b => @decidable_of_iff _ (a = b) (by simp) (decEqItems a b)
  | .obj a, .obj b => @decidable_of_iff _ (a = b) (by simp) (decEqMembers a b)
  | .null, .bool _ | .null, .num _ | .null, .str _ | .null, .arr _ | .null, .obj _
  | .bool _, .null | .bool _, .num _ | .bool _, .str _ | .bool _, .arr _ | .bool _, .obj _
  | .num _, .null | .num _, .bool _ | .num _, .str _ | .num _, .arr _ | .num _, .obj _
  | .str _, .null | .str _, .bool _ | .str _, .num _ | .str _, .arr _ | .str _, .obj _
  | .arr _, .null | .arr _, .bool _ | .arr _, .num _ | .arr _, .str _ | .arr _, .obj _
  | .obj _, .null | .obj _, .bool _ | .obj _, .num _ | .obj _, .str _ | .obj _, .arr _ =>
    isFalse (by simp)

def decEqItems : (a b : List Js) → Decidable (a = b)
  | [], [] => isTrue rfl
  | [], _ :: _ | _ :: _, [] => isFalse (by simp)
  | a :: as, b :: bs =>
    @decidable_of_iff _ (a = b ∧ as = bs) (by simp)
      (@instDecidableAnd _ _ (decEq a b) (decEqItems as bs))

def decEqMembers : (a b : List (String × Js)) → Decidable (a = b)
  | [], [] => isTrue rfl
  | [], _ :: _ | _ :: _, [] => isFalse (by simp)
  | (k, a) :: as, (l, b) :: bs =>
    @decidable_of_iff _ (k = l ∧ a = b ∧ as = bs) (by simp [and_assoc])
      (@instDecidableAnd _ _ inferInstance
        (@instDecidableAnd _ _ (decEq a b) (decEqMembers as bs)))

end

instance : DecidableEq Js := decEq

end Js

/-- A number as JSON has it: what is not finite is `null`, and there is one zero. -/
def writtenNumber (bits : UInt64) : Js :=
  if Double.Finite bits then if bits = 0x8000000000000000 then .num 0 else .num bits else .null

mutual

/-- What is read of a value that was written as JSON. -/
def written : Js → Js
  | .null => .null
  | .bool b => .bool b
  | .num bits => writtenNumber bits
  | .str t => .str t
  | .arr items => .arr (writtenItems items)
  | .obj o => .obj (writtenMembers o)

def writtenItems : List Js → List Js
  | [] => []
  | v :: items => written v :: writtenItems items

def writtenMembers : Members → Members
  | [] => []
  | (k, v) :: o => (k, written v) :: writtenMembers o

end

/-- `JSON.stringify(a) === JSON.stringify(b)`: two texts are the same if what is read of them is. -/
def sameText (a b : Js) : Bool := written a = written b

/-! ## Documents -/

/-- What is in a document. -/
inductive Node
  | text (t : Text)
  | map (entries : List (String × Node))
  | array (items : List Node)
  | plain (v : Js)

abbrev Entries := List (String × Node)

mutual

/-- What a document reads as. An object cannot be given a member `__proto__` by assigning to it. -/
def fromShared : Node → Js
  | .text t => .str t
  | .map es => .obj (fromEntries es)
  | .array ns => .arr (fromItems ns)
  | .plain v => v

def fromItems : List Node → List Js
  | [] => []
  | n :: ns => fromShared n :: fromItems ns

def fromEntries : Entries → Members
  | [] => []
  | (k, n) :: es => if k = "__proto__" then fromEntries es else (k, fromShared n) :: fromEntries es

end

/-- What an entry reads as: one that is absent as `null`. -/
def reading (n : Option Node) : Js := n.elim .null fromShared

mutual

/-- A value as it is put into a document. -/
def toShared (path : String) : Js → Node
  | .obj o => .map (toEntries path o)
  | .arr items => .array (toItems path items)
  | .str t => if PackDoc.isProse path then .text t else .plain (.str t)
  | .null => .plain .null
  | .bool b => .plain (.bool b)
  | .num bits => .plain (.num bits)

def toItems (path : String) : List Js → List Node
  | [] => []
  | v :: items => toShared path v :: toItems path items

def toEntries (path : String) : Members → Entries
  | [] => []
  | (k, v) :: o => (k, toShared (PackDoc.childPath path k) v) :: toEntries path o

end

/-- The keys that `in` finds in every object. -/
def inherited : List String :=
  ["constructor", "__defineGetter__", "__defineSetter__", "hasOwnProperty", "__lookupGetter__",
    "__lookupSetter__", "isPrototypeOf", "propertyIsEnumerable", "toString", "valueOf", "__proto__",
    "toLocaleString"]

/-- A step into a value. -/
inductive Step
  | key (k : String)
  | row (i : ℕ)
  deriving DecidableEq

/-- Where a document is touched. -/
abbrev Path := List Step

/-! ## Writing -/

/-- The smallest edit of a text. -/
def textPatch (t s : Text) : Option (Patch UInt16) := Patch.patch t s

section Write

variable (edit : Text → Patch UInt16 → Text)

/-- The entries that are not there in an object are deleted, as far as `in` says so. -/
def prune (o : Members) (r : Entries × List Path) : Entries × List Path :=
  let keep (k : String) : Bool := (o.lookup k).isSome ∨ k ∈ inherited
  (r.1.filter fun e => keep e.1,
    r.2 ++ (r.1.filter fun e => !keep e.1).map fun e => [.key e.1])

/-- The entries with one of them as it is now, if it is. -/
def put (k : String) (n : Option Node) (es : Entries) : Entries :=
  n.elim es fun n => Assoc.set k n es

mutual

/-- A value is written where there is something, or nothing: what is there then, and where it was
    touched. -/
def writeInto (path : String) : Js → Option Node → Option Node × List Path
  | .str s, some (.text t) =>
    match textPatch t s with
    | none => (some (.text t), [])
    | some p => (some (.text (edit t p)), [[]])
  | .obj o, some (.map es) =>
    let r := prune o (writeMembers path o es)
    (some (.map r.1), r.2)
  | .arr vs, some (.array ns) =>
    let r := writeRows path vs 0 ns
    (some (.array r.1), r.2)
  | v, current =>
    if sameText (reading current) v then (current, []) else (some (toShared path v), [[]])

/-- The members of an object are written into a map. -/
def writeMembers (path : String) : Members → Entries → Entries × List Path
  | [], es => (es, [])
  | (k, v) :: o, es =>
    let r := writeInto (PackDoc.childPath path k) v (es.lookup k)
    let rest := writeMembers path o (put k r.1 es)
    (rest.1, r.2.map (Step.key k :: ·) ++ rest.2)

/-- Rows are written one by one, from a place on, and the array is resized at its end. -/
def writeRows (path : String) : List Js → ℕ → List Node → List Node × List Path
  | [], _, [] => ([], [])
  | [], _, _ :: _ => ([], [[]])
  | v :: vs, _, [] => (toItems path (v :: vs), [[]])
  | v :: vs, i, n :: ns =>
    let r := writeRow path v n
    let rest := writeRows path vs (i + 1) ns
    (r.1 :: rest.1, r.2.map (Step.row i :: ·) ++ rest.2)

/-- A row that is a map is written into, another one is replaced if it differs. -/
def writeRow (path : String) : Js → Node → Node × List Path
  | .obj o, .map es =>
    let r := prune o (writeMembers path o es)
    (.map r.1, r.2)
  | v, n => if sameText (fromShared n) v then (n, []) else (toShared path v, [[]])

end

def serverOwned : List String := ["owner", "tier", "visibility", "fork_of"]

/-- What of a config is written: all but what is the server's. -/
def authored (next : Members) : Members :=
  (writtenMembers next).filter fun m => m.1 ∉ serverOwned

def writeConfig (doc : Entries) (next : Members) : Entries × List Path :=
  prune (authored next) (writeMembers edit "" (authored next) doc)

/-- A document as a config; what is the server's is that of another one. -/
def readConfig (doc : Entries) (base : Members) : Members :=
  ((fromEntries doc).filter fun m => m.1 ∉ serverOwned) ++
    base.filter fun m => m.1 ∈ serverOwned

end Write

/-! ## What is written where -/

/-- A value as it is read of JSON, of which no object has the key `__proto__`. -/
inductive Clean : Js → Prop
  | null : Clean .null
  | bool (b : Bool) : Clean (.bool b)
  | num {bits : UInt64} : writtenNumber bits = .num bits → Clean (.num bits)
  | str (t : Text) : Clean (.str t)
  | arr {items : List Js} : (∀ v ∈ items, Clean v) → Clean (.arr items)
  | obj {o : Members} : (o.map Prod.fst).Nodup → "__proto__" ∉ o.map Prod.fst →
    (∀ m ∈ o, Clean m.2) → Clean (.obj o)

section Values

variable {v : Js} {o : Members} {items : List Js} {es : Entries} {k : String}

theorem writtenItems_eq (items : List Js) : writtenItems items = items.map written := by
  induction items with
  | nil => rfl
  | cons v items ih => rw [writtenItems, ih, List.map_cons]

theorem writtenMembers_eq (o : Members) :
    writtenMembers o = o.map fun m => (m.1, written m.2) := by
  induction o with
  | nil => rfl
  | cons m o ih => rw [writtenMembers, ih, List.map_cons]

theorem fromItems_eq (ns : List Node) : fromItems ns = ns.map fromShared := by
  induction ns with
  | nil => rfl
  | cons n ns ih => rw [fromItems, ih, List.map_cons]

theorem toItems_eq (path : String) (items : List Js) :
    toItems path items = items.map (toShared path) := by
  induction items with
  | nil => rfl
  | cons v items ih => rw [toItems, ih, List.map_cons]

/-- A key of an object is the key of an entry, unless it is `__proto__`. -/
theorem lookup_fromEntries (hk : k ≠ "__proto__") (es : Entries) :
    (fromEntries es).lookup k = (es.lookup k).map fromShared := by
  induction es with
  | nil => rfl
  | cons e es ih =>
    rw [fromEntries, Assoc.lookup_cons]
    split_ifs with hproto he he
    · exact absurd (he.trans hproto) hk
    · exact ih
    · rw [Assoc.lookup_cons, if_pos he]
      rfl
    · rw [Assoc.lookup_cons, if_neg he]
      exact ih

theorem lookup_map (f : Js → Js) (o : Members) (k : String) :
    (o.map fun m => (m.1, f m.2)).lookup k = (o.lookup k).map f := by
  induction o with
  | nil => rfl
  | cons m o ih =>
    rw [List.map_cons, Assoc.lookup_cons, Assoc.lookup_cons, ih]
    split_ifs <;> rfl

/-- What is read of JSON is written as it is. -/
theorem Clean.written (h : Clean v) : written v = v := by
  induction h with
  | null | bool | str => rfl
  | num h => exact h
  | arr _ ih =>
    rw [SharedDoc.written, writtenItems_eq]
    exact congrArg Js.arr ((List.map_congr_left ih).trans (List.map_id' _))
  | obj _ _ _ ih =>
    rw [SharedDoc.written, writtenMembers_eq]
    refine congrArg Js.obj (Eq.trans (List.map_congr_left fun m hm => ?_) (List.map_id' _))
    rw [ih m hm]

theorem Clean.ne_proto (h : Clean (.obj o)) (hk : o.lookup k ≠ none) : k ≠ "__proto__" := by
  rintro rfl
  obtain ⟨v, hv⟩ := Option.ne_none_iff_exists'.1 hk
  rcases h with _ | _ | _ | _ | _ | ⟨-, hproto, -⟩
  exact hproto (List.mem_map_of_mem (mem_of_lookup hv))

/-- A value that is put into a document reads as it is. -/
theorem Clean.fromShared_toShared (h : Clean v) (path : String) :
    fromShared (toShared path v) = v := by
  induction h generalizing path with
  | null | bool | num => rfl
  | str t =>
    rw [toShared]
    split_ifs <;> rfl
  | arr _ ih =>
    rw [toShared, fromShared, toItems_eq, fromItems_eq, List.map_map]
    exact congrArg Js.arr ((List.map_congr_left fun v hv => ih v hv path).trans (List.map_id' _))
  | @obj o hnodup hproto hall ih =>
    rw [toShared, fromShared]
    refine congrArg Js.obj ?_
    clear hnodup hall
    induction o with
    | nil => rfl
    | cons m o iho =>
      have hm : m.1 ≠ "__proto__" := fun he => hproto (he ▸ List.mem_cons_self)
      rw [toEntries, fromEntries, if_neg hm, ih m List.mem_cons_self,
        iho (fun h => hproto (List.mem_cons_of_mem _ h))
          fun m hm => ih m (List.mem_cons_of_mem _ hm)]

end Values

section Spec

variable {edit : Text → Patch UInt16 → Text} {path k : String} {o : Members} {es : Entries}
  {v : Js} {current : Option Node}

theorem lookup_put (k : String) (r : Option Node) (es : Entries) (k' : String) :
    (put k r es).lookup k' = if k' = k then r.or (es.lookup k) else es.lookup k' := by
  rcases r with _ | n
  · show es.lookup k' = _
    split_ifs with h
    · rw [h]
      rfl
    · rfl
  · show (Assoc.set k n es).lookup k' = _
    rw [Assoc.lookup_set]
    rfl

/-- Nothing goes away that is written into. -/
theorem writeInto_or : (writeInto edit path v current).1.or current =
    (writeInto edit path v current).1 := by
  rcases current with _ | n
  · exact Option.or_none
  · suffices h : (writeInto edit path v (some n)).1.isSome by
      obtain ⟨m, hm⟩ := Option.isSome_iff_exists.1 h
      rw [hm]
      rfl
    rw [writeInto.eq_def]
    split
    · split <;> rfl
    · rfl
    · rfl
    · split_ifs <;> rfl

/-- Each member is written where its entry is. -/
theorem lookup_writeMembers (hnodup : (o.map Prod.fst).Nodup) (k : String) :
    (writeMembers edit path o es).1.lookup k =
      (o.lookup k).elim (es.lookup k) fun v =>
        (writeInto edit (PackDoc.childPath path k) v (es.lookup k)).1 := by
  induction o generalizing es with
  | nil => rfl
  | cons m o ih =>
    rw [List.map_cons, List.nodup_cons] at hnodup
    rw [writeMembers, ih hnodup.2, Assoc.lookup_cons, lookup_put]
    by_cases hk : k = m.1
    · have hnone : o.lookup k = none := by
        rw [List.lookup_eq_none_iff]
        intro q hq
        simpa using fun he : k = q.1 => hnodup.1 (hk ▸ he ▸ List.mem_map_of_mem hq)
      rw [hnone, if_pos hk, if_pos hk, Option.elim_none, Option.elim_some, writeInto_or, hk]
    · rw [if_neg hk, if_neg hk]

theorem mem_writeMembers (hnodup : (o.map Prod.fst).Nodup) {p : Path}
    (hp : p ∈ (writeMembers edit path o es).2) :
    ∃ k v p', o.lookup k = some v ∧ p = .key k :: p' ∧
      p' ∈ (writeInto edit (PackDoc.childPath path k) v (es.lookup k)).2 := by
  induction o generalizing es with
  | nil => exact absurd hp List.not_mem_nil
  | cons m o ih =>
    rw [List.map_cons, List.nodup_cons] at hnodup
    rw [writeMembers] at hp
    rcases List.mem_append.1 hp with hp | hp
    · obtain ⟨p', hp', rfl⟩ := List.mem_map.1 hp
      exact ⟨m.1, m.2, p', by rw [Assoc.lookup_cons, if_pos rfl], rfl, hp'⟩
    · obtain ⟨k, v, p', hk, rfl, hp'⟩ := ih hnodup.2 hp
      have hne : k ≠ m.1 := by
        rintro rfl
        exact hnodup.1 (List.mem_map.2 ⟨_, mem_of_lookup hk, rfl⟩)
      rw [lookup_put, if_neg hne] at hp'
      exact ⟨k, v, p', by rw [Assoc.lookup_cons, if_neg hne, hk], rfl, hp'⟩

theorem getElem?_writeRows (vs : List Js) (i : ℕ) (ns : List Node) (j : ℕ) :
    (writeRows edit path vs i ns).1[j]? = vs[j]?.map fun v =>
      ns[j]?.elim (toShared path v) fun n => (writeRow edit path v n).1 := by
  induction vs generalizing i ns j with
  | nil => rcases ns with _ | ⟨n, ns⟩ <;> rfl
  | cons v vs ih =>
    rcases ns with _ | ⟨n, ns⟩
    · rw [writeRows, toItems_eq, List.getElem?_map]
      rfl
    · rw [writeRows]
      rcases j with _ | j
      · rfl
      · exact ih (i + 1) ns j

theorem mem_writeRows {vs : List Js} {i : ℕ} {ns : List Node} {p : Path}
    (hp : p ∈ (writeRows edit path vs i ns).2) : (p = [] ∧ vs.length ≠ ns.length) ∨
      ∃ j v n p', vs[j]? = some v ∧ ns[j]? = some n ∧ p = .row (i + j) :: p' ∧
        p' ∈ (writeRow edit path v n).2 := by
  induction vs generalizing i ns with
  | nil =>
    rcases ns with _ | ⟨n, ns⟩
    · exact absurd hp List.not_mem_nil
    · exact .inl ⟨List.mem_singleton.1 hp, by simp⟩
  | cons v vs ih =>
    rcases ns with _ | ⟨n, ns⟩
    · exact .inl ⟨List.mem_singleton.1 hp, by simp⟩
    · rw [writeRows] at hp
      rcases List.mem_append.1 hp with hp | hp
      · obtain ⟨p', hp', rfl⟩ := List.mem_map.1 hp
        exact .inr ⟨0, v, n, p', rfl, rfl, rfl, hp'⟩
      · rcases ih hp with ⟨rfl, hlen⟩ | ⟨j, w, m, p', hw, hm, rfl, hp'⟩
        · exact .inl ⟨rfl, by simpa using hlen⟩
        · refine .inr ⟨j + 1, w, m, p', hw, hm, ?_, hp'⟩
          rw [Nat.add_right_comm, Nat.add_assoc]

end Spec
/-! ## What is touched -/

/-- What there is of a value where steps into it lead. -/
def Js.get : Js → Path → Option Js
  | v, [] => some v
  | .obj o, .key k :: p => (o.lookup k).bind fun w => w.get p
  | .arr items, .row i :: p => items[i]?.bind fun w => w.get p
  | _, _ :: _ => none

section Touch

variable {edit : Text → Patch UInt16 → Text} {path : String} {o : Members} {es : Entries} {v : Js}
  {p : Path}

theorem get_key (o : Members) (k : String) (p : Path) :
    (Js.obj o).get (.key k :: p) = (o.lookup k).bind fun w => w.get p := rfl

theorem get_row (items : List Js) (i : ℕ) (p : Path) :
    (Js.arr items).get (.row i :: p) = items[i]?.bind fun w => w.get p := rfl

/-- A member of a map, as it is read of JSON. -/
theorem get_written_map {k : String} (hk : k ≠ "__proto__") (es : Entries) (p : Path) :
    (written (.obj (fromEntries es))).get (.key k :: p) =
      ((es.lookup k).map fun n => written (fromShared n)).bind fun w => w.get p := by
  rw [written, get_key, writtenMembers_eq, lookup_map, lookup_fromEntries hk, Option.map_map]
  rfl

/-- What is touched where something is written into differs there. -/
def TouchesDiffer (edit : Text → Patch UInt16 → Text) (v : Js) : Prop :=
  ∀ path current p, p ∈ (writeInto edit path v current).2 →
    ((current.map fun n => written (fromShared n)).bind fun w => w.get p) ≠ v.get p

/-- What is touched in a map differs there, if that is so of its entries. -/
theorem get_prune_ne (h : Clean (.obj o)) (ih : ∀ m ∈ o, TouchesDiffer edit m.2)
    (hp : p ∈ (prune o (writeMembers edit path o es)).2) :
    (written (.obj (fromEntries es))).get p ≠ (Js.obj o).get p := by
  obtain ⟨hnodup, -, -⟩ : (o.map Prod.fst).Nodup ∧ True ∧ True := by
    rcases h with _ | _ | _ | _ | _ | ⟨hnodup, -, -⟩
    exact ⟨hnodup, trivial, trivial⟩
  rcases List.mem_append.1 hp with hp | hp
  · obtain ⟨k, v, p', hk, rfl, hp'⟩ := mem_writeMembers hnodup hp
    rw [get_written_map (h.ne_proto (hk ▸ Option.some_ne_none v)), get_key, hk, Option.bind_some]
    exact ih _ (mem_of_lookup hk) _ _ _ hp'
  · obtain ⟨e, he, rfl⟩ := List.mem_map.1 hp
    obtain ⟨hmem, hkeep⟩ := List.mem_filter.1 he
    have hgone : o.lookup e.1 = none ∧ e.1 ∉ inherited := by simpa using hkeep
    have hproto : e.1 ≠ "__proto__" := fun hk => hgone.2 (hk ▸ by decide)
    have hthere : (writeMembers edit path o es).1.lookup e.1 ≠ none := by
      intro hnone
      rw [List.lookup_eq_none_iff] at hnone
      exact absurd (hnone e hmem) (by simp)
    rw [lookup_writeMembers hnodup, hgone.1, Option.elim_none] at hthere
    obtain ⟨n, hn⟩ := Option.ne_none_iff_exists'.1 hthere
    rw [get_written_map hproto, get_key, hgone.1, hn]
    exact Option.some_ne_none _

/-- A value that is replaced differs. -/
theorem get_replaced (current : Option Node) (h : Clean v)
    (hsame : ¬ sameText (reading current) v = true) :
    ((current.map fun n => written (fromShared n)).bind fun w => w.get []) ≠ v.get [] := by
  rw [sameText, decide_eq_true_eq, h.written] at hsame
  rcases current with _ | n
  · exact (Option.some_ne_none _).symm
  · exact fun he => hsame (Option.some_injective _ he)

theorem get_writeRow_ne (h : Clean v) (hv : TouchesDiffer edit v) {n : Node}
    (hp : p ∈ (writeRow edit path v n).2) : (written (fromShared n)).get p ≠ v.get p := by
  rw [writeRow.eq_def] at hp
  split at hp
  · exact hv path (some _) p hp
  · split_ifs at hp with hsame
    · exact absurd hp List.not_mem_nil
    · obtain rfl := List.mem_singleton.1 hp
      exact get_replaced (some n) h hsame

/-- What is touched of a value differs there, if that is so of its members and rows. -/
theorem touchesDiffer_of (h : Clean v)
    (hobj : ∀ o, v = .obj o → ∀ m ∈ o, TouchesDiffer edit m.2)
    (harr : ∀ items, v = .arr items → ∀ w ∈ items, Clean w ∧ TouchesDiffer edit w) :
    TouchesDiffer edit v := by
  intro path current p hp
  rw [writeInto.eq_def] at hp
  split at hp
  · -- A text is touched only if there is something to edit.
    rename_i s t
    rcases hpatch : textPatch t s with _ | q
    · rw [hpatch] at hp
      exact absurd hp List.not_mem_nil
    · rw [hpatch] at hp
      obtain rfl := List.mem_singleton.1 hp
      intro he
      have hts : t = s := by simpa [Js.get, fromShared, written] using he
      rw [textPatch, Patch.patch_eq_none.2 hts] at hpatch
      exact absurd hpatch (Option.some_ne_none q).symm
  · exact get_prune_ne h (hobj _ rfl) hp
  · rename_i vs ns
    show (written (.arr (fromItems ns))).get p ≠ (Js.arr vs).get p
    rw [written, writtenItems_eq, fromItems_eq, List.map_map]
    rcases mem_writeRows hp with ⟨rfl, hlen⟩ | ⟨j, w, n, p', hw, hn, rfl, hp'⟩
    · intro he
      refine hlen ?_
      have hrows : ns.map (written ∘ fromShared) = vs := by simpa [Js.get] using he
      rw [← hrows, List.length_map]
    · rw [Nat.zero_add, get_row, get_row, hw, List.getElem?_map, hn]
      obtain ⟨hclean, hdiff⟩ := harr _ rfl w (List.mem_of_getElem? hw)
      exact get_writeRow_ne hclean hdiff hp'
  · split_ifs at hp with hsame
    · exact absurd hp List.not_mem_nil
    · obtain rfl := List.mem_singleton.1 hp
      exact get_replaced _ h hsame

theorem Clean.touchesDiffer (h : Clean v) : TouchesDiffer edit v := by
  induction h with
  | null => exact touchesDiffer_of .null (by simp) (by simp)
  | bool b => exact touchesDiffer_of (.bool b) (by simp) (by simp)
  | num h => exact touchesDiffer_of (.num h) (by simp) (by simp)
  | str t => exact touchesDiffer_of (.str t) (by simp) (by simp)
  | arr h ih =>
    refine touchesDiffer_of (.arr h) (by simp) fun items he w hw => ?_
    obtain rfl := Js.arr.inj he
    exact ⟨h w hw, ih w hw⟩
  | obj hnodup hproto h ih =>
    refine touchesDiffer_of (.obj hnodup hproto h) (fun o he m hm => ?_) (by simp)
    obtain rfl := Js.obj.inj he
    exact ih m hm

end Touch
/-! ## Texts -/

/-- The first half of a pair of surrogates, and the second one. -/
def high (u : UInt16) : Bool := 0xD800 ≤ u ∧ u ≤ 0xDBFF

def low (u : UInt16) : Bool := 0xDC00 ≤ u ∧ u ≤ 0xDFFF

/-- A place in a text is between the halves of a pair. -/
def inPair (t : Text) (i : ℕ) : Bool := 0 < i ∧ (t[i - 1]?).any high ∧ (t[i]?).any low

/-- Halves are there in pairs only. -/
structure WellFormed (t : Text) : Prop where
  next : ∀ i, (t[i]?).any high → (t[i + 1]?).any low
  previous : ∀ i, (t[i]?).any low → 0 < i ∧ (t[i - 1]?).any high

/-- An edit begins or ends between the halves of a pair. -/
def cuts (t : Text) (p : Patch UInt16) : Bool := inPair t p.index ∨ inPair t (p.index + p.remove)

section Texts

variable {t s : Text} {p : Patch UInt16}

theorem patch_eq_some (h : textPatch t s = some p) :
    p.index = Patch.common t s ∧ p.index + p.remove = t.length - Patch.tail t s ∧
      p.index + p.insert.length = s.length - Patch.tail t s := by
  rw [textPatch, Patch.patch] at h
  split_ifs at h
  obtain rfl := Option.some.inj h
  have hl : Patch.common t s ≤ t.length := Patch.common_le_left
  have hr : Patch.common t s ≤ s.length := Patch.common_le_right
  have ht : Patch.tail t s ≤ min t.length s.length - Patch.common t s := Patch.tail_le
  refine ⟨rfl, ?_, ?_⟩
  · show Patch.common t s + (t.length - Patch.common t s - Patch.tail t s) = _
    omega
  · show Patch.common t s + ((s.take (s.length - Patch.tail t s)).drop _).length = _
    rw [List.length_drop, List.length_take]
    omega

/-- Where the texts begin alike, they have a pair that ends there both or none of them. -/
theorem inPair_common (hs : WellFormed s) (h : inPair t (Patch.common t s) = true) :
    inPair s (Patch.common t s) = true := by
  obtain ⟨hpos, hhigh, -⟩ := of_decide_eq_true h
  have hsame : t[Patch.common t s - 1]? = s[Patch.common t s - 1]? := by
    have htake := congrArg (fun l => l[Patch.common t s - 1]?) (Patch.take_common (l := t) (m := s))
    rwa [List.getElem?_take_of_lt (by omega), List.getElem?_take_of_lt (by omega)] at htake
  rw [hsame] at hhigh
  refine decide_eq_true ⟨hpos, hhigh, ?_⟩
  have hnext := hs.next _ hhigh
  rwa [Nat.sub_add_cancel hpos] at hnext

/-- Where they end alike, too. -/
theorem inPair_tail (hs : WellFormed s) (h : inPair t (t.length - Patch.tail t s) = true) :
    inPair s (s.length - Patch.tail t s) = true := by
  obtain ⟨-, -, hlow⟩ := of_decide_eq_true h
  have hsame : t[t.length - Patch.tail t s]? = s[s.length - Patch.tail t s]? := by
    have hdrop := congrArg (fun l => l[0]?) (Patch.drop_tail (l := t) (m := s))
    rwa [List.getElem?_drop, List.getElem?_drop, Nat.add_zero, Nat.add_zero] at hdrop
  rw [hsame] at hlow
  obtain ⟨hpos, hhigh⟩ := hs.previous _ hlow
  exact decide_eq_true ⟨hpos, hhigh, hlow⟩

theorem common_comm (l m : Text) : Patch.common l m = Patch.common m l := by
  refine Nat.le_antisymm ?_ ?_
  · obtain ⟨h₁, h₂, h₃⟩ := Patch.le_common.1 (Nat.le_refl (Patch.common l m))
    exact Patch.le_common.2 ⟨h₂, h₁, h₃.symm⟩
  · obtain ⟨h₁, h₂, h₃⟩ := Patch.le_common.1 (Nat.le_refl (Patch.common m l))
    exact Patch.le_common.2 ⟨h₂, h₁, h₃.symm⟩

theorem tail_comm (l m : Text) : Patch.tail l m = Patch.tail m l := by
  rw [Patch.tail, Patch.tail, common_comm l m, Nat.min_comm, common_comm]

/-- An edit makes the second text of the first one, none is smaller, and there is none only if the
texts are the same. Its ends are between the halves of a pair of the one text exactly if they are of
the other: only where both have pairs, with the same first halves or the same second halves. -/
theorem textPatch_spec (t s : Text) : (textPatch t s = none ↔ t = s) ∧
    ∀ p, textPatch t s = some p → p.splice t = s ∧
      (∀ q : Patch UInt16, q.index + q.remove ≤ t.length → q.splice t = s →
        p.remove ≤ q.remove ∧ p.insert.length ≤ q.insert.length) ∧
      (WellFormed t → WellFormed s → (inPair t p.index = inPair s p.index ∧
        inPair t (p.index + p.remove) = inPair s (p.index + p.insert.length))) := by
  refine ⟨Patch.patch_eq_none, fun p h => ⟨Patch.splice_of_patch h,
    fun q hq hs => Patch.patch_smallest h hq hs, fun ht hs => ?_⟩⟩
  obtain ⟨hindex, hremove, hinsert⟩ := patch_eq_some h
  rw [hremove, hinsert, hindex]
  refine ⟨Bool.eq_iff_iff.2 ⟨inPair_common hs, fun h => ?_⟩,
    Bool.eq_iff_iff.2 ⟨inPair_tail hs, fun h => ?_⟩⟩
  · rw [common_comm] at h ⊢
    exact inPair_common ht h
  · rw [tail_comm] at h ⊢
    exact inPair_tail ht h

end Texts
/-! ## Reading back -/

/-- The texts of documents: how they are edited. What comes of a pair that is cut is left open. -/
structure Texts where
  edit : Text → Patch UInt16 → Text
  edit_eq : ∀ t p, cuts t p = false → edit t p = p.splice t

mutual

/-- No text is edited in the middle of a pair. -/
def whole : Js → Option Node → Bool
  | .str s, some (.text t) => (textPatch t s).all fun p => !cuts t p
  | .obj o, some (.map es) => wholeMembers o es
  | .arr vs, some (.array ns) => wholeRows vs ns
  | _, _ => true

def wholeMembers : Members → Entries → Bool
  | [], _ => true
  | (k, v) :: o, es => whole v (es.lookup k) && wholeMembers o es

def wholeRows : List Js → List Node → Bool
  | v :: vs, n :: ns => wholeRow v n && wholeRows vs ns
  | _, _ => true

def wholeRow : Js → Node → Bool
  | .obj o, .map es => wholeMembers o es
  | _, _ => true

end

/-- A field of an object; nothing is `null`. -/
def field (o : Members) (k : String) : Js := (o.lookup k).getD .null

/-- What was read agrees with what was written: it is the same in JSON, but for fields that are
    absent or `null`, and for those that were not written and have a key that every object has. -/
inductive Agree : Js → Js → Prop
  | same {r v : Js} : written r = written v → Agree r v
  | arr {rs vs : List Js} : rs.length = vs.length →
    (∀ (i : ℕ) (r v : Js), rs[i]? = some r → vs[i]? = some v → Agree r v) →
    Agree (.arr rs) (.arr vs)
  | obj {a o : Members} :
    (∀ k, o.lookup k ≠ none ∨ k ∉ inherited → Agree (field a k) (field o k)) →
    Agree (.obj a) (.obj o)

section Read

variable {edit : Text → Patch UInt16 → Text} {path : String} {o : Members} {es : Entries} {v : Js}

theorem whole_of_lookup {k : String} (h : wholeMembers o es = true) (hk : o.lookup k = some v) :
    whole v (es.lookup k) = true := by
  induction o with
  | nil => exact absurd hk (by simp)
  | cons m o ih =>
    obtain ⟨hm, ho⟩ := Bool.and_eq_true_iff.1 h
    rw [Assoc.lookup_cons] at hk
    split_ifs at hk with he
    · obtain rfl := Option.some.inj hk
      rw [he]
      exact hm
    · exact ih ho hk

theorem wholeRow_of_getElem? {vs : List Js} {ns : List Node} {j : ℕ} {n : Node}
    (h : wholeRows vs ns = true) (hv : vs[j]? = some v) (hn : ns[j]? = some n) :
    wholeRow v n = true := by
  induction vs generalizing ns j with
  | nil => exact absurd hv (by simp)
  | cons w vs ih =>
    rcases ns with _ | ⟨m, ns⟩
    · exact absurd hn (by simp)
    · obtain ⟨hm, hns⟩ := Bool.and_eq_true_iff.1 h
      rcases j with _ | j
      · obtain rfl := Option.some.inj hv
        obtain rfl := Option.some.inj hn
        exact hm
      · exact ih hns hv hn

/-- What is written where there is something, or nothing, is read there. -/
def ReadsBack (T : Texts) (v : Js) : Prop :=
  ∀ path current, whole v current = true →
    Agree (reading (writeInto T.edit path v current).1) v

variable {T : Texts}

/-- The entries of a map are read as the members that were written. -/
theorem agree_prune (h : Clean (.obj o)) (ih : ∀ m ∈ o, ReadsBack T m.2)
    (hw : wholeMembers o es = true) :
    Agree (.obj (fromEntries (prune o (writeMembers T.edit path o es)).1)) (.obj o) := by
  have hnodup : (o.map Prod.fst).Nodup := by
    rcases h with _ | _ | _ | _ | _ | ⟨hnodup, -, -⟩
    exact hnodup
  refine .obj fun k hk => ?_
  have hproto : k ≠ "__proto__" := by
    rcases hk with hk | hk
    · exact h.ne_proto hk
    · exact fun he => hk (he ▸ by decide)
  have hfield : field (fromEntries (prune o (writeMembers T.edit path o es)).1) k =
      reading ((prune o (writeMembers T.edit path o es)).1.lookup k) := by
    rw [field, lookup_fromEntries hproto]
    rcases (prune o (writeMembers T.edit path o es)).1.lookup k <;> rfl
  rw [hfield, prune, field]
  rcases hlook : o.lookup k with _ | v
  · -- An entry that is not among the members is deleted.
    have hkeep : k ∉ inherited := hk.resolve_left fun hne => hne hlook
    have hnone : ((writeMembers T.edit path o es).1.filter fun e =>
        decide ((o.lookup e.1).isSome ∨ e.1 ∈ inherited)).lookup k = none := by
      rw [List.lookup_eq_none_iff]
      intro e he
      have hkept := of_decide_eq_true (List.mem_filter.1 he).2
      rw [bne_iff_ne]
      rintro rfl
      rw [hlook] at hkept
      exact hkept.elim (by simp) hkeep
    rw [hnone]
    exact .same rfl
  · have hp : decide ((o.lookup k).isSome ∨ k ∈ inherited) = true :=
      decide_eq_true (.inl (hlook ▸ rfl))
    rw [lookup_filter (p := fun k => decide ((o.lookup k).isSome ∨ k ∈ inherited)) hp,
      lookup_writeMembers hnodup, hlook]
    exact ih _ (mem_of_lookup hlook) _ _ (whole_of_lookup hw hlook)

theorem agree_replaced (h : Clean v) {current : Option Node} :
    Agree (reading (if sameText (reading current) v then (current, []) else
      (some (toShared path v), ([[]] : List Path))).1) v := by
  split_ifs with hsame
  · exact .same (of_decide_eq_true hsame)
  · exact .same (congrArg written (h.fromShared_toShared path))

theorem agree_writeRow (h : Clean v) (hv : ReadsBack T v) {n : Node} (hw : wholeRow v n = true) :
    Agree (fromShared (writeRow T.edit path v n).1) v := by
  rw [writeRow.eq_def]
  split
  · exact hv path (some (.map _)) hw
  · split_ifs with hsame
    · exact .same (of_decide_eq_true hsame)
    · exact .same (congrArg written (h.fromShared_toShared path))

theorem readsBack_of (h : Clean v) (hobj : ∀ o, v = .obj o → ∀ m ∈ o, ReadsBack T m.2)
    (harr : ∀ items, v = .arr items → ∀ w ∈ items, Clean w ∧ ReadsBack T w) : ReadsBack T v := by
  intro path current hw
  rw [writeInto.eq_def]
  split
  · rename_i s t
    have hw : (textPatch t s).all (fun p => !cuts t p) = true := hw
    rcases hpatch : textPatch t s with _ | p
    · obtain rfl := Patch.patch_eq_none.1 hpatch
      exact .same rfl
    · rw [hpatch] at hw
      have hcut : cuts t p = false := by simpa using hw
      refine .same (congrArg (fun t => written (.str t)) ?_)
      rw [T.edit_eq t p hcut, Patch.splice_of_patch hpatch]
  · exact agree_prune h (hobj _ rfl) hw
  · rename_i vs ns
    show Agree (.arr (fromItems (writeRows T.edit path vs 0 ns).1)) (.arr vs)
    have hget (j : ℕ) : (fromItems (writeRows T.edit path vs 0 ns).1)[j]? = vs[j]?.map fun v =>
        fromShared (ns[j]?.elim (toShared path v) fun n => (writeRow T.edit path v n).1) := by
      rw [fromItems_eq, List.getElem?_map, getElem?_writeRows, Option.map_map]
      rfl
    refine .arr ?_ fun j r w hr hw' => ?_
    · refine Nat.le_antisymm ?_ ?_
      · rw [← List.getElem?_eq_none_iff, hget, List.getElem?_eq_none (Nat.le_refl _)]
        rfl
      · have hnone := hget (fromItems (writeRows T.edit path vs 0 ns).1).length
        rw [List.getElem?_eq_none (Nat.le_refl _)] at hnone
        exact List.getElem?_eq_none_iff.1 (Option.map_eq_none_iff.1 hnone.symm)
    · rw [hget, hw', Option.map_some, Option.some_inj] at hr
      obtain ⟨hclean, hreads⟩ := harr _ rfl w (List.mem_of_getElem? hw')
      rw [← hr]
      rcases hn : ns[j]? with _ | n
      · exact .same (congrArg written (hclean.fromShared_toShared path))
      · exact agree_writeRow hclean hreads (wholeRow_of_getElem? hw hw' hn)
  · exact agree_replaced h

theorem Clean.readsBack (h : Clean v) : ReadsBack T v := by
  induction h with
  | null => exact readsBack_of .null (by simp) (by simp)
  | bool b => exact readsBack_of (.bool b) (by simp) (by simp)
  | num h => exact readsBack_of (.num h) (by simp) (by simp)
  | str t => exact readsBack_of (.str t) (by simp) (by simp)
  | arr h ih =>
    refine readsBack_of (.arr h) (by simp) fun items he w hw => ?_
    obtain rfl := Js.arr.inj he
    exact ⟨h w hw, ih w hw⟩
  | obj hnodup hproto h ih =>
    refine readsBack_of (.obj hnodup hproto h) (fun o he m hm => ?_) (by simp)
    obtain rfl := Js.obj.inj he
    exact ih m hm

end Read
/-! ## Configs -/

section Config

variable {doc : Entries} {next : Members}

/-- A member that is not the server's. -/
theorem lookup_authored {k : String} (hk : k ∉ serverOwned) (o : Members) :
    (o.filter fun m => m.1 ∉ serverOwned).lookup k = o.lookup k :=
  lookup_filter (p := fun k => k ∉ serverOwned) (decide_eq_true hk) o

theorem lookup_filter_of_not {p : String → Bool} {k : String} (hk : p k = false) (o : Members) :
    (o.filter fun m => p m.1).lookup k = none := by
  rw [List.lookup_eq_none_iff]
  intro m hm
  rw [bne_iff_ne]
  rintro rfl
  rw [(List.mem_filter.1 hm).2] at hk
  exact absurd hk (by decide)

theorem lookup_append (l l' : Members) (k : String) :
    (l ++ l').lookup k = (l.lookup k).or (l'.lookup k) := by
  induction l with
  | nil => rfl
  | cons m l ih =>
    rw [List.cons_append, Assoc.lookup_cons, Assoc.lookup_cons, ih]
    split_ifs <;> rfl

theorem lookup_readConfig (doc : Entries) (base : Members) (k : String) :
    (readConfig doc base).lookup k =
      if k ∈ serverOwned then base.lookup k else (fromEntries doc).lookup k := by
  rw [readConfig, lookup_append]
  split_ifs with hk
  · rw [lookup_filter_of_not (p := fun k => k ∉ serverOwned) (by simpa using hk),
      lookup_filter (p := fun k => k ∈ serverOwned) (decide_eq_true hk)]
    rfl
  · rw [lookup_authored hk,
      lookup_filter_of_not (p := fun k => k ∈ serverOwned) (by simpa using hk)]
    exact Option.or_none

/-- The fields of objects that agree. -/
theorem Agree.field {a o : Members} {k : String} (h : Agree (.obj a) (.obj o))
    (hk : o.lookup k ≠ none ∨ k ∉ inherited) :
    Agree (SharedDoc.field a k) (SharedDoc.field o k) := by
  rcases h with hsame | _ | hall
  · have hmembers : writtenMembers a = writtenMembers o := by
      rw [written, written] at hsame
      exact Js.obj.inj hsame
    have hlook := congrArg (List.lookup k) hmembers
    rw [writtenMembers_eq, writtenMembers_eq, lookup_map, lookup_map] at hlook
    have hget (x : Option Js) : written (x.getD .null) = (x.map written).getD .null := by
      rcases x with _ | v <;> rfl
    refine .same ?_
    rw [SharedDoc.field, SharedDoc.field, hget, hget, hlook]
  · exact hall k hk

/-- Nothing is touched where the document reads as what is written. -/
theorem touches_differ (edit : Text → Patch UInt16 → Text) (doc : Entries)
    (h : Clean (.obj (authored next))) (p : Path) (hp : p ∈ (writeConfig edit doc next).2) :
    (written (.obj (fromEntries doc))).get p ≠ (Js.obj (authored next)).get p :=
  h.touchesDiffer "" (some (.map doc)) p hp

/-- A document that a config was written into reads as the config, but for absent fields and `null`,
for what is the server's, and for keys that every object has and that were not written. -/
theorem reads_back (T : Texts) (base : Members) (h : Clean (.obj (authored next)))
    (hw : wholeMembers (authored next) doc = true) :
    (∀ k ∈ serverOwned, (readConfig (writeConfig T.edit doc next).1 base).lookup k =
      base.lookup k) ∧
    ∀ k ∉ serverOwned, next.lookup k ≠ none ∨ k ∉ inherited →
      Agree (field (readConfig (writeConfig T.edit doc next).1 base) k)
        (field (writtenMembers next) k) := by
  refine ⟨fun k hk => by rw [lookup_readConfig, if_pos hk], fun k hk hthere => ?_⟩
  have hauthored : (authored next).lookup k = (writtenMembers next).lookup k :=
    lookup_authored hk _
  have hagree := h.readsBack (T := T) "" (some (.map doc)) hw
  have hkey : (authored next).lookup k ≠ none ∨ k ∉ inherited := by
    refine hthere.imp (fun hn => ?_) id
    rw [hauthored, writtenMembers_eq, lookup_map]
    obtain ⟨v, hv⟩ := Option.ne_none_iff_exists'.1 hn
    rw [hv]
    exact Option.some_ne_none _
  have hfield : Agree (field (fromEntries (writeConfig T.edit doc next).1) k)
      (field (authored next) k) := Agree.field hagree hkey
  rw [field, lookup_readConfig, if_neg hk]
  rw [field, field, hauthored] at hfield
  exact hfield

/-- Texts that are lists of units and nothing else. -/
def plainTexts : Texts where
  edit t p := p.splice t
  edit_eq _ _ _ := rfl

/-- A document of somebody else, and what is on screen. -/
def docBefore : Entries :=
  [("tagline", .text [97, 98]), ("toString", .plain .null), ("featured", .plain (.bool true)),
    ("java_major", .plain (.num 0))]

def onScreen : Members :=
  [("tagline", .str [97, 99]), ("owner", .num 0), ("featured", .bool false)]

theorem clean_onScreen : Clean (.obj (authored onScreen)) := by
  have h : authored onScreen = [("tagline", .str [97, 99]), ("featured", .bool false)] := by
    decide +kernel
  rw [h]
  refine .obj (by decide) (by decide) fun m hm => ?_
  rcases List.mem_cons.1 hm with rfl | hm
  · exact .str _
  · rw [List.mem_singleton.1 hm]
    exact .bool _

theorem touches_differ_onScreen :
    (writeConfig plainTexts.edit docBefore onScreen).2 =
      [[.key "tagline"], [.key "featured"], [.key "java_major"]] ∧
    (written (.obj (fromEntries docBefore))).get [.key "featured"] ≠
      (Js.obj (authored onScreen)).get [.key "featured"] := by
  have h : (writeConfig plainTexts.edit docBefore onScreen).2 =
      [[.key "tagline"], [.key "featured"], [.key "java_major"]] := by
    decide +kernel
  refine ⟨h, touches_differ plainTexts.edit docBefore clean_onScreen [.key "featured"] ?_⟩
  rw [h]
  decide

theorem reads_back_onScreen :
    Agree (field (readConfig (writeConfig plainTexts.edit docBefore onScreen).1 []) "tagline")
      (field (writtenMembers onScreen) "tagline") :=
  (reads_back plainTexts [] clean_onScreen (by decide +kernel)).2 "tagline" (by decide)
    (.inr (by decide))

end Config

end SharedDoc

end Smrt
