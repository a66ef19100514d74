import Smrt.Authoring.PackDoc
import Smrt.Domain.SerdeOrder
import Smrt.Lib.Doubles

/-!
# The values of a shared document

A config goes into the document through its JSON shape: objects become maps, arrays become arrays,
prose becomes text that merges, and every number a double (`PackDoc.input`). It comes out of it the
same way (`PackDoc.outValue`).

A map of the document holds its entries in no order in particular; an object has its members in the
order of their keys. So a value that has its members in that order comes out as it went in, if its
numbers are integers of up to 53 bits, whatever is prose (`outValue_input_portable`); a whole
double comes out as the integer that it is (`outValue_input`).

What a document is seeded with is then the content of `PackDoc.fromConfig`, in the order of keys
(`content_seed`), and a config is read back (`document_faithful`).
-/

namespace Smrt.PackDoc

open Json

/-! ## Values -/

/-- A value that is replaced whole. -/
inductive Any
  | null
  | undefined
  | bool (b : Bool)
  | number (bits : UInt64)
  | bigInt (n : Int64)
  | string (s : String)
  | array (items : List Any)
  | map (entries : List (String × Any))
  | buffer

/-- What is in a document: a value, or something that merges inside of it. -/
inductive Shared
  | any (a : Any)
  | text (s : String)
  | array (items : List Shared)
  | map (entries : List (String × Shared))
  /-- What no config is written as. -/
  | other

/-- The paths of strings that are prose. -/
def isProse (path : String) : Bool := path = "tagline" ∨ path = "pack_meta.description_md"

def childPath (parent key : String) : String :=
  if parent = "" then key else parent ++ "." ++ key

section Input

variable (order : List (String × Shared) → List (String × Shared)) (prose : String → Bool)

mutual

/-- A value at a path, as it is put into a document; a map has its entries in some order. -/
def input (path : String) : Json → Shared
  | .obj o => .map (order (inputMembers path o))
  | .arr items => .array (inputItems path items)
  | .str s => if prose path then .text s else .any (.string s)
  | .bool b => .any (.bool b)
  | .int n => .any (.number (Double.ofInt n))
  | .float bits => .any (.number bits)
  | .null => .any .null

def inputMembers (path : String) : Members → List (String × Shared)
  | [] => []
  | (k, j) :: o => (k, input (childPath path k) j) :: inputMembers path o

/-- The elements of an array have its path. -/
def inputItems (path : String) : List Json → List Shared
  | [] => []
  | j :: items => input path j :: inputItems path items

end

/-- The entries of a document that is seeded from a config. -/
def seed (cfg : PackConfig) : List (String × Shared) :=
  order ((authored (sortKeys (sortedMembers cfg.toMembers))).map fun m =>
    (m.1, input order prose m.1 m.2))

end Input

/-- A double as a number of JSON: the integer that it is, if it is one. -/
def numberValue (bits : UInt64) : Json :=
  match Double.whole bits with
  | some n => .int n
  | none => if Double.Finite bits then .float bits else .null

mutual

def anyValue : Any → Json
  | .null | .undefined | .buffer => .null
  | .bool b => .bool b
  | .number bits => numberValue bits
  | .bigInt n => .int n.toInt
  | .string s => .str s
  | .array items => .arr (anyItems items)
  | .map entries => .obj (collect (anyEntries entries))

def anyItems : List Any → List Json
  | [] => []
  | a :: items => anyValue a :: anyItems items

def anyEntries : List (String × Any) → Members
  | [] => []
  | (k, a) :: entries => (k, anyValue a) :: anyEntries entries

end

mutual

def outValue : Shared → Json
  | .any a => anyValue a
  | .text s => .str s
  | .array items => .arr (outItems items)
  | .map entries => .obj (collect (outEntries entries))
  | .other => .null

def outItems : List Shared → List Json
  | [] => []
  | s :: items => outValue s :: outItems items

def outEntries : List (String × Shared) → Members
  | [] => []
  | (k, s) :: entries => (k, outValue s) :: outEntries entries

end

/-- The content of a document, from the entries of its root. -/
def content (root : List (String × Shared)) : Members := collect (outEntries root)

/-! ## In and out -/

/-- A number that a double is exactly, or a double. -/
def Exact : Json → Prop
  | .int n => n.natAbs ≤ 2 ^ 53
  | .float bits => Double.Finite bits
  | _ => True

mutual

/-- A value with every double that counts by ones as the integer that it is. -/
def settled : Json → Json
  | .float bits =>
    match Double.whole bits with
    | some n => .int n
    | none => .float bits
  | .arr items => .arr (settledItems items)
  | .obj o => .obj (settledMembers o)
  | .null => .null
  | .bool b => .bool b
  | .int n => .int n
  | .str s => .str s

def settledItems : List Json → List Json
  | [] => []
  | j :: items => settled j :: settledItems items

def settledMembers : Members → Members
  | [] => []
  | (k, j) :: o => (k, settled j) :: settledMembers o

end

section Values

variable {order : List (String × Shared) → List (String × Shared)} {prose : String → Bool}
  {path : String} {items : List Json} {o : Members} {j : Json}

theorem inputItems_eq : inputItems order prose path items = items.map (input order prose path) := by
  induction items with
  | nil => rfl
  | cons j items ih => rw [inputItems, ih, List.map_cons]

theorem inputMembers_eq : inputMembers order prose path o =
    o.map fun m => (m.1, input order prose (childPath path m.1) m.2) := by
  induction o with
  | nil => rfl
  | cons m o ih => rw [inputMembers, ih, List.map_cons]

theorem outItems_eq (items : List Shared) : outItems items = items.map outValue := by
  induction items with
  | nil => rfl
  | cons s items ih => rw [outItems, ih, List.map_cons]

theorem outEntries_eq (entries : List (String × Shared)) :
    outEntries entries = entries.map fun e => (e.1, outValue e.2) := by
  induction entries with
  | nil => rfl
  | cons e entries ih => rw [outEntries, ih, List.map_cons]

theorem settledItems_eq : settledItems items = items.map settled := by
  induction items with
  | nil => rfl
  | cons j items ih => rw [settledItems, ih, List.map_cons]

theorem settledMembers_eq : settledMembers o = o.map fun m => (m.1, settled m.2) := by
  induction o with
  | nil => rfl
  | cons m o ih => rw [settledMembers, ih, List.map_cons]

/-- Where there is no double, there is nothing to settle. -/
theorem settled_eq (h : All Portable j) : settled j = j := by
  induction h with
  | @intro j hself inside ih =>
    rcases j with _ | _ | _ | _ | _ | items | o
    case float => exact absurd hself id
    case arr =>
      rw [settled, settledItems_eq]
      exact congrArg Json.arr ((List.map_congr_left ih).trans (List.map_id' items))
    case obj =>
      rw [settled, settledMembers_eq]
      refine congrArg Json.obj (Eq.trans (List.map_congr_left fun m hm => ?_) (List.map_id' o))
      rw [ih m.2 (List.mem_map_of_mem hm)]
    all_goals rfl

theorem authored_eq (o : Members) : authored o = o.filter fun m => m.1 ∉ serverOwnedKeys := by
  simp only [authored, serverOwnedKeys, List.foldl_cons, List.foldl_nil, erase, List.filter_filter]
  refine List.filter_congr fun m _ => ?_
  rw [Bool.eq_iff_iff]
  simp only [Bool.and_eq_true, decide_eq_true_eq, List.mem_cons, List.not_mem_nil, or_false, not_or]
  tauto

/-- What is written of a config, in the order of keys, and what of it is authored. -/
theorem mem_authored_sorted {cfg : PackConfig} {m : String × Json}
    (h : m ∈ authored (sortKeys (sortedMembers cfg.toMembers))) :
    All Ordered m.2 ∧ All Portable m.2 := by
  rw [authored_eq, List.mem_filter, (perm_sortKeys _).mem_iff, sortedMembers_eq,
    List.mem_map] at h
  obtain ⟨⟨n, hn, rfl⟩, hkey⟩ := h
  have howner : n.1 ≠ "owner" := by
    intro he
    exact of_decide_eq_true hkey (he ▸ List.mem_cons_self)
  have hp := cfg.portable hn howner
  refine ⟨all_ordered_sorted (hp.imp fun j hj => ?_), hp.sorted (fun _ _ _ hj => hj)
    (fun _ _ => trivial) fun o ho => ?_⟩
  · rcases j with _ | _ | _ | _ | _ | _ | _
    case obj => exact hj
    all_goals trivial
  · have hkeys : ((sortKeys (o.map fun m => (m.1, m.2.sorted))).map Prod.fst).Perm
        (o.map Prod.fst) := by
      refine ((perm_sortKeys _).map _).trans (.of_eq ?_)
      rw [List.map_map]
      rfl
    exact hkeys.nodup_iff.2 ho

variable (horder : ∀ l, (order l).Perm l)

include horder

/-- The entries of a map are those of the object, in the order of keys again. -/
theorem collect_outEntries {f : String → String} {g : Json → Json} (ho : Increasing o)
    (hg : ∀ m ∈ o, ∀ path, outValue (input order prose path m.2) = g m.2) :
    collect (outEntries (order (o.map fun m => (m.1, input order prose (f m.1) m.2)))) =
      o.map fun m => (m.1, g m.2) := by
  have hinc : Increasing (o.map fun m => (m.1, g m.2)) := List.pairwise_map.2 ho
  refine collect_eq hinc ?_
  rw [outEntries_eq]
  refine ((horder _).map _).trans (.of_eq ?_)
  rw [List.map_map]
  exact List.map_congr_left fun m hm => by rw [Function.comp_apply, hg m hm]

/-- What comes out of a document of a value that was put into it. -/
theorem outValue_input (h : All Ordered j) (hx : All Exact j) (path : String) :
    outValue (input order prose path j) = settled j := by
  induction h generalizing path with
  | @intro j hself inside ih =>
    rcases j with _ | _ | n | bits | s | items | o
    case int =>
      rw [input, outValue, anyValue, numberValue, Double.whole_ofInt hx.self]
      rfl
    case float =>
      rw [input, outValue, anyValue, numberValue, settled]
      rcases Double.whole bits with _ | n
      · exact if_pos hx.self
      · rfl
    case str =>
      rw [input]
      split_ifs <;> rfl
    case arr =>
      rw [input, outValue, settled, inputItems_eq, outItems_eq, settledItems_eq, List.map_map]
      exact congrArg Json.arr (List.map_congr_left fun c hc => ih c hc (hx.item c hc) path)
    case obj =>
      rw [input, outValue, settled, inputMembers_eq, settledMembers_eq]
      refine congrArg Json.obj (collect_outEntries horder hself fun m hm path => ?_)
      exact ih m.2 (List.mem_map_of_mem hm) (hx.member m hm) path
    all_goals rfl

/-- Numbers that are integers come out as they went in. -/
theorem outValue_input_portable (h : All Ordered j) (hp : All Portable j) (path : String) :
    outValue (input order prose path j) = j := by
  have hx : All Exact j := hp.imp fun j hj => by
    rcases j with _ | _ | _ | _ | _ | _ | _
    case int => exact hj
    case float => exact absurd hj id
    all_goals trivial
  rw [outValue_input horder h hx, settled_eq hp]

/-! ## Configs -/

/-- A document that is seeded from a config holds what is written of it, in the order of keys. -/
theorem content_seed (cfg : PackConfig) : content (seed order prose cfg) =
    authored (sortKeys (sortedMembers cfg.toMembers)) := by
  have hinc : Increasing (authored (sortKeys (sortedMembers cfg.toMembers))) := by
    rw [authored_eq]
    refine List.Pairwise.filter _ (increasing_sortKeys ?_)
    rw [sortedMembers_eq, List.map_map]
    exact (keys_members cfg.fields).nodup (by simp [PackConfig.fields])
  refine (@collect_outEntries order prose _ horder id id hinc fun m hm path => ?_).trans
    (List.map_id' _)
  obtain ⟨ho, hp⟩ := mem_authored_sorted hm
  exact outValue_input_portable horder ho hp path

/-- A config is read back, but for what is the server's. -/
theorem toConfig_seed (operatorUid : Int64) (cfg base : PackConfig) :
    toConfig operatorUid (content (seed order prose cfg)) base =
      some (cfg.withServerOwned base.serverOwned) := by
  have hreads : PackConfig.AuthoredReads (content (seed order prose cfg)) cfg := by
    have hcfg : PackConfig.ofMembers 0 cfg.toMembers = some cfg :=
      PackConfig.ofMembers_toMembers cfg
    have h : PackConfig.AuthoredReads cfg.toMembers cfg := (PackConfig.ofMembers_eq_some.1 hcfg).1
    refine h.of_sorted fun k hk => ?_
    rw [content_seed horder, lookup_authored_of_not_mem hk, sortedMembers_eq, lookup_sorted]
  have hfork : forkOfOver (content (seed order prose cfg)) base = some base.forkOf := by
    rw [forkOfOver, forkOf, content_seed horder, lookup_authored_of_mem (by decide)]
    rcases base.forkOf with _ | f <;> rfl
  rw [toConfig_of_reads hreads, hfork]
  rfl

end Values

/-- Documents are faithful: a config that was put into one is read out of it, with the server's
    fields of another one; and so is any JSON value, whatever of it is prose. A double that counts
    by ones is read as the integer that it is. -/
theorem document_faithful {order : List (String × Shared) → List (String × Shared)}
    (horder : ∀ l, (order l).Perm l) (prose : String → Bool) :
    (∀ (operatorUid : Int64) (cfg base : PackConfig),
      toConfig operatorUid (content (seed order prose cfg)) base =
        some (cfg.withServerOwned base.serverOwned)) ∧
    (∀ path j, All Ordered j → All Portable j → outValue (input order prose path j) = j) ∧
    (∀ path j, All Ordered j → All Exact j → outValue (input order prose path j) = settled j) :=
  ⟨toConfig_seed horder, fun path _ h hp => outValue_input_portable horder h hp path,
    fun path _ h hx => outValue_input horder h hx path⟩

/-- Maps that hold their entries backwards. -/
theorem document_faithful_reverse :
    toConfig 0 (content (seed List.reverse isProse (.empty "Industrial")))
        { PackConfig.empty "Create" with owner := 42, visibility := .draft } =
      some { PackConfig.empty "Industrial" with owner := 42, visibility := .draft } ∧
    outValue (input List.reverse isProse "pack_meta" (.obj [("description_md", .str "A pack."),
      ("size", .int 9007199254740992)])) = .obj [("description_md", .str "A pack."),
      ("size", .int 9007199254740992)] := by
  obtain ⟨hconfig, hvalue, -⟩ := document_faithful List.reverse_perm isProse
  refine ⟨hconfig 0 _ _, hvalue _ _ ⟨?_, ?_⟩ ⟨?_, ?_⟩⟩
  · rw [Ordered, Increasing]
    decide +kernel
  · exact List.forall_mem_cons.2 ⟨.leaf trivial rfl, List.forall_mem_singleton.2
      (.leaf trivial rfl)⟩
  · rw [Portable]
    decide +kernel
  · exact List.forall_mem_cons.2 ⟨portable_str _, List.forall_mem_singleton.2
      (.leaf (by rw [Portable]; decide) rfl)⟩

end Smrt.PackDoc
