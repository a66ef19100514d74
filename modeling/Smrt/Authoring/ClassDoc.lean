import Mathlib.Algebra.BigOperators.Group.List.Basic
import Smrt.Authoring.ClassFile

/-!
# Classes as they are written

A class is a pool of constants, of which some take two slots (`Const.width`), a header, fields and
methods with attributes of their own, and attributes of the class (`ClassDoc`). Where these are
annotations, the attribute is as many as it says, or it is torn: after some of them there is
something that is not one (`ClassAttribute`).

The numbers in a class are as large as their bytes can tell; what is counted is not more than that.
-/

namespace Smrt

namespace ClassDoc

open Bootstrap (Bytes)
open ClassFile (Cp ElemValue)

def be2 (n : UInt16) : Bytes := beBytes 2 n.toNat

def be4 (n : UInt32) : Bytes := beBytes 4 n.toNat

/-! ## The pool -/

/-- A constant, with its text if it is one. -/
inductive Const (τ : Type)
  | utf8 (text : τ)
  | integer (n : UInt32)
  | float (n : UInt32)
  | long (hi lo : UInt32)
  | double (hi lo : UInt32)
  | cls (name : UInt16)
  | string (text : UInt16)
  | fieldRef (owner nameAndType : UInt16)
  | methodRef (owner nameAndType : UInt16)
  | interfaceMethodRef (owner nameAndType : UInt16)
  | nameAndType (name desc : UInt16)
  | methodHandle (kind : UInt8) (ref : UInt16)
  | methodType (desc : UInt16)
  | dynamic (bootstrap nameAndType : UInt16)
  | invokeDynamic (bootstrap nameAndType : UInt16)
  | moduleInfo (name : UInt16)
  | packageInfo (name : UInt16)

/-- How many slots a constant takes. -/
def Const.width {τ : Type} : Const τ → ℕ
  | .long _ _ | .double _ _ => 2
  | _ => 1

/-- The slots of a constant, of which it is in the first. -/
def Const.slots {τ : Type} (k : Const τ) : List (Option (Const τ)) :=
  some k :: List.replicate (k.width - 1) none

/-- The bytes of a text can be counted. -/
def Const.Fits : Const Bytes → Prop
  | .utf8 raw => raw.length < 2 ^ 16
  | _ => True

def Const.write : Const Bytes → Bytes
  | .utf8 raw => 1 :: (beBytes 2 raw.length ++ raw)
  | .integer n => 3 :: be4 n
  | .float n => 4 :: be4 n
  | .long hi lo => 5 :: (be4 hi ++ be4 lo)
  | .double hi lo => 6 :: (be4 hi ++ be4 lo)
  | .cls name => 7 :: be2 name
  | .string text => 8 :: be2 text
  | .fieldRef owner nt => 9 :: (be2 owner ++ be2 nt)
  | .methodRef owner nt => 10 :: (be2 owner ++ be2 nt)
  | .interfaceMethodRef owner nt => 11 :: (be2 owner ++ be2 nt)
  | .nameAndType name desc => 12 :: (be2 name ++ be2 desc)
  | .methodHandle kind ref => 15 :: kind :: be2 ref
  | .methodType desc => 16 :: be2 desc
  | .dynamic bootstrap nt => 17 :: (be2 bootstrap ++ be2 nt)
  | .invokeDynamic bootstrap nt => 18 :: (be2 bootstrap ++ be2 nt)
  | .moduleInfo name => 19 :: be2 name
  | .packageInfo name => 20 :: be2 name

/-- What the parser keeps of a slot. -/
def keep : Option (Const Bytes) → Cp
  | none => .skip
  | some (.utf8 raw) => .utf8 (fromUtf8Lossy raw)
  | some (.integer n) => .integer (Int.bmod n.toNat (2 ^ 32))
  | some (.cls name) => .cls name.toNat
  | some (.fieldRef owner nt) | some (.methodRef owner nt) | some (.interfaceMethodRef owner nt) =>
    .ref owner.toNat nt.toNat
  | some (.nameAndType name desc) => .nameAndType name.toNat desc.toNat
  | some _ => .other

section Pool

variable {τ : Type} (pool : List (Const τ))

def width : ℕ := (pool.map Const.width).sum

/-- The slots of a pool, of which the first one is not used. -/
def slots : List (Option (Const τ)) := none :: pool.flatMap Const.slots

/-- The text in a slot. -/
def textAt (i : UInt16) : Option τ :=
  match (slots pool)[i.toNat]? with
  | some (some (.utf8 text)) => some text
  | _ => none

/-- The name of the class in a slot. -/
def classAt (i : UInt16) : Option τ :=
  match (slots pool)[i.toNat]? with
  | some (some (.cls name)) => textAt pool name
  | _ => none

end Pool

/-! ## Annotations -/

/-- The value of an element of an annotation. -/
inductive Value
  | const (tag : UInt8) (index : UInt16)
  | enum (type name : UInt16)
  | cls (desc : UInt16)
  | nested (type : UInt16) (pairs : List (UInt16 × Value))
  | array (items : List Value)

/-- A value whose parts can be counted. -/
inductive Value.Fits : Value → Prop
  | const {tag : UInt8} (known : tag ∈ ClassFile.primTags) (index : UInt16) :
      Fits (.const tag index)
  | enum (type name : UInt16) : Fits (.enum type name)
  | cls (desc : UInt16) : Fits (.cls desc)
  | nested (type : UInt16) {pairs : List (UInt16 × Value)} (few : pairs.length < 2 ^ 16)
      (values : ∀ p ∈ pairs, Fits p.2) : Fits (.nested type pairs)
  | array {items : List Value} (few : items.length < 2 ^ 16) (values : ∀ v ∈ items, Fits v) :
      Fits (.array items)

mutual

def Value.write : Value → Bytes
  | .const tag index => tag :: be2 index
  | .enum type name => 'e'.toUInt8 :: (be2 type ++ be2 name)
  | .cls desc => 'c'.toUInt8 :: be2 desc
  | .nested type pairs =>
    '@'.toUInt8 :: (be2 type ++ (beBytes 2 pairs.length ++ writePairs pairs))
  | .array items => '['.toUInt8 :: (beBytes 2 items.length ++ writeItems items)

def writePairs : List (UInt16 × Value) → Bytes
  | [] => []
  | (name, value) :: pairs => be2 name ++ value.write ++ writePairs pairs

def writeItems : List Value → Bytes
  | [] => []
  | value :: items => value.write ++ writeItems items

end

mutual

/-- What the parser keeps of a value. -/
def Value.read : Value → Option ElemValue
  | .const tag index => some (.prim tag index.toNat)
  | .enum _ name => some (.enum name.toNat)
  | .cls desc => some (.cls desc.toNat)
  | .nested _ _ => none
  | .array items => some (.array (readItems items))

def readItems : List Value → List (Option ElemValue)
  | [] => []
  | value :: items => value.read :: readItems items

end

/-- An annotation of a class, whose values have names. -/
structure Annotation where
  type : UInt16
  pairs : List (UInt16 × Value)
  few : pairs.length < 2 ^ 16
  fits : ∀ p ∈ pairs, p.2.Fits

namespace Annotation

variable (a : Annotation)

def write : Bytes := be2 a.type ++ (beBytes 2 a.pairs.length ++ writePairs a.pairs)

def read : ClassFile.Annotation :=
  (a.type.toNat, a.pairs.map fun p => (p.1.toNat, p.2.read))

end Annotation

/-! ## Attributes and members -/

structure Attribute where
  name : UInt16
  body : Bytes
  few : body.length < 2 ^ 32

def Attribute.write (a : Attribute) : Bytes :=
  be2 a.name ++ (beBytes 4 a.body.length ++ a.body)

/-- A field or a method. -/
structure Member where
  access : UInt16
  name : UInt16
  desc : UInt16
  attributes : List Attribute
  few : attributes.length < 2 ^ 16

def Member.write (m : Member) : Bytes :=
  be2 m.access ++ (be2 m.name ++ (be2 m.desc ++
    (beBytes 2 m.attributes.length ++ m.attributes.flatMap Attribute.write)))

/-- The bytes do not begin with an annotation. -/
def Malformed (tail : Bytes) : Prop := ∀ (a : Annotation) (rest : Bytes), tail ≠ a.write ++ rest

/-- Annotations, as many as are counted, or fewer before what is not one. -/
structure Annotations where
  num : ℕ
  list : List Annotation
  tail : Bytes
  few : num < 2 ^ 16
  whole : list.length = num ∨ list.length < num ∧ Malformed tail

def Annotations.write (s : Annotations) : Bytes :=
  beBytes 2 s.num ++ (s.list.flatMap Annotation.write ++ s.tail)

/-- Only those that are annotations. -/
def Annotations.cut (s : Annotations) : Annotations where
  num := s.list.length
  list := s.list
  tail := []
  few := by
    have := s.few
    obtain h | ⟨h, -⟩ := s.whole <;> omega
  whole := .inl rfl

/-- An attribute of a class. -/
inductive ClassAttribute
  | other (a : Attribute)
  | annotations (name : UInt16) (s : Annotations) (few : s.write.length < 2 ^ 32)

def ClassAttribute.write : ClassAttribute → Bytes
  | .other a => a.write
  | .annotations name s _ => be2 name ++ (beBytes 4 s.write.length ++ s.write)

theorem Annotations.length_write_cut (s : Annotations) : s.cut.write.length ≤ s.write.length := by
  rw [write, write, List.length_append, List.length_append, List.length_append, List.length_append,
    length_beBytes, length_beBytes]
  exact Nat.add_le_add_left (Nat.add_le_add_left (Nat.zero_le _) _) _

/-- Without what is not an annotation. -/
def ClassAttribute.cut : ClassAttribute → ClassAttribute
  | .other a => .other a
  | .annotations name s few => .annotations name s.cut (s.length_write_cut.trans_lt few)

/-- The text in a slot says that an attribute is of annotations. -/
def NamesAnnotations (pool : List (Const Bytes)) (name : UInt16) : Prop :=
  ∃ s ∈ ClassFile.annotationAttributes, textAt pool name = some (ClassFile.utf8Bytes s)

/-- An attribute has annotations if its name says so. -/
def ClassAttribute.Named (pool : List (Const Bytes)) : ClassAttribute → Prop
  | .other a => ¬ NamesAnnotations pool a.name
  | .annotations name _ _ => NamesAnnotations pool name

end ClassDoc

open Bootstrap (Bytes)
open ClassDoc

/-- A class. -/
structure ClassDoc where
  minor : UInt16
  major : UInt16
  pool : List (Const Bytes)
  access : UInt16
  thisClass : UInt16
  superClass : UInt16
  interfaces : List UInt16
  fields : List Member
  methods : List Member
  attributes : List ClassAttribute
  texts_fit : ∀ k ∈ pool, k.Fits
  pool_few : 1 + ClassDoc.width pool < 2 ^ 16
  interfaces_few : interfaces.length < 2 ^ 16
  fields_few : fields.length < 2 ^ 16
  methods_few : methods.length < 2 ^ 16
  attributes_few : attributes.length < 2 ^ 16
  attributes_named : ∀ a ∈ attributes, a.Named pool
  hasName : (classAt pool thisClass).isSome

namespace ClassDoc

variable (c : ClassDoc)

def writeHeader : Bytes :=
  be2 c.access ++ (be2 c.thisClass ++ (be2 c.superClass ++
    (beBytes 2 c.interfaces.length ++ c.interfaces.flatMap be2)))

def writeMembers (members : List Member) : Bytes :=
  beBytes 2 members.length ++ members.flatMap Member.write

def writeBody : Bytes :=
  c.writeHeader ++ (writeMembers c.fields ++ (writeMembers c.methods ++
    (beBytes 2 c.attributes.length ++ c.attributes.flatMap ClassAttribute.write)))

def writePool : Bytes := beBytes 2 (1 + width c.pool) ++ c.pool.flatMap Const.write

def write : Bytes :=
  beBytes 4 ClassFile.magic ++ (be2 c.minor ++ (be2 c.major ++ (c.writePool ++ c.writeBody)))

/-- The class of which only the annotations that are such are left. -/
def cut : ClassDoc :=
  { c with
    attributes := c.attributes.map ClassAttribute.cut
    attributes_few := by
      rw [List.length_map]
      exact c.attributes_few
    attributes_named := by
      intro _ h
      obtain ⟨a, ha, rfl⟩ := List.mem_map.1 h
      have hnamed := c.attributes_named a ha
      rcases a with a | ⟨name, s, few⟩ <;> exact hnamed }

end ClassDoc

end Smrt
