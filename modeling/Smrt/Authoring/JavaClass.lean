import Smrt.Authoring.ClassDoc
import Smrt.Lib.ModifiedUtf8

/-!
# What a class says

A class with the texts that are in its pool (`JavaClass`), and what it says, by itself: its name,
the classes it extends, the types that it names, in the pool or in descriptors
(`JavaClass.Refers`), and what its annotations state of a mod, of a side, and of the classes that a
mixin patches.

An element of an annotation counts under its name. Of an element that is given twice the last one
counts, and so does the last annotation of a mod in an attribute.
-/

namespace Smrt

open ClassDoc
open Bootstrap (Bytes)

deriving instance DecidableEq for Letter

/-! ## Names and descriptors -/

/-- The name of a class, without a character that ends one. -/
structure ClassName where
  text : Text
  ne_nil : text ≠ []
  clean : ∀ c ∈ ['.', ';', '['], Letter.char c ∉ text

def primitives : List Char := ['B', 'C', 'D', 'F', 'I', 'J', 'S', 'Z']

inductive FieldType
  | base (letter : Char) (known : letter ∈ primitives)
  | object (name : ClassName)
  | array (item : FieldType)

namespace FieldType

def print : FieldType → Text
  | base letter _ => [.char letter]
  | object name => .char 'L' :: (name.text ++ [.char ';'])
  | array item => .char '[' :: item.print

/-- The objects in a type. -/
def objects : FieldType → List Text
  | base _ _ => []
  | object name => [name.text]
  | array item => item.objects

end FieldType

/-- The type of a field, or those of the parameters and the result of a method. -/
inductive Descriptor
  | field (type : FieldType)
  | method (params : List FieldType) (result : Option FieldType)

namespace Descriptor

def print : Descriptor → Text
  | field type => type.print
  | method params result =>
    .char '(' :: (params.flatMap FieldType.print ++
      .char ')' :: (result.map FieldType.print).getD [.char 'V'])

def objects : Descriptor → List Text
  | field type => type.objects
  | method params result =>
    params.flatMap FieldType.objects ++ result.toList.flatMap FieldType.objects

end Descriptor

/-- What a constant names as a class: one by its name, or an array. -/
inductive ClassRef
  | name (name : ClassName)
  | array (item : FieldType)

namespace ClassRef

def print : ClassRef → Text
  | name n => n.text
  | array item => .char '[' :: item.print

def objects : ClassRef → List Text
  | name n => [n.text]
  | array item => item.objects

end ClassRef

/-! ## Annotations -/

namespace ClassDoc

def Const.map {α β : Type} (f : α → β) : Const α → Const β
  | .utf8 text => .utf8 (f text)
  | .integer n => .integer n
  | .float n => .float n
  | .long hi lo => .long hi lo
  | .double hi lo => .double hi lo
  | .cls name => .cls name
  | .string text => .string text
  | .fieldRef owner nt => .fieldRef owner nt
  | .methodRef owner nt => .methodRef owner nt
  | .interfaceMethodRef owner nt => .interfaceMethodRef owner nt
  | .nameAndType name desc => .nameAndType name desc
  | .methodHandle kind ref => .methodHandle kind ref
  | .methodType desc => .methodType desc
  | .dynamic bootstrap nt => .dynamic bootstrap nt
  | .invokeDynamic bootstrap nt => .invokeDynamic bootstrap nt
  | .moduleInfo name => .moduleInfo name
  | .packageInfo name => .packageInfo name

mutual

/-- The class constants in a value, or in what it is an array of. -/
def Value.classes : Value → List UInt16
  | .cls desc => [desc]
  | .array items => classesOf items
  | _ => []

def classesOf : List Value → List UInt16
  | [] => []
  | value :: items => value.classes ++ classesOf items

end

mutual

/-- The strings in a value, or in what it is an array of. -/
def Value.strings : Value → List UInt16
  | .const tag index => if tag = 's'.toUInt8 then [index] else []
  | .array items => stringsOf items
  | _ => []

def stringsOf : List Value → List UInt16
  | [] => []
  | value :: items => value.strings ++ stringsOf items

end

/-- The constant of a value of this kind. -/
def Value.constant (kind : UInt8) : Value → Option UInt16
  | .const tag index => if tag = kind then some index else none
  | _ => none

def Value.enumName : Value → Option UInt16
  | .enum _ name => some name
  | _ => none

end ClassDoc

/-- The name in the descriptor of an object. -/
def objectName : Text → Option Text
  | .char 'L' :: l =>
    if l.getLast? = some (.char ';') ∧ l.dropLast ≠ [] then some l.dropLast else none
  | _ => none

def sideNamed (t : Text) : Option ClassFile.Dist :=
  if t = .ofString "CLIENT" then some .client
  else if t = .ofString "SERVER" ∨ t = .ofString "DEDICATED_SERVER" then some .server
  else none

section Stated

variable (texts : List (Const Text))

/-- A text is one of these. -/
def isOneOf (names : List String) (i : UInt16) : Bool :=
  (textAt texts i).any fun t => t ∈ names.map Text.ofString

/-- A flag is set. -/
def flagAt (i : UInt16) : Bool :=
  match (slots texts)[i.toNat]? with
  | some (some (.integer n)) => n ≠ 0
  | _ => false

variable (a : Annotation)

/-- What the element of a name is, of those of this kind. -/
def element (name : String) (kind : Value → Option UInt16) : Option UInt16 :=
  (a.pairs.filterMap fun p =>
    if textAt texts p.1 = some (.ofString name) then kind p.2 else none).getLast?

/-- The id of a mod that an annotation states, if it is not empty. -/
def statedId : Option Text :=
  ((element texts a "modid" (Value.constant 's'.toUInt8)).bind (textAt texts)).filter fun t =>
    t ≠ []

/-- Whether a mod is for clients only, and for servers only. -/
def statedSides : Bool × Bool :=
  ((element texts a "clientSideOnly" (Value.constant 'Z'.toUInt8)).any (flagAt texts),
    (element texts a "serverSideOnly" (Value.constant 'Z'.toUInt8)).any (flagAt texts))

/-- The side that an annotation names as its value. -/
def statedSide : Option ClassFile.Dist :=
  ((element texts a "value" Value.enumName).bind (textAt texts)).bind sideNamed

/-- The side that the last enumerator in an annotation names, whichever element has it. -/
def anySide : Option ClassFile.Dist :=
  (((a.pairs.filterMap fun p => p.2.enumName).getLast?).bind (textAt texts)).bind sideNamed

/-- The classes that a mixin patches, as classes or by their names in the source. -/
def statedTargets : List Text :=
  a.pairs.flatMap fun p =>
    if textAt texts p.1 = some (.ofString "value") then
      p.2.classes.filterMap fun i => (textAt texts i).bind objectName
    else if textAt texts p.1 = some (.ofString "targets") then
      ((p.2.strings.filterMap (textAt texts)).filter fun t => t ≠ []).map fun t =>
        t.map fun x => if x = .char '.' then .char '/' else x
    else []

end Stated

/-! ## Classes -/

/-- The annotations of an attribute, if it is one of them. -/
def ClassDoc.ClassAttribute.list : ClassAttribute → List Annotation
  | .other _ => []
  | .annotations _ s _ => s.list

/-- There is nothing in an attribute of annotations but these. -/
def ClassDoc.ClassAttribute.Whole : ClassAttribute → Prop
  | .other _ => True
  | .annotations _ s _ => s.list.length = s.num ∧ s.tail = []

/-- A class with its texts. -/
structure JavaClass where
  doc : ClassDoc
  texts : List (Const Text)
  pool_eq : doc.pool = texts.map (Const.map Text.write)
  classes : ∀ i, .cls i ∈ texts → ∃ r : ClassRef, textAt texts i = some r.print
  signatures : ∀ i j, .nameAndType i j ∈ texts → ∃ d : Descriptor, textAt texts j = some d.print
  members : ∀ m ∈ doc.fields ++ doc.methods, ∃ d : Descriptor, textAt texts m.desc = some d.print
  whole : ∀ a ∈ doc.attributes, a.Whole

namespace JavaClass

variable (c : JavaClass)

def name : Option Text := classAt c.texts c.doc.thisClass

/-- The class that is extended, if it is not that of all objects. -/
def superName : Option Text :=
  (classAt c.texts c.doc.superClass).filter fun t => t ≠ .ofString "java/lang/Object"

def interfaces : List Text := c.doc.interfaces.filterMap (classAt c.texts)

/-- A constant names a type. -/
def NamedByClass (x : Text) : Prop :=
  ∃ (i : UInt16) (r : ClassRef), .cls i ∈ c.texts ∧ textAt c.texts i = some r.print ∧ x ∈ r.objects

/-- The descriptor of a field, of a method or of a reference to one names a type. -/
def NamedByDescriptor (x : Text) : Prop :=
  ∃ (i : UInt16) (d : Descriptor),
    ((∃ name, .nameAndType name i ∈ c.texts) ∨ ∃ m ∈ c.doc.fields ++ c.doc.methods, m.desc = i) ∧
    textAt c.texts i = some d.print ∧ x ∈ d.objects

/-- A class refers to a type other than itself. -/
def Refers (x : Text) : Prop :=
  (c.NamedByClass x ∨ c.NamedByDescriptor x) ∧ c.name ≠ some x

/-- The annotations of the class, attribute by attribute. -/
def annotations : List (List Annotation) := c.doc.attributes.map ClassAttribute.list

/-- What the annotations of a mod are, of a side, and of a mixin. -/
def isMod (a : Annotation) : Bool := isOneOf c.texts ClassFile.modDescriptors a.type

def isDist (a : Annotation) : Bool := isOneOf c.texts ClassFile.distDescriptors a.type

def isMixin (a : Annotation) : Bool := isOneOf c.texts [ClassFile.mixinDescriptor] a.type

def modAnnotation (l : List Annotation) : Option Annotation := (l.filter c.isMod).getLast?

def modId : Option Text :=
  c.annotations.findSome? fun l => (c.modAnnotation l).bind (statedId c.texts)

def modSides : Option (Bool × Bool) :=
  (c.modAnnotation c.annotations.flatten).map (statedSides c.texts)

def dist : Option ClassFile.Dist :=
  (c.annotations.flatten.filter c.isDist).findSome? (statedSide c.texts)

def mixinTargets : List Text :=
  (c.annotations.flatten.filter c.isMixin).flatMap (statedTargets c.texts)

end JavaClass

end Smrt
