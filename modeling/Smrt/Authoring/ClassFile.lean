import Mathlib.Data.Finset.Insert
import Smrt.Authoring.Bootstrap
import Smrt.Lib.ByteReader
import Smrt.Lib.Lossy

/-!
# Classes

What a class of a jar refers to and what its annotations say is read out of its bytes
(`parseClass`). These are anybody's: what is not a class is none, and no bytes are to make a fault
(`Fault`).

The reader goes over the pool of constants (`readPool`), over the fields and methods, of which the
descriptors matter, and over the attributes of the class, of which the annotations do.
-/

namespace Smrt

namespace ClassFile

open Bootstrap (Bytes)
open ByteReader

/-! ## Names that matter -/

def modDescriptors : List String :=
  ["Lnet/minecraftforge/fml/common/Mod;", "Lcpw/mods/fml/common/Mod;",
    "Lnet/neoforged/fml/common/Mod;"]

def mixinDescriptor : String := "Lorg/spongepowered/asm/mixin/Mixin;"

def distDescriptors : List String :=
  ["Lcpw/mods/fml/relauncher/SideOnly;", "Lnet/minecraftforge/fml/relauncher/SideOnly;",
    "Lnet/minecraftforge/api/distmarker/OnlyIn;", "Lnet/fabricmc/api/Environment;"]

def sidedProxyDescriptors : List String :=
  ["Lnet/minecraftforge/fml/common/SidedProxy;", "Lcpw/mods/fml/common/SidedProxy;"]

/-- What a coremod implements. -/
def loadingPluginInterfaces : List String :=
  ["net/minecraftforge/fml/relauncher/IFMLLoadingPlugin",
    "cpw/mods/fml/relauncher/IFMLLoadingPlugin"]

/-- What marks a class that is loaded on a condition only. -/
def optionalMarkers : List String :=
  ["Lnet/minecraftforge/fml/common/Optional$Interface;",
    "Lnet/minecraftforge/fml/common/Optional$Method;",
    "Lnet/minecraftforge/fml/common/Optional$InterfaceList;",
    "Lcpw/mods/fml/common/Optional$Interface;", "Lcpw/mods/fml/common/Optional$Method;",
    "Lcpw/mods/fml/common/Optional$InterfaceList;", "Lmezz/jei/api/JEIPlugin;",
    "Lmezz/jei/api/JeiPlugin;", "Lmcp/mobius/waila/api/WailaPlugin;",
    "Lsnownee/jade/api/WailaPlugin;", "Lcrafttweaker/annotations/ZenRegister;"]

/-- Calls that ask whether a mod is there. -/
def modLoadedGuards : List (String × String) :=
  [("cpw/mods/fml/common/Loader", "isModLoaded"),
    ("net/minecraftforge/fml/common/Loader", "isModLoaded"),
    ("net/minecraftforge/fml/ModList", "isLoaded"), ("net/neoforged/fml/ModList", "isLoaded"),
    ("net/fabricmc/loader/api/FabricLoader", "isModLoaded"),
    ("org/quiltmc/loader/api/QuiltLoader", "isModLoaded")]

/-! ## What is read -/

/-- What a program must not do: to add past the end of a number's type, to take what is not there or
    a part of a character, not to end. -/
inductive Fault
  | overflow
  | outOfRange
  | boundary
  | endless
  deriving DecidableEq

abbrev Reader (α : Type) := ByteReader Fault α

/-- The side a class is for. -/
inductive Dist
  | client
  | server
  deriving DecidableEq

structure ClassInfo where
  thisClass : String
  superName : Option String
  interfaces : List String
  referenced : Finset String
  conditional : Bool
  /-- For clients only, and for servers only. -/
  modSides : Option (Bool × Bool)
  modId : Option String
  acceptableRemoteVersions : Option String
  dist : Option Dist
  sidedProxy : Bool
  loadingPlugin : Bool
  mixinTargets : List String

/-! ## The pool of constants -/

/-- A constant, as far as it matters; a long one leaves the slot after it empty. -/
inductive Cp
  | utf8 (s : String)
  | cls (nameIndex : ℕ)
  | nameAndType (nameIndex descIndex : ℕ)
  | ref (classIndex ntIndex : ℕ)
  | integer (n : ℤ)
  | other
  | skip

def utf8 (cp : List Cp) (i : ℕ) : Option String :=
  match cp[i]? with
  | some (.utf8 s) => some s
  | _ => none

def className (cp : List Cp) (i : ℕ) : Option String :=
  match cp[i]? with
  | some (.cls nameIndex) => utf8 cp nameIndex
  | _ => none

def ntName (cp : List Cp) (i : ℕ) : Option String :=
  match cp[i]? with
  | some (.nameAndType nameIndex _) => utf8 cp nameIndex
  | _ => none

def integer (cp : List Cp) (i : ℕ) : Option ℤ :=
  match cp[i]? with
  | some (.integer n) => some n
  | _ => none

/-- A constant, and how many slots it takes. -/
def readEntry : Reader (List Cp × ℕ) := do
  let tag ← u1
  if tag = 1 then
    let len ← u2
    let raw ← bytes len
    pure ([.utf8 (fromUtf8Lossy raw)], 1)
  else if tag = 7 then
    let nameIndex ← u2
    pure ([.cls nameIndex], 1)
  else if tag = 9 ∨ tag = 10 ∨ tag = 11 then
    let classIndex ← u2
    let ntIndex ← u2
    pure ([.ref classIndex ntIndex], 1)
  else if tag = 12 then
    let nameIndex ← u2
    let descIndex ← u2
    pure ([.nameAndType nameIndex descIndex], 1)
  else if tag = 3 then
    let n ← u4
    pure ([.integer (Int.bmod n (2 ^ 32))], 1)
  else if tag = 5 ∨ tag = 6 then
    let _ ← u4
    let _ ← u4
    pure ([.other, .skip], 2)
  else if tag = 4 then
    let _ ← u4
    pure ([.other], 1)
  else if tag = 15 then
    let _ ← u1
    let _ ← u2
    pure ([.other], 1)
  else if tag = 8 ∨ tag = 16 ∨ tag = 19 ∨ tag = 20 then
    let _ ← u2
    pure ([.other], 1)
  else if tag = 17 ∨ tag = 18 then
    let _ ← u2
    let _ ← u2
    pure ([.other], 1)
  else fail

/-- The sum, in 16 bits. -/
def advance (idx n : ℕ) : Reader ℕ := if idx + n < 2 ^ 16 then pure (idx + n) else fault .overflow

/-- The constants from a slot on. -/
def readPool : ℕ → ℕ → ℕ → List Cp → Reader (List Cp)
  | 0, count, idx, cp => if idx < count then fault .endless else pure cp
  | fuel + 1, count, idx, cp =>
    if idx < count then do
      let (entries, width) ← readEntry
      let idx ← advance idx width
      readPool fuel count idx (cp ++ entries)
    else pure cp

/-! ## Types -/

/-- The type a constant names, of which an array is one of its elements; a letter is not a name. -/
def pushType (out : Finset String) (raw : String) : Finset String :=
  let name := raw.toList.dropWhile fun c => c = '['
  let name := match name with
    | 'L' :: l => if l.getLast? = some ';' then l.dropLast else name
    | _ => name
  if 1 < (String.ofList name).utf8ByteSize then insert (String.ofList name) out else out

/-- What is left of a text after so many bytes, which have to end with a character. -/
def dropBytes : ℕ → List Char → Option (List Char)
  | 0, l => some l
  | _ + 1, [] => none
  | n + 1, c :: l => if c.utf8Size ≤ n + 1 then dropBytes (n + 1 - c.utf8Size) l else none

def takeBytes : ℕ → List Char → Option (List Char)
  | 0, _ => some []
  | _ + 1, [] => none
  | n + 1, c :: l =>
    if c.utf8Size ≤ n + 1 then (takeBytes (n + 1 - c.utf8Size) l).map (c :: ·) else none

/-- A part of a text, from one byte to another. -/
def slice (s : String) (start j : ℕ) : Except Fault String :=
  if s.utf8ByteSize < j ∨ j < start then .error .outOfRange
  else
    match (dropBytes start s.toList).bind (takeBytes (j - start)) with
    | some w => .ok (String.ofList w)
    | none => .error .boundary

def utf8Bytes (s : String) : Bytes := s.toList.flatMap String.utf8EncodeChar

/-- The types of objects in a descriptor, from a byte on: what is between an `L` and a `;`. -/
def extractFrom (desc : String) : ℕ → ℕ → Finset String → Except Fault (Finset String)
  | 0, i, out => if i < (utf8Bytes desc).length then .error .endless else .ok out
  | fuel + 1, i, out =>
    match (utf8Bytes desc)[i]? with
    | none => .ok out
    | some b =>
      if b = 'L'.toUInt8 then
        let start := i + 1
        let j := start + (((utf8Bytes desc).drop start).takeWhile fun b => b ≠ ';'.toUInt8).length
        if j < (utf8Bytes desc).length ∧ start < j then do
          let name ← slice desc start j
          extractFrom desc fuel (j + 1) (insert name out)
        else extractFrom desc fuel (j + 1) out
      else extractFrom desc fuel (i + 1) out

def extractObjectTypes (desc : String) (out : Finset String) : Except Fault (Finset String) :=
  extractFrom desc (utf8Bytes desc).length 0 out

/-- The types in the descriptor in a slot, if there is one. -/
def descTypes (cp : List Cp) (out : Finset String) (descIndex : ℕ) :
    Except Fault (Finset String) :=
  match utf8 cp descIndex with
  | some d => extractObjectTypes d out
  | none => .ok out

/-- With the types that a constant names. -/
def entryTypes (cp : List Cp) (out : Finset String) : Cp → Except Fault (Finset String)
  | .cls nameIndex => .ok (((utf8 cp nameIndex).map (pushType out)).getD out)
  | .nameAndType _ descIndex => descTypes cp out descIndex
  | _ => .ok out

def poolTypes (cp : List Cp) : Except Fault (Finset String) := cp.foldlM (entryTypes cp) ∅

/-! ## Annotations -/

/-- A value of an annotation, by what it refers to in the pool. -/
inductive ElemValue
  | prim (tag : UInt8) (constIndex : ℕ)
  | enum (constNameIndex : ℕ)
  | cls (classInfoIndex : ℕ)
  | array (items : List (Option ElemValue))

/-- An annotation: its type, and its values under their names; of some nothing is kept. -/
abbrev Annotation := ℕ × List (ℕ × Option ElemValue)

/-- An annotation, whose values are read so. -/
def readAnnotationWith (value : Reader (Option ElemValue)) : Reader Annotation := do
  let typeIndex ← u2
  let numPairs ← u2
  let pairs ← times numPairs (do
    let nameIndex ← u2
    let value ← value
    pure (nameIndex, value))
  pure (typeIndex, pairs)

/-- The letters of values that are constants. -/
def primTags : List UInt8 := "BCDFIJSZs".toList.map Char.toUInt8

def readElementValue : ℕ → Reader (Option ElemValue)
  | 0 => fault .endless
  | fuel + 1 => do
    let tag ← u1
    if tag ∈ primTags then
      let constIndex ← u2
      pure (some (.prim tag constIndex))
    else if tag = 'e'.toUInt8 then
      let _ ← u2
      let constNameIndex ← u2
      pure (some (.enum constNameIndex))
    else if tag = 'c'.toUInt8 then
      let classInfoIndex ← u2
      pure (some (.cls classInfoIndex))
    else if tag = '@'.toUInt8 then
      let _ ← readAnnotationWith (readElementValue fuel)
      pure none
    else if tag = '['.toUInt8 then
      let n ← u2
      let items ← times n (readElementValue fuel)
      pure (some (.array items))
    else fail

def readAnnotation (fuel : ℕ) : Reader Annotation := readAnnotationWith (readElementValue fuel)

mutual

/-- The classes in a value, or in what it is an array of. -/
def classIndices : ElemValue → List ℕ
  | .cls i => [i]
  | .array items => classIndicesOf items
  | _ => []

def classIndicesOf : List (Option ElemValue) → List ℕ
  | [] => []
  | some v :: items => classIndices v ++ classIndicesOf items
  | none :: items => classIndicesOf items

end

mutual

def stringIndices : ElemValue → List ℕ
  | .prim tag i => if tag = 's'.toUInt8 then [i] else []
  | .array items => stringIndicesOf items
  | _ => []

def stringIndicesOf : List (Option ElemValue) → List ℕ
  | [] => []
  | some v :: items => stringIndices v ++ stringIndicesOf items
  | none :: items => stringIndicesOf items

end

/-- The name in the descriptor of an object. -/
def descriptorBinaryName (desc : String) : Option String :=
  match desc.toList with
  | 'L' :: l =>
    if l.getLast? = some ';' ∧ l.dropLast ≠ [] then some (String.ofList l.dropLast) else none
  | _ => none

structure ModAnnotation where
  modid : Option String := none
  sides : Bool × Bool := (false, false)
  acceptableRemoteVersions : Option String := none

/-- What an attribute of annotations says. -/
structure Scanned where
  modAnnotation : Option ModAnnotation := none
  dist : Option Dist := none
  mixinTargets : List String := []

section Scanning

variable (cp : List Cp)

/-- A text that is not empty. -/
def nonEmpty (i : ℕ) : Option String := (utf8 cp i).filter fun s => s ≠ ""

def flag (i : ℕ) : Bool := (integer cp i).getD 0 ≠ 0

/-- What a value says of a mod, under its name. -/
def scanModValue (ann : ModAnnotation) (pair : ℕ × Option ElemValue) : ModAnnotation :=
  match utf8 cp pair.1, pair.2 with
  | some name, some (.prim tag i) =>
    if name = "modid" ∧ tag = 's'.toUInt8 then { ann with modid := nonEmpty cp i }
    else if name = "clientSideOnly" ∧ tag = 'Z'.toUInt8 then
      { ann with sides := (flag cp i, ann.sides.2) }
    else if name = "serverSideOnly" ∧ tag = 'Z'.toUInt8 then
      { ann with sides := (ann.sides.1, flag cp i) }
    else if name = "acceptableRemoteVersions" ∧ tag = 's'.toUInt8 then
      { ann with acceptableRemoteVersions := nonEmpty cp i }
    else ann
  | _, _ => ann

/-- The classes a value of a mixin names that it patches. -/
def scanMixinValue (pair : ℕ × Option ElemValue) : List String :=
  match utf8 cp pair.1, pair.2 with
  | some name, some v =>
    if name = "value" then
      (classIndices v).filterMap fun i => (utf8 cp i).bind descriptorBinaryName
    else if name = "targets" then
      ((stringIndices v).filterMap (nonEmpty cp)).map fun s =>
        String.ofList (s.toList.map fun c => if c = '.' then '/' else c)
    else []
  | _, _ => []

/-- The side a value names. -/
def scanDistValue (dist : Option Dist) (pair : ℕ × Option ElemValue) : Option Dist :=
  match pair.2 with
  | some (.enum i) =>
    match utf8 cp i with
    | some name =>
      if name = "CLIENT" then some .client
      else if name = "SERVER" ∨ name = "DEDICATED_SERVER" then some .server
      else none
    | none => none
  | _ => dist

def scanOne (out : Scanned) (ann : Annotation) : Scanned :=
  match utf8 cp ann.1 with
  | none => out
  | some typeDesc =>
    if typeDesc ∈ modDescriptors then
      { out with modAnnotation := some (ann.2.foldl (scanModValue cp) {}) }
    else if typeDesc = mixinDescriptor then
      { out with mixinTargets := out.mixinTargets ++ ann.2.flatMap (scanMixinValue cp) }
    else if typeDesc ∈ distDescriptors ∧ out.dist = none then
      { out with dist := ann.2.foldl (scanDistValue cp) out.dist }
    else out

/-- So many annotations, or those before the first one that cannot be read. -/
def scanFrom (fuel : ℕ) : ℕ → Scanned → Reader Scanned
  | 0, out => pure out
  | n + 1, out => do
    match ← attempt ( readAnnotation fuel) with
    | some ann => scanFrom fuel n (scanOne cp out ann)
    | none => pure out

def scanAnnotations (fuel : ℕ) : Reader Scanned := do
  match ← attempt u2 with
  | some num => scanFrom cp fuel num {}
  | none => pure {}

end Scanning

/-! ## The class -/

/-- Attributes that do not matter. -/
def skipAttributes : Reader Unit := do
  let count ← u2
  let _ ← times count (do
    let _ ← u2
    let len ← u4
    skip len)
  pure ()

/-- A field or a method, of which the types in its descriptor matter. -/
def readMember (cp : List Cp) (out : Finset String) : Reader (Finset String) := do
  let _ ← u2
  let _ ← u2
  let descIndex ← u2
  let out ← ofExcept (descTypes cp out descIndex)
  skipAttributes
  pure out

def readMembers (cp : List Cp) : ℕ → Finset String → Reader (Finset String)
  | 0, out => pure out
  | n + 1, out => do
    let out ← readMember cp out
    readMembers cp n out

/-- What the annotations of a class say. -/
structure Facts where
  modSides : Option (Bool × Bool) := none
  modId : Option String := none
  acceptableRemoteVersions : Option String := none
  dist : Option Dist := none
  mixinTargets : List String := []

/-- With what another attribute says: what is known of a mod stays so, but for its sides. -/
def Facts.add (f : Facts) (s : Scanned) : Facts where
  modSides := (s.modAnnotation.map ModAnnotation.sides).or f.modSides
  modId := f.modId.or (s.modAnnotation.bind ModAnnotation.modid)
  acceptableRemoteVersions := f.acceptableRemoteVersions.or
    (s.modAnnotation.bind ModAnnotation.acceptableRemoteVersions)
  dist := f.dist.or s.dist
  mixinTargets := f.mixinTargets ++ s.mixinTargets

/-- The attributes that annotations are in. -/
def annotationAttributes : List String :=
  ["RuntimeVisibleAnnotations", "RuntimeInvisibleAnnotations"]

def readClassAttribute (cp : List Cp) (f : Facts) : Reader Facts := do
  let nameIndex ← u2
  let len ← u4
  if (utf8 cp nameIndex).any (· ∈ annotationAttributes) then
    let scanned ← within len (scanAnnotations cp (len + 1))
    pure (f.add scanned)
  else
    skip len
    pure f

def readClassAttributes (cp : List Cp) : ℕ → Facts → Reader Facts
  | 0, f => pure f
  | n + 1, f => do
    let f ← readClassAttribute cp f
    readClassAttributes cp n f

def hasMarker (cp : List Cp) (descriptors : List String) : Bool :=
  cp.any fun e =>
    match e with
    | .utf8 s => s ∈ descriptors
    | _ => false

/-- The class is loaded on a condition: it is marked so, or asks for a mod. -/
def isConditional (cp : List Cp) : Bool :=
  cp.any fun e =>
    match e with
    | .utf8 s => s ∈ optionalMarkers
    | .ref classIndex ntIndex =>
      match className cp classIndex, ntName cp ntIndex with
      | some owner, some method => (owner, method) ∈ modLoadedGuards
      | _, _ => false
    | _ => false

/-- What a class says of itself before its fields. -/
structure Header where
  thisClass : String
  superName : Option String
  interfaces : List String

def readHeader (cp : List Cp) : Reader Header := do
  let _ ← u2
  let thisIndex ← u2
  match className cp thisIndex with
  | none => fail
  | some thisClass =>
    let superIndex ← u2
    let count ← u2
    let indices ← times count u2
    pure ⟨thisClass,
      (if superIndex ≠ 0 then className cp superIndex else none).filter fun s =>
        s ≠ "java/lang/Object",
      indices.filterMap (className cp)⟩

/-- What comes after the pool of a class. -/
def readBody (cp : List Cp) : Reader ClassInfo := do
  let header ← readHeader cp
  let referenced ← ofExcept (poolTypes cp)
  let fields ← u2
  let referenced ← readMembers cp fields referenced
  let methods ← u2
  let referenced ← readMembers cp methods referenced
  let count ← u2
  let facts ← readClassAttributes cp count {}
  pure
    { thisClass := header.thisClass
      superName := header.superName
      interfaces := header.interfaces
      referenced := referenced.erase header.thisClass
      conditional := isConditional cp
      modSides := facts.modSides
      modId := facts.modId
      acceptableRemoteVersions := facts.acceptableRemoteVersions
      dist := facts.dist
      sidedProxy := hasMarker cp sidedProxyDescriptors
      loadingPlugin := header.interfaces.any (· ∈ loadingPluginInterfaces)
      mixinTargets := facts.mixinTargets }

def magic : ℕ := 0xcafebabe

def readClass : Reader ClassInfo := do
  let first ← u4
  if first = magic then
    let _ ← u2
    let _ ← u2
    let count ← u2
    let cp ← readPool count count 1 [.skip]
    readBody cp
  else fail

/-- What a class says, and what was read to find it. -/
def parseClass (bytes : Bytes) : Except (Option Fault) ClassInfo × Cur := readClass ⟨bytes, 0, []⟩

end ClassFile

end Smrt
