import ClassAtlas.Attribute
import ClassAtlas.Pool
import ClassAtlas.Release

/-! # Class files

A decoded class file: the header, the constant pool, the members and the attributes, each value with
its place in the file.

* `Member`, `ClassFile`: the parts.
* `Member.display`, `Member.code?`, `ClassFile.version`, `ClassFile.findMethod?`: questions about
  them.
-/

namespace ClassAtlas
set_option autoImplicit false

/-! ## Members -/

/-- A field or a method. The signature is its declaration. -/
structure Member where
  accessFlags : Datum
  nameIndex : Datum
  descriptorIndex : Datum
  signature : String
  attributeCount : Datum
  attributes : List Attribute

namespace Member

def name (m : Member) : String := m.nameIndex.name

def descriptor (m : Member) : String := m.descriptorIndex.name

def display (m : Member) : String :=
  if m.accessFlags.name = "" then m.signature
  else m.accessFlags.name ++ " " ++ m.signature

/-- The first attribute with a name. -/
def attribute? (m : Member) (name : String) : Option Attribute :=
  m.attributes.find? fun a => a.name = name

/-- The method body, if the member has one. -/
def code? (m : Member) : Option Code :=
  m.attributes.findSome? Attribute.code?

def data (m : Member) : List Datum :=
  m.accessFlags :: m.nameIndex :: m.descriptorIndex :: m.attributeCount
    :: Attribute.dataOfList m.attributes

end Member

/-! ## The file -/

/-- A class file; `trailing` is what follows the class, if anything does. -/
structure ClassFile where
  magic : Datum
  minorVersion : Datum
  majorVersion : Datum
  pool : Pool
  accessFlags : Datum
  thisClass : Datum
  superClass : Datum
  interfaceCount : Datum
  interfaces : List Datum
  fieldCount : Datum
  fields : List Member
  methodCount : Datum
  methods : List Member
  attributeCount : Datum
  attributes : List Attribute
  trailing : Option Datum

namespace ClassFile

/-- The file starts with the number that every class file starts with. -/
def hasValidMagic (cf : ClassFile) : Bool :=
  cf.magic.raw == 0xcafebabe

def name (cf : ClassFile) : String := cf.thisClass.name

def hasSuperClass (cf : ClassFile) : Bool :=
  cf.superClass.num ≠ 0

/-- The dotted name of the superclass; nothing where there is none. -/
def superName (cf : ClassFile) : String := cf.superClass.name

/-- Major and minor version, and the release where it is known. -/
def version (cf : ClassFile) : String :=
  toString cf.majorVersion.num ++ "." ++ toString cf.minorVersion.num
    ++ match releaseOf? cf.majorVersion.raw with
      | some release => " (" ++ release ++ ")"
      | none => ""

/-- The source file that the first attribute of that kind names; nothing where there is none. -/
def sourceFile (cf : ClassFile) : String :=
  (cf.attributes.findSome? Attribute.sourceFile?).getD ""

def findMethod? (cf : ClassFile) (name descriptor : String) : Option Member :=
  cf.methods.find? fun m => m.name = name ∧ m.descriptor = descriptor

end ClassFile

end ClassAtlas
