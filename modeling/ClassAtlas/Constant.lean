import ClassAtlas.Datum
import ClassAtlas.Decimal.Floating
import ClassAtlas.Tag

/-! # Constants

An entry of the constant pool: the tag, and the fields that entries of its kind have. Some of the
fields are references, which hold the index of another entry.

* `Payload`, `Constant`: the fields of an entry, and the entry.
* `Payload.data`, `Payload.references`: its fields in file order, and those that are references.
* `Payload.steps`, `Constant.steps`: an entry read step by step.
* `Payload.read`, `Constant.read`: an entry read in one step.
-/

namespace ClassAtlas
set_option autoImplicit false

/-! ## Entries -/

/-- The fields of an entry, by kind. -/
inductive Payload where
  | utf8 (length bytes : Datum)
  | integer (bytes : Datum)
  | float (bytes : Datum)
  | long (bytes : Datum)
  | double (bytes : Datum)
  | classInfo (name : Datum)
  | string (text : Datum)
  | fieldref (owner nameAndType : Datum)
  | methodref (owner nameAndType : Datum)
  | interfaceMethodref (owner nameAndType : Datum)
  | nameAndType (name descriptor : Datum)
  | methodHandle (kind reference : Datum)
  | methodType (descriptor : Datum)
  | dynamic (bootstrap nameAndType : Datum)
  | invokeDynamic (bootstrap nameAndType : Datum)
  | moduleInfo (name : Datum)
  | packageInfo (name : Datum)
  deriving DecidableEq

namespace Payload

def tag : Payload → Tag
  | utf8 .. => .utf8
  | integer .. => .integer
  | float .. => .float
  | long .. => .long
  | double .. => .double
  | classInfo .. => .classInfo
  | string .. => .string
  | fieldref .. => .fieldref
  | methodref .. => .methodref
  | interfaceMethodref .. => .interfaceMethodref
  | nameAndType .. => .nameAndType
  | methodHandle .. => .methodHandle
  | methodType .. => .methodType
  | dynamic .. => .dynamic
  | invokeDynamic .. => .invokeDynamic
  | moduleInfo .. => .moduleInfo
  | packageInfo .. => .packageInfo

def data : Payload → List Datum
  | utf8 a b | fieldref a b | methodref a b | interfaceMethodref a b | nameAndType a b
  | methodHandle a b | dynamic a b | invokeDynamic a b => [a, b]
  | integer a | float a | long a | double a | classInfo a | string a | methodType a
  | moduleInfo a | packageInfo a => [a]

/-- The fields that hold the index of another entry. -/
def references : Payload → List Datum
  | classInfo a | string a | methodType a | moduleInfo a | packageInfo a => [a]
  | fieldref a b | methodref a b | interfaceMethodref a b | nameAndType a b => [a, b]
  | methodHandle _ b | dynamic _ b | invokeDynamic _ b => [b]
  | utf8 .. | integer _ | float _ | long _ | double _ => []

def mapReferences (f : Datum → Datum) : Payload → Payload
  | classInfo a => classInfo (f a)
  | string a => string (f a)
  | methodType a => methodType (f a)
  | moduleInfo a => moduleInfo (f a)
  | packageInfo a => packageInfo (f a)
  | fieldref a b => fieldref (f a) (f b)
  | methodref a b => methodref (f a) (f b)
  | interfaceMethodref a b => interfaceMethodref (f a) (f b)
  | nameAndType a b => nameAndType (f a) (f b)
  | methodHandle a b => methodHandle a (f b)
  | dynamic a b => dynamic a (f b)
  | invokeDynamic a b => invokeDynamic a (f b)
  | p => p

theorem tag_mapReferences (f : Datum → Datum) (p : Payload) : (p.mapReferences f).tag = p.tag := by
  cases p <;> rfl

end Payload

/-- An entry of the pool. Its name is what the listing calls it. -/
structure Constant where
  index : Nat
  tag : Datum
  payload : Payload
  name : String := ""
  deriving DecidableEq

namespace Constant

def data (c : Constant) : List Datum :=
  c.tag :: c.payload.data

/-- The fields that hold the index of another entry. -/
def references (c : Constant) : List Datum :=
  c.payload.references

def isWide (c : Constant) : Bool :=
  c.payload.tag.isWide

end Constant

/-! ## Reading -/

section

variable {m : Type → Type} [Monad m] (r : Stepping m)

namespace Payload

/-- One reference or number of two bytes. -/
def oneStep (make : Datum → Payload) : m Payload := do
  let a ← r.step Datum.u2
  pure (make a)

/-- Two references or numbers of two bytes each. -/
def twoSteps (make : Datum → Datum → Payload) : m Payload := do
  let a ← r.step Datum.u2
  let b ← r.step Datum.u2
  pure (make a b)

/-- The fields of an entry of a kind, one after the other. Literals are named after their value. -/
def steps : Tag → m Payload
  | .utf8 => do
    let length ← r.step Datum.u2
    let bytes ← r.step (Datum.text length.num)
    pure (utf8 length bytes)
  | .integer => do
    let d ← r.step (Datum.signed 4 .structural)
    pure (integer (d.named (toString d.num)))
  | .float => do
    let d ← r.step Datum.u4
    pure (float (d.named (Decimal.Format.single.literal d.raw)))
  | .long => do
    let d ← r.step Datum.u8
    pure (long (d.named (toString d.num)))
  | .double => do
    let d ← r.step Datum.u8
    pure (double (d.named (Decimal.Format.double.literal d.raw)))
  | .methodHandle => do
    let kind ← r.step Datum.u1
    let reference ← r.step Datum.u2
    pure (methodHandle (kind.named (ReferenceKind.describe kind.raw.toUInt8)) reference)
  | .classInfo => oneStep r classInfo
  | .string => oneStep r string
  | .methodType => oneStep r methodType
  | .moduleInfo => oneStep r moduleInfo
  | .packageInfo => oneStep r packageInfo
  | .fieldref => twoSteps r fieldref
  | .methodref => twoSteps r methodref
  | .interfaceMethodref => twoSteps r interfaceMethodref
  | .nameAndType => twoSteps r nameAndType
  | .dynamic => twoSteps r dynamic
  | .invokeDynamic => twoSteps r invokeDynamic

end Payload

namespace Constant

/-- The tag is one read, and an unknown tag is refused after it. -/
def tagSteps : m (Datum × Tag) := do
  let d ← r.step Datum.u1
  match Tag.ofCode? d.raw.toUInt8 with
  | some tag => pure (d.named tag.name, tag)
  | none =>
    r.step (throw
      { phase := .constantPool, cause := .unknownTag d.raw.toUInt8, offset := d.offset })

/-- The entry for a slot, not yet named. -/
def steps (index : Nat) : m Constant := do
  let (d, tag) ← tagSteps r
  let payload ← Payload.steps r tag
  pure { index := index, tag := d, payload := payload }

end Constant

end

def Payload.read (tag : Tag) : Reading Payload :=
  steps .reading tag

def Constant.readTag : Reading (Datum × Tag) :=
  tagSteps .reading

def Constant.read (index : Nat) : Reading Constant :=
  steps .reading index

end ClassAtlas
