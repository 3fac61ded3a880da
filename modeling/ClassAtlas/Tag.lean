/-! # Constant tags

The seventeen kinds of constant pool entries, with the byte that announces each of them, and the
kinds of method handles.

* `Tag`, `Tag.code`, `Tag.ofCode?`: the kinds and their bytes.
* `Tag.isWide`: entries of the kind occupy two pool slots.
* `ReferenceKind.describe`: the name of a method handle's kind.
-/

namespace ClassAtlas
set_option autoImplicit false

/-! ## Kinds of entries -/

/-- A kind of constant pool entry. -/
inductive Tag where
  | utf8
  | integer
  | float
  | long
  | double
  | classInfo
  | string
  | fieldref
  | methodref
  | interfaceMethodref
  | nameAndType
  | methodHandle
  | methodType
  | dynamic
  | invokeDynamic
  | moduleInfo
  | packageInfo
  deriving DecidableEq

namespace Tag

def code : Tag → UInt8
  | utf8 => 1
  | integer => 3
  | float => 4
  | long => 5
  | double => 6
  | classInfo => 7
  | string => 8
  | fieldref => 9
  | methodref => 10
  | interfaceMethodref => 11
  | nameAndType => 12
  | methodHandle => 15
  | methodType => 16
  | dynamic => 17
  | invokeDynamic => 18
  | moduleInfo => 19
  | packageInfo => 20

def ofCode? (code : UInt8) : Option Tag :=
  match code.toNat with
  | 1 => some utf8
  | 3 => some integer
  | 4 => some float
  | 5 => some long
  | 6 => some double
  | 7 => some classInfo
  | 8 => some string
  | 9 => some fieldref
  | 10 => some methodref
  | 11 => some interfaceMethodref
  | 12 => some nameAndType
  | 15 => some methodHandle
  | 16 => some methodType
  | 17 => some dynamic
  | 18 => some invokeDynamic
  | 19 => some moduleInfo
  | 20 => some packageInfo
  | _ => none

theorem ofCode?_code (t : Tag) : ofCode? t.code = some t := by
  cases t <;> rfl

def name : Tag → String
  | utf8 => "Utf8"
  | integer => "Integer"
  | float => "Float"
  | long => "Long"
  | double => "Double"
  | classInfo => "Class"
  | string => "String"
  | fieldref => "Fieldref"
  | methodref => "Methodref"
  | interfaceMethodref => "InterfaceMethodref"
  | nameAndType => "NameAndType"
  | methodHandle => "MethodHandle"
  | methodType => "MethodType"
  | dynamic => "Dynamic"
  | invokeDynamic => "InvokeDynamic"
  | moduleInfo => "Module"
  | packageInfo => "Package"

/-- Entries of the kind occupy two slots, the second of them unused. -/
def isWide : Tag → Bool
  | long | double => true
  | _ => false

/-- The name of the kind that a byte announces; a byte without a kind shows its number. -/
def describe (code : UInt8) : String :=
  match ofCode? code with
  | some t => t.name
  | none => "Tag(" ++ toString code.toNat ++ ")"

end Tag

/-! ## Kinds of method handles -/

/-- The name of a method handle's kind; a byte without a kind shows its number. -/
def ReferenceKind.describe (code : UInt8) : String :=
  match code.toNat with
  | 1 => "REF_getField"
  | 2 => "REF_getStatic"
  | 3 => "REF_putField"
  | 4 => "REF_putStatic"
  | 5 => "REF_invokeVirtual"
  | 6 => "REF_invokeStatic"
  | 7 => "REF_invokeSpecial"
  | 8 => "REF_newInvokeSpecial"
  | 9 => "REF_invokeInterface"
  | n => "REF_kind" ++ toString n

end ClassAtlas
