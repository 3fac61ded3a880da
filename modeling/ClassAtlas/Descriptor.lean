import ClassAtlas.Fault
import ClassAtlas.Text.Utf8

/-! # Descriptors

Types of fields and methods in their compact form. A field type is any number of `[`, then a
primitive code or `L` *class name* `;`; a method descriptor is `(`, field types, `)`, and a field
type or `V`. A class name is any non-empty byte string without `;`. Descriptors are byte strings, and
positions in them count bytes.

* `FieldType`, `MethodType`: the parsed forms, and `text` for how source code writes them.
* `Flaw`, `Defect`: what is wrong with a descriptor, and where.
* `parseField`, `parseMethod`: the parsers.
* `format desc name`: the declaration of `name` with the type `desc`.
-/

namespace ClassAtlas.Descriptor
set_option autoImplicit false

/-! ## Types -/

/-- The type of an element that is no array. -/
inductive Base where
  | byte
  | char
  | double
  | float
  | int
  | long
  | short
  | bool
  | void
  | object (className : List UInt8)
  deriving DecidableEq

/-- An element type under a number of array dimensions. -/
structure FieldType where
  dims : Nat
  base : Base
  deriving DecidableEq

/-- Parameters and result of a method. -/
structure MethodType where
  params : List FieldType
  result : FieldType
  deriving DecidableEq

/-- The character that stands for the element type; `L` for a class. -/
def Base.code : Base → Char
  | byte => 'B'
  | char => 'C'
  | double => 'D'
  | float => 'F'
  | int => 'I'
  | long => 'J'
  | short => 'S'
  | bool => 'Z'
  | void => 'V'
  | object _ => 'L'

/-- The primitive type or `void` that a byte stands for. -/
def Base.ofCode? (b : UInt8) : Option Base :=
  match Char.ofNat b.toNat with
  | 'B' => some byte
  | 'C' => some char
  | 'D' => some double
  | 'F' => some float
  | 'I' => some int
  | 'J' => some long
  | 'S' => some short
  | 'Z' => some bool
  | 'V' => some void
  | _ => none

/-! ## Source text -/

def Base.text : Base → List UInt8
  | byte => Text.encode "byte"
  | char => Text.encode "char"
  | double => Text.encode "double"
  | float => Text.encode "float"
  | int => Text.encode "int"
  | long => Text.encode "long"
  | short => Text.encode "short"
  | bool => Text.encode "boolean"
  | void => Text.encode "void"
  | object className => className

/-- The element type followed by one `[]` for each dimension. -/
def FieldType.text (t : FieldType) : List UInt8 :=
  t.base.text ++ (List.replicate t.dims (Text.encode "[]")).flatten

/-- A class name with dots in place of slashes. -/
def dotted (name : List UInt8) : List UInt8 :=
  name.map fun b => if b = 0x2f then 0x2e else b

/-- A class name with dots in place of slashes. -/
def dottedName (name : String) : String :=
  name.map fun c => if c = '/' then '.' else c

/-! ## What is wrong with a descriptor -/

/-- A way for a descriptor to be wrong. -/
inductive Flaw where
  | ended
  | unterminatedClass
  | emptyClass
  | misplacedVoid
  | unknownCode (b : UInt8)
  | trailing
  | notMethod
  | unterminatedParameters
  deriving DecidableEq

/-- The flaw in words. An unknown code shows as the character with the number of the byte. -/
def Flaw.text : Flaw → String
  | ended => "unexpected end of descriptor"
  | unterminatedClass => "unterminated class name"
  | emptyClass => "empty class name"
  | misplacedVoid => "void is only valid as a return type"
  | unknownCode b => "unknown type code " ++ (Char.ofNat b.toNat).toString
  | trailing => "trailing characters"
  | notMethod => "method descriptor must start with '('"
  | unterminatedParameters => "unterminated parameter list"

/-- A flaw at a byte position. -/
structure Defect where
  position : Nat
  flaw : Flaw
  deriving DecidableEq

def Defect.fault (desc : List UInt8) (d : Defect) : Fault :=
  { phase := .descriptor, cause := .malformedDescriptor desc d.position d.flaw.text }

/-! ## Parsing -/

/-- What is left of a descriptor, and the position of its first byte. -/
structure Suffix where
  position : Nat
  bytes : List UInt8

def Suffix.fail {α : Type} (s : Suffix) (flaw : Flaw) : Except Defect α :=
  .error ⟨s.position, flaw⟩

/-- The suffix after `n` more bytes. -/
def Suffix.drop (s : Suffix) (n : Nat) : Suffix :=
  ⟨s.position + n, s.bytes.drop n⟩

/-- The element type at the front of `s`, under `dims` dimensions. -/
def baseType (allowVoid : Bool) (dims : Nat) (s : Suffix) : Except Defect (FieldType × Suffix) :=
  match s.bytes with
  | [] => s.fail .ended
  | b :: bs =>
    if b = 0x4c then
      let name := bs.takeWhile (· ≠ 0x3b)
      if name.length = bs.length then s.fail .unterminatedClass
      else if name.isEmpty then s.fail .emptyClass
      else .ok (⟨dims, .object (dotted name)⟩, s.drop (name.length + 2))
    else
      match Base.ofCode? b with
      | none => s.fail (.unknownCode b)
      | some base =>
        if base = .void ∧ (!allowVoid ∨ 0 < dims) then s.fail .misplacedVoid
        else .ok (⟨dims, base⟩, s.drop 1)

/-- The type at the front of `s`; `void` only where it is allowed, and never in an array. -/
def fieldType (allowVoid : Bool) (s : Suffix) : Except Defect (FieldType × Suffix) :=
  let dims := (s.bytes.takeWhile (· = 0x5b)).length
  baseType allowVoid dims (s.drop dims)

theorem baseType_shorter {allowVoid : Bool} {dims : Nat} {s r : Suffix} {t : FieldType}
    (h : baseType allowVoid dims s = .ok (t, r)) : r.bytes.length < s.bytes.length := by
  obtain ⟨position, bytes⟩ := s
  unfold baseType at h
  cases bytes with
  | nil => simp [Suffix.fail] at h
  | cons b bs =>
    simp only [Suffix.fail, Suffix.drop] at h
    repeat' split at h
    all_goals cases h
    all_goals
      simp only [List.length_drop, List.length_cons]
      omega

theorem fieldType_shorter {allowVoid : Bool} {s r : Suffix} {t : FieldType}
    (h : fieldType allowVoid s = .ok (t, r)) : r.bytes.length < s.bytes.length := by
  have h' := baseType_shorter h
  simp only [Suffix.drop, List.length_drop] at h'
  omega

/-- The parameter types up to the closing parenthesis, and what follows it. -/
def parameters (s : Suffix) : Except Defect (List FieldType × Suffix) :=
  match s.bytes with
  | [] => s.fail .unterminatedParameters
  | b :: _ =>
    if b = 0x29 then .ok ([], s.drop 1)
    else
      match h : fieldType false s with
      | .error d => .error d
      | .ok (t, r) =>
        have := fieldType_shorter h
        match parameters r with
        | .error d => .error d
        | .ok (ts, r') => .ok (t :: ts, r')
termination_by s.bytes.length

/-- Fails unless the whole descriptor has been read. -/
def finished {α : Type} (a : α) (s : Suffix) : Except Defect α :=
  if s.bytes.isEmpty then .ok a else s.fail .trailing

def parseField (desc : List UInt8) : Except Defect FieldType := do
  let (t, s) ← fieldType false ⟨0, desc⟩
  finished t s

def parseMethod (desc : List UInt8) : Except Defect MethodType :=
  if desc.head? = some 0x28 then do
    let (params, s) ← parameters ⟨1, desc.drop 1⟩
    let (result, s) ← fieldType true s
    finished ⟨params, result⟩ s
  else .error ⟨0, .notMethod⟩

/-! ## Declarations -/

/-- The field declaration `type name`, or the type alone for an empty name. -/
def FieldType.declare (t : FieldType) (name : List UInt8) : List UInt8 :=
  if name.isEmpty then t.text else t.text ++ Text.encode " " ++ name

/-- The method declaration `result name(param, …)`. -/
def MethodType.declare (m : MethodType) (name : List UInt8) : List UInt8 :=
  m.result.text ++ Text.encode " " ++ name ++ Text.encode "("
    ++ (List.intersperse (Text.encode ", ") (m.params.map FieldType.text)).flatten
    ++ Text.encode ")"

/-- The declaration of `name` with the type `desc`, which is a method descriptor if it starts with a
parenthesis. -/
def format (desc name : List UInt8) : Except Defect (List UInt8) :=
  if desc.head? = some 0x28 then (parseMethod desc).map (·.declare name)
  else (parseField desc).map (·.declare name)

/-- The declaration of `name` with the type `desc`, as text. -/
def declaration (desc name : String) : Except Fault String :=
  let bytes := Text.encode desc
  ((format bytes (Text.encode name)).map Text.decode).mapError (Defect.fault bytes)

end ClassAtlas.Descriptor
