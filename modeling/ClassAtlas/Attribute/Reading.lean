import ClassAtlas.AccessFlags
import ClassAtlas.Attribute
import ClassAtlas.Instruction.Disassembly

/-! # Reading attributes

An attribute is read in its own window, which must be empty at the end; an attribute whose name has
no interpretation takes the whole window as one value.

* `Body.reader?`: the step that reads the body of an attribute with a certain name.
* `Attribute.read`: the step that reads one attribute.
* `Attribute.readList`: the step that reads a count and that many attributes.
-/

namespace ClassAtlas
set_option autoImplicit false

/-! ## Bodies -/

namespace Body

def readReference (pool : Pool) (make : Datum → Body) : Reading Body := do
  let d ← pool.readReference
  pure (make d)

def readRows {α : Type} (row : Reading α) (make : Datum → List α → Body) : Reading Body := do
  let count ← Datum.u2
  let rows ← repeated count.num.toNat fun _ => row
  pure (make count rows)

def nestedClass (pool : Pool) : Reading NestedClass := do
  let inner ← pool.readReference
  let outer ← pool.readOptional ""
  let name ← pool.readOptional ""
  let flags ← Datum.u2
  pure ⟨inner, outer, name, flags.named (FlagTable.ofNestedClass.describe flags.raw)⟩

def bootstrapMethod (pool : Pool) : Reading BootstrapMethod := do
  let reference ← pool.readReference
  let count ← Datum.u2
  let arguments ← repeated count.num.toNat fun _ => pool.readReference
  pure ⟨reference, count, arguments⟩

def lineEntry : Reading LineEntry := do
  let startPc ← Datum.u2
  let line ← Datum.u2
  pure ⟨startPc, line⟩

def localVariable (pool : Pool) : Reading LocalVariable := do
  let startPc ← Datum.u2
  let length ← Datum.u2
  let name ← Datum.u2
  let descriptor ← Datum.u2
  let index ← Datum.u2
  let name ← settled (pool.referText name)
  let descriptor ← settled (pool.referText descriptor)
  pure ⟨startPc, length, name, descriptor, index.named ("@" ++ toString index.num)⟩

/-- How to read the body of an attribute with this name; nothing for names that are not interpreted,
nor for method bodies. -/
def reader? (pool : Pool) (name : String) : Option (Reading Body) :=
  match name with
  | "ConstantValue" => some (readReference pool constantValue)
  | "SourceFile" => some (readReference pool sourceFile)
  | "Signature" => some (readReference pool signature)
  | "NestHost" => some (readReference pool nestHost)
  | "Exceptions" | "NestMembers" | "PermittedSubclasses" =>
    some (readRows pool.readReference classList)
  | "InnerClasses" => some (readRows (nestedClass pool) nestedClasses)
  | "BootstrapMethods" => some (readRows (bootstrapMethod pool) bootstrapMethods)
  | "LineNumberTable" =>
    some (readRows lineEntry fun length entries => lineNumbers ⟨length, entries⟩)
  | "LocalVariableTable" => some (readRows (localVariable pool) localVariables)
  | "Deprecated" | "Synthetic" => some (pure marker)
  | _ => none

end Body

/-! ## Method bodies -/

/-- A row of an exception table; catch type 0 catches anything. -/
def Handler.read (pool : Pool) (row : Nat) : Reading Handler := do
  let startPc ← Datum.u2
  let endPc ← Datum.u2
  let handlerPc ← Datum.u2
  let catchType ← Datum.u2
  let catchType ← within ("exception_table[" ++ toString row ++ "]")
    (settled (pool.referOptional "any" catchType))
  pure ⟨startPc, endPc, handlerPc, catchType⟩

namespace Code

/-- What stands before the code of a method body, and the window on the code. -/
structure Head where
  maxStack : Datum
  maxLocals : Datum
  codeLength : Datum
  window : Window

def readHead : Reading Head := do
  let maxStack ← Datum.u2
  let maxLocals ← Datum.u2
  let codeLength ← Datum.u4
  let window ← Window.child codeLength.raw
  pure { maxStack, maxLocals, codeLength, window }

def readHandlers (pool : Pool) : Reading (Datum × List Handler) := do
  let count ← Datum.u2
  let handlers ← repeated count.num.toNat (Handler.read pool)
  pure (count, handlers)

/-- A method body, whose attributes are read by `attributes`. -/
def read (pool : Pool) (attributes : Reading (Datum × List Attribute)) : Reading Code := do
  let h ← readHead
  let (instructions, _) ← onChild .disassemble h.window (Disassembly.disassemble pool)
  let (handlerCount, handlers) ← readHandlers pool
  let (attributeCount, attributes) ← attributes
  pure
    { frame :=
        { maxStack := h.maxStack
          maxLocals := h.maxLocals
          codeLength := h.codeLength
          instructions, handlerCount, handlers, attributeCount }
      attributes }

end Code

/-! ## Attributes -/

namespace Attribute

/-- The step, which must leave nothing of its window unread. -/
def whole {α : Type} (step : Reading α) : Reading α := do
  let a ← step
  let w ← get
  if w.rest.isEmpty then pure a
  else
    throw { phase := .attributeBody, cause := .unreadBytes w.remaining, offset := w.pos }

/-- The rest of an attribute in its own window, given its name and its length. -/
def readBody (pool : Pool) (attributes : Reading (Datum × List Attribute)) (name length : Datum) :
    Reading Attribute :=
  if name.name = "Code" then
    within name.name (whole do
      let c ← Code.read pool attributes
      pure (code name length c.frame c.attributes))
  else
    match Body.reader? pool name.name with
    | some reader => within name.name (whole do
        let body ← reader
        pure (simple name length body))
    | none => do
      let w ← get
      let info ← Datum.skip w.remaining
      pure (simple name length (.uninterpreted info))

/-- What stands before the body of an attribute, and the window on the body. -/
structure Head where
  name : Datum
  length : Datum
  window : Window

def readHead (pool : Pool) : Reading Head := do
  let name ← Datum.u2
  let name ← settled (pool.referText name)
  let length ← Datum.u4
  let window ← Window.child length.raw
  pure { name, length, window }

/-- One attribute; the attributes of a method body are read by `attributes`. -/
def read (pool : Pool) (attributes : Reading (Datum × List Attribute)) : Reading Attribute := do
  let h ← readHead pool
  let (a, _) ← onChild .attributeBody h.window (readBody pool attributes h.name h.length)
  pure a

/-- A count and that many attributes, each read by `element`. -/
def readCounted (element : Reading Attribute) : Reading (Datum × List Attribute) :=
  counted "attributes_count" (fun i => "attributes[" ++ toString i ++ "]") element

/-- A count and that many attributes, with method bodies nested less than `depth` deep. At depth 0
there is no room for the count. -/
def readNested (pool : Pool) : Nat → Reading (Datum × List Attribute)
  | 0 => within "attributes_count" fun w => .error (w.endOfInput 2)
  | depth + 1 => readCounted (read pool (readNested pool depth))

/-- A count and that many attributes. A method body takes more bytes than the attributes in it, so
they are not nested deeper than there are bytes. -/
def readList (pool : Pool) : Reading (Datum × List Attribute) := do
  let w ← get
  readNested pool w.remaining

end Attribute

end ClassAtlas
