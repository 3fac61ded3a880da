import ClassAtlas.Instruction

/-! # Attributes

An attribute is a name, a length and a body. The bodies of fourteen names are interpreted; any other
attribute keeps its bytes as one value. A method body is an attribute that carries attributes of its
own, to any depth.

* `Body`: the bodies that carry no attributes.
* `Frame`, `Attribute`, `Code`: method bodies, and attributes in general.
* `Attribute.data`: every value of an attribute in file order.
* `LineTable.line`: the source line of a program counter.
-/

namespace ClassAtlas
set_option autoImplicit false

/-! ## Rows of tables -/

/-- A row of the table of nested classes. -/
structure NestedClass where
  inner : Datum
  outer : Datum
  name : Datum
  flags : Datum
  deriving DecidableEq

/-- A bootstrap method with its static arguments. -/
structure BootstrapMethod where
  reference : Datum
  count : Datum
  arguments : List Datum
  deriving DecidableEq

/-- The source line that starts at a program counter. -/
structure LineEntry where
  startPc : Datum
  line : Datum
  deriving DecidableEq

/-- Source lines by program counter, in any order. -/
structure LineTable where
  length : Datum
  entries : List LineEntry
  deriving DecidableEq

/-- A named local variable and the code in which it lives. -/
structure LocalVariable where
  startPc : Datum
  length : Datum
  name : Datum
  descriptor : Datum
  index : Datum
  deriving DecidableEq

/-- A row of an exception table. -/
structure Handler where
  startPc : Datum
  endPc : Datum
  handlerPc : Datum
  catchType : Datum
  deriving DecidableEq

/-! ## Bodies -/

/-- The body of an attribute that carries no attributes. -/
inductive Body where
  | constantValue (value : Datum)
  | sourceFile (file : Datum)
  | signature (signature : Datum)
  | nestHost (host : Datum)
  | classList (count : Datum) (classes : List Datum)
  | nestedClasses (count : Datum) (rows : List NestedClass)
  | bootstrapMethods (count : Datum) (methods : List BootstrapMethod)
  | lineNumbers (table : LineTable)
  | localVariables (length : Datum) (rows : List LocalVariable)
  | marker
  | uninterpreted (info : Datum)
  deriving DecidableEq

/-- A method body without the attributes it carries. -/
structure Frame where
  maxStack : Datum
  maxLocals : Datum
  codeLength : Datum
  instructions : List Instruction
  handlerCount : Datum
  handlers : List Handler
  attributeCount : Datum
  deriving DecidableEq

/-- An attribute; a method body carries attributes of its own. -/
inductive Attribute where
  | simple (name length : Datum) (body : Body)
  | code (name length : Datum) (frame : Frame) (attributes : List Attribute)

/-- A method body. -/
structure Code where
  frame : Frame
  attributes : List Attribute

namespace Attribute

def nameIndex : Attribute → Datum
  | simple name _ _ | code name _ _ _ => name

def length : Attribute → Datum
  | simple _ length _ | code _ length _ _ => length

def name (a : Attribute) : String := a.nameIndex.name

def code? : Attribute → Option Code
  | code _ _ frame attributes => some ⟨frame, attributes⟩
  | simple .. => none

def lineTable? : Attribute → Option LineTable
  | simple _ _ (.lineNumbers table) => some table
  | _ => none

def sourceFile? : Attribute → Option String
  | simple _ _ (.sourceFile file) => some file.name
  | _ => none

end Attribute

/-! ## Values in file order -/

namespace Body

def data : Body → List Datum
  | constantValue d | sourceFile d | signature d | nestHost d | uninterpreted d => [d]
  | classList count classes => count :: classes
  | nestedClasses count rows => count :: rows.flatMap fun r => [r.inner, r.outer, r.name, r.flags]
  | bootstrapMethods count methods =>
    count :: methods.flatMap fun m => m.reference :: m.count :: m.arguments
  | lineNumbers table => table.length :: table.entries.flatMap fun e => [e.startPc, e.line]
  | localVariables length rows =>
    length :: rows.flatMap fun r => [r.startPc, r.length, r.name, r.descriptor, r.index]
  | marker => []

end Body

/-- The values of a method body in file order, up to its attributes. -/
def Frame.data (f : Frame) : List Datum :=
  f.maxStack :: f.maxLocals :: f.codeLength :: f.instructions.flatMap Instruction.data
    ++ f.handlerCount :: f.handlers.flatMap
      (fun h => [h.startPc, h.endPc, h.handlerPc, h.catchType])
    ++ [f.attributeCount]

mutual

def Attribute.data : Attribute → List Datum
  | .simple name length body => name :: length :: body.data
  | .code name length frame attributes =>
    name :: length :: frame.data ++ Attribute.dataOfList attributes

def Attribute.dataOfList : List Attribute → List Datum
  | [] => []
  | a :: as => a.data ++ Attribute.dataOfList as

end

/-! ## Questions -/

/-- One row of the search for the line of `pc`: the start and the line found so far, where a row that
starts at or before `pc` replaces one that starts before it. -/
def LineTable.scan (pc : Int) (found : Int × Int) (e : LineEntry) : Int × Int :=
  if e.startPc.num ≤ pc ∧ found.1 < e.startPc.num then (e.startPc.num, e.line.num) else found

/-- The source line that covers `pc`, or 0. The search begins with a start below that of any row. -/
def LineTable.line (table : LineTable) (pc : Int) : Int :=
  (table.entries.foldl (scan pc) (-1, 0)).2

/-- The position of the instruction at `pc`, in an index that the instructions fill in their order:
of several at one `pc`, the last. -/
def pcIndex? (is : List Instruction) (pc : Int) : Option Nat :=
  is.zipIdx.foldl (fun found (i, n) => if (i.pc : Int) = pc then some n else found) none

namespace Code

/-- The instruction whose opcode is at `pc`. -/
def instructionAt? (c : Code) (pc : Int) : Option Instruction := do
  let n ← pcIndex? c.frame.instructions pc
  c.frame.instructions[n]?

/-- The first line table of the method body. -/
def lineTable? (c : Code) : Option LineTable :=
  c.attributes.findSome? Attribute.lineTable?

end Code

end ClassAtlas
