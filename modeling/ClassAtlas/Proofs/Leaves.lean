import ClassAtlas.ClassFile.Spans
import ClassAtlas.Pool.Naming

/-! # Leaves

Every value of a class file together with the part it plays. The part settles what the bytes of the
value mean and what its name has to be; it is read off the place of the value in the tree, and for the
operands of an instruction off their kind.

* `Role`: the parts that values play.
* `Leaf`: a value with its part.
* `ClassFile.leaves`: every leaf of a class file, in file order.
* `ClassFile.map_datum_leaves`: no value is left out.
-/

namespace ClassAtlas
set_option autoImplicit false

/-! ## Roles -/

/-- What a value of the file stands for. -/
inductive Role where
  /-- An unsigned number; in eight bytes, a two's-complement one. -/
  | number
  /-- A two's-complement number. -/
  | signed
  /-- The distance of a jump of the instruction at `pc`. -/
  | jump (pc : Nat)
  /-- The index of a constant. -/
  | reference
  /-- The index of a constant, or zero, which is named `absent`. -/
  | optional (absent : String)
  /-- The index of a Utf8 constant. -/
  | textual
  /-- The index of a constant in an instruction, named after the kind of the constant too. -/
  | operand
  /-- Any number of bytes that are no number: text, padding, or bytes without an interpretation. -/
  | bulk
  deriving DecidableEq

/-- The part of an operand of the instruction at `pc`. -/
def Role.ofOperand (pc : Nat) : OperandKind → Role
  | .branch2 | .branch4 => .jump pc
  | .s1 | .s2 | .s4 => .signed
  | .constant1 | .constant2 => .operand
  | .padding => .bulk
  | _ => .number

/-- A value with the part it plays. -/
structure Leaf where
  role : Role
  datum : Datum
  deriving DecidableEq

/-- The values, all of which play the same part. -/
def Role.all (role : Role) (ds : List Datum) : List Leaf :=
  ds.map (Leaf.mk role)

@[simp] theorem Role.map_datum_all (role : Role) (ds : List Datum) :
    (role.all ds).map Leaf.datum = ds := by
  rw [Role.all, List.map_map]
  exact List.map_id ds

theorem Leaf.map_datum_flatMap {α : Type} {leaves : α → List Leaf} {data : α → List Datum}
    (h : ∀ a, (leaves a).map Leaf.datum = data a) (as : List α) :
    (as.flatMap leaves).map Leaf.datum = as.flatMap data := by
  rw [List.map_flatMap]
  exact congrArg (as.flatMap ·) (funext h)

/-! ## Constants -/

def Payload.leaves : Payload → List Leaf
  | utf8 length bytes => [⟨.number, length⟩, ⟨.bulk, bytes⟩]
  | integer bytes => [⟨.signed, bytes⟩]
  | float bytes | long bytes | double bytes => [⟨.number, bytes⟩]
  | classInfo a | string a | methodType a | moduleInfo a | packageInfo a => [⟨.reference, a⟩]
  | fieldref a b | methodref a b | interfaceMethodref a b | nameAndType a b =>
    [⟨.reference, a⟩, ⟨.reference, b⟩]
  | methodHandle a b | dynamic a b | invokeDynamic a b => [⟨.number, a⟩, ⟨.reference, b⟩]

def Constant.leaves (c : Constant) : List Leaf :=
  ⟨.number, c.tag⟩ :: c.payload.leaves

theorem Constant.map_datum_leaves (c : Constant) : c.leaves.map Leaf.datum = c.data := by
  obtain ⟨index, tag, payload, name⟩ := c
  cases payload <;> rfl

theorem Payload.mem_leaves_of_mem_references {p : Payload} {d : Datum} (h : d ∈ p.references) :
    ⟨.reference, d⟩ ∈ p.leaves := by
  cases p <;> simp_all [references, leaves]

/-! ## Instructions -/

namespace SwitchTable

/-- Defaults and targets are jumps of the instruction at `pc`; bounds, counts and keys are numbers. -/
def leaves (pc : Nat) : SwitchTable → List Leaf
  | range default low high targets =>
    ⟨.jump pc, default⟩ :: ⟨.signed, low⟩ :: ⟨.signed, high⟩ :: Role.all (.jump pc) targets
  | pairs default count entries =>
    ⟨.jump pc, default⟩ :: ⟨.signed, count⟩ ::
      entries.flatMap fun (key, target) => [⟨.signed, key⟩, ⟨.jump pc, target⟩]

theorem map_datum_leaves (pc : Nat) (table : SwitchTable) :
    (table.leaves pc).map Leaf.datum = table.data := by
  cases table with
  | range default low high targets =>
    simp only [leaves, data, List.map_cons, Role.map_datum_all]
  | pairs default count entries =>
    simp only [leaves, data, List.map_cons, List.map_flatMap, List.map_nil]

end SwitchTable

namespace Instruction

/-- The leaf of an operand of the instruction. -/
def operandLeaf (i : Instruction) (d : Datum) : Leaf :=
  ⟨.ofOperand i.pc d.kind, d⟩

/-- Every leaf of the instruction, grouped as its parts are. -/
def partLeaves (i : Instruction) : List Leaf :=
  ⟨.number, i.opcode⟩ :: i.operands.map i.operandLeaf ++ i.hidden.map i.operandLeaf
    ++ (i.switch.map (SwitchTable.leaves i.pc)).getD []

def leaves (i : Instruction) : List Leaf :=
  i.partLeaves.mergeSort fun a b => a.datum.offset ≤ b.datum.offset

theorem map_datum_partLeaves (i : Instruction) : i.partLeaves.map Leaf.datum = i.parts := by
  have hoperands : ∀ ds : List Datum, (ds.map i.operandLeaf).map Leaf.datum = ds := by
    intro ds
    rw [List.map_map]
    exact List.map_id ds
  have hswitch : ((i.switch.map (SwitchTable.leaves i.pc)).getD []).map Leaf.datum =
      (i.switch.map SwitchTable.data).getD [] := by
    cases i.switch with
    | none => rfl
    | some table => exact table.map_datum_leaves i.pc
  simp only [partLeaves, parts, List.map_append, List.map_cons, hoperands, hswitch]

theorem map_datum_leaves (i : Instruction) : i.leaves.map Leaf.datum = i.data := by
  rw [leaves, data, ← map_datum_partLeaves]
  exact List.map_mergeSort fun _ _ _ _ => rfl

end Instruction

/-! ## Attributes -/

def NestedClass.leaves (r : NestedClass) : List Leaf :=
  [⟨.reference, r.inner⟩, ⟨.optional "", r.outer⟩, ⟨.optional "", r.name⟩, ⟨.number, r.flags⟩]

def BootstrapMethod.leaves (m : BootstrapMethod) : List Leaf :=
  ⟨.reference, m.reference⟩ :: ⟨.number, m.count⟩ :: Role.all .reference m.arguments

def LineEntry.leaves (e : LineEntry) : List Leaf :=
  [⟨.number, e.startPc⟩, ⟨.number, e.line⟩]

def LocalVariable.leaves (r : LocalVariable) : List Leaf :=
  [⟨.number, r.startPc⟩, ⟨.number, r.length⟩, ⟨.textual, r.name⟩, ⟨.textual, r.descriptor⟩,
    ⟨.number, r.index⟩]

def Handler.leaves (h : Handler) : List Leaf :=
  [⟨.number, h.startPc⟩, ⟨.number, h.endPc⟩, ⟨.number, h.handlerPc⟩,
    ⟨.optional "any", h.catchType⟩]

namespace Body

def leaves : Body → List Leaf
  | constantValue d | sourceFile d | signature d | nestHost d => [⟨.reference, d⟩]
  | classList count classes => ⟨.number, count⟩ :: Role.all .reference classes
  | nestedClasses count rows => ⟨.number, count⟩ :: rows.flatMap NestedClass.leaves
  | bootstrapMethods count methods => ⟨.number, count⟩ :: methods.flatMap BootstrapMethod.leaves
  | lineNumbers table => ⟨.number, table.length⟩ :: table.entries.flatMap LineEntry.leaves
  | localVariables length rows => ⟨.number, length⟩ :: rows.flatMap LocalVariable.leaves
  | marker => []
  | uninterpreted d => [⟨.bulk, d⟩]

theorem map_datum_leaves (b : Body) : b.leaves.map Leaf.datum = b.data := by
  cases b with
  | classList count classes => simp only [leaves, data, List.map_cons, Role.map_datum_all]
  | nestedClasses count rows =>
    exact congrArg (count :: ·) (Leaf.map_datum_flatMap (fun _ => rfl) rows)
  | bootstrapMethods count methods =>
    refine congrArg (count :: ·) (Leaf.map_datum_flatMap (fun m => ?_) methods)
    simp only [BootstrapMethod.leaves, List.map_cons, Role.map_datum_all]
  | lineNumbers table =>
    exact congrArg (table.length :: ·) (Leaf.map_datum_flatMap (fun _ => rfl) table.entries)
  | localVariables length rows =>
    exact congrArg (length :: ·) (Leaf.map_datum_flatMap (fun _ => rfl) rows)
  | _ => rfl

end Body

def Frame.leaves (f : Frame) : List Leaf :=
  ⟨.number, f.maxStack⟩ :: ⟨.number, f.maxLocals⟩ :: ⟨.number, f.codeLength⟩
    :: f.instructions.flatMap Instruction.leaves
    ++ ⟨.number, f.handlerCount⟩ :: f.handlers.flatMap Handler.leaves
    ++ [⟨.number, f.attributeCount⟩]

theorem Frame.map_datum_leaves (f : Frame) : f.leaves.map Leaf.datum = f.data := by
  have hcode := Leaf.map_datum_flatMap Instruction.map_datum_leaves f.instructions
  have hhandlers : (f.handlers.flatMap Handler.leaves).map Leaf.datum =
      f.handlers.flatMap fun h => [h.startPc, h.endPc, h.handlerPc, h.catchType] :=
    Leaf.map_datum_flatMap (fun _ => rfl) f.handlers
  simp only [leaves, data, List.map_append, List.map_cons, List.map_nil, hcode, hhandlers]

mutual

def Attribute.leaves : Attribute → List Leaf
  | .simple name length body => ⟨.textual, name⟩ :: ⟨.number, length⟩ :: body.leaves
  | .code name length frame attributes =>
    ⟨.textual, name⟩ :: ⟨.number, length⟩ :: frame.leaves ++ Attribute.leavesOfList attributes

def Attribute.leavesOfList : List Attribute → List Leaf
  | [] => []
  | a :: as => a.leaves ++ Attribute.leavesOfList as

end

namespace Attribute

mutual

theorem map_datum_leaves (a : Attribute) : a.leaves.map Leaf.datum = a.data := by
  cases a with
  | simple name length body =>
    simp only [leaves, data, List.map_cons, Body.map_datum_leaves]
  | code name length frame attributes =>
    have hattributes := map_datum_leavesOfList attributes
    simp only [leaves, data, List.map_append, List.map_cons, Frame.map_datum_leaves, hattributes]

theorem map_datum_leavesOfList (as : List Attribute) :
    (leavesOfList as).map Leaf.datum = dataOfList as := by
  cases as with
  | nil => rw [leavesOfList, dataOfList, List.map_nil]
  | cons a as =>
    have ha := map_datum_leaves a
    have has := map_datum_leavesOfList as
    rw [leavesOfList, dataOfList, List.map_append, ha, has]

end

end Attribute

/-! ## Class files -/

def Member.leaves (m : Member) : List Leaf :=
  ⟨.number, m.accessFlags⟩ :: ⟨.textual, m.nameIndex⟩ :: ⟨.textual, m.descriptorIndex⟩
    :: ⟨.number, m.attributeCount⟩ :: Attribute.leavesOfList m.attributes

theorem Member.map_datum_leaves (m : Member) : m.leaves.map Leaf.datum = m.data := by
  simp only [leaves, data, List.map_cons, Attribute.map_datum_leavesOfList]

namespace ClassFile

/-- Every value of the file with its part, in file order. -/
def leaves (cf : ClassFile) : List Leaf :=
  Role.all .number [cf.magic, cf.minorVersion, cf.majorVersion, cf.pool.count]
    ++ cf.pool.constants.flatMap Constant.leaves
    ++ [⟨.number, cf.accessFlags⟩, ⟨.reference, cf.thisClass⟩, ⟨.optional "", cf.superClass⟩,
      ⟨.number, cf.interfaceCount⟩]
    ++ Role.all .reference cf.interfaces
    ++ ⟨.number, cf.fieldCount⟩ :: cf.fields.flatMap Member.leaves
    ++ ⟨.number, cf.methodCount⟩ :: cf.methods.flatMap Member.leaves
    ++ ⟨.number, cf.attributeCount⟩ :: Attribute.leavesOfList cf.attributes
    ++ Role.all .bulk cf.trailing.toList

theorem map_datum_leaves (cf : ClassFile) : cf.leaves.map Leaf.datum = cf.data := by
  have hconstants := Leaf.map_datum_flatMap Constant.map_datum_leaves cf.pool.constants
  have hfields := Leaf.map_datum_flatMap Member.map_datum_leaves cf.fields
  have hmethods := Leaf.map_datum_flatMap Member.map_datum_leaves cf.methods
  have hattributes := Attribute.map_datum_leavesOfList cf.attributes
  simp only [leaves, data, List.map_append, List.map_cons, List.map_nil, Role.map_datum_all,
    hconstants, hfields, hmethods, hattributes]

end ClassFile

end ClassAtlas
