import ClassAtlas.ClassFile
import ClassAtlas.Json

/-! # Class files as JSON documents

The whole decoded tree, with each value as a record. Lists that the file counts are written as lists
for members, attributes, cases and pool slots; other lists are null when they are empty.

* `ClassFile.toJson`: the document of a class file.
-/

namespace ClassAtlas
set_option autoImplicit false

/-! ## Values and lists -/

namespace Json

/-- A list, also when it is empty. -/
def array {α : Type} (f : α → Json) (xs : List α) : Json :=
  .list (xs.map f)

/-- A list, or null when it is empty. -/
def arrayOrNull {α : Type} (f : α → Json) (xs : List α) : Json :=
  if xs.isEmpty then .null else array f xs

/-- A value, or null when there is none. -/
def option {α : Type} (f : α → Json) : Option α → Json
  | some a => f a
  | none => .null

end Json

def Datum.toJson (d : Datum) : Json :=
  .record [("Str", .text d.str), ("Name", .text d.name), ("Offset", .number d.offset),
    ("Width", .number d.width), ("Raw", .number d.raw), ("Num", .number d.num),
    ("Kind", .text d.kind.name)]

def Json.ofData (fields : List (String × Datum)) : Json :=
  .record (fields.map fun (key, d) => (key, d.toJson))

/-! ## Constants -/

def Payload.toJson : Payload → Json
  | utf8 length bytes => .ofData [("Length", length), ("Bytes", bytes)]
  | integer d | float d | long d | double d => .ofData [("Bytes", d)]
  | classInfo d | moduleInfo d | packageInfo d => .ofData [("NameIndex", d)]
  | string d => .ofData [("StringIndex", d)]
  | fieldref a b | methodref a b | interfaceMethodref a b =>
    .ofData [("ClassIndex", a), ("NameAndTypeIndex", b)]
  | nameAndType a b => .ofData [("NameIndex", a), ("DescriptorIndex", b)]
  | methodHandle a b => .ofData [("ReferenceKind", a), ("ReferenceIndex", b)]
  | methodType d => .ofData [("DescriptorIndex", d)]
  | dynamic a b | invokeDynamic a b =>
    .ofData [("BootstrapMethodAttrIndex", a), ("NameAndTypeIndex", b)]

def Constant.toJson (c : Constant) : Json :=
  .record [("Info", c.payload.toJson), ("Name", .text c.name), ("Tag", c.tag.toJson),
    ("Index", .number c.index)]

def Pool.toJson (p : Pool) : Json :=
  .record [("Entries", .array (.option Constant.toJson) p.slots.toList), ("Count", p.count.toJson)]

/-! ## Code -/

def SwitchCase.toJson (c : SwitchCase) : Json :=
  .record [("Match", .option Datum.toJson c.stored), ("Target", c.target.toJson),
    ("Key", .number c.key)]

def SwitchTable.toJson (t : SwitchTable) : Json :=
  let bounds := match t with
    | range _ low high _ => [("Low", low.toJson), ("High", high.toJson), ("NPairs", .null)]
    | pairs _ count _ => [("Low", .null), ("High", .null), ("NPairs", count.toJson)]
  .record (bounds ++ [("Cases", .array SwitchCase.toJson t.cases), ("Default", t.default.toJson)])

def Instruction.toJson (i : Instruction) : Json :=
  .record [("Switch", .option SwitchTable.toJson i.switch),
    ("Operands", .arrayOrNull Datum.toJson i.operands),
    ("Hidden", .arrayOrNull Datum.toJson i.hidden), ("Opcode", i.opcode.toJson),
    ("PC", .number i.pc), ("Size", .number i.size)]

def Handler.toJson (h : Handler) : Json :=
  .ofData [("StartPC", h.startPc), ("EndPC", h.endPc), ("HandlerPC", h.handlerPc),
    ("CatchType", h.catchType)]

/-! ## Attributes -/

def NestedClass.toJson (r : NestedClass) : Json :=
  .ofData [("InnerClassInfoIndex", r.inner), ("OuterClassInfoIndex", r.outer),
    ("InnerNameIndex", r.name), ("InnerClassAccessFlags", r.flags)]

def BootstrapMethod.toJson (m : BootstrapMethod) : Json :=
  .record [("Arguments", .arrayOrNull Datum.toJson m.arguments),
    ("BootstrapMethodRef", m.reference.toJson), ("NumArguments", m.count.toJson)]

def LineEntry.toJson (e : LineEntry) : Json :=
  .ofData [("StartPC", e.startPc), ("LineNumber", e.line)]

def LocalVariable.toJson (v : LocalVariable) : Json :=
  .ofData [("StartPC", v.startPc), ("Length", v.length), ("NameIndex", v.name),
    ("DescriptorIndex", v.descriptor), ("Index", v.index)]

def Body.toJson : Body → Json
  | constantValue d => .ofData [("ConstantValueIndex", d)]
  | sourceFile d => .ofData [("SourceFileIndex", d)]
  | signature d => .ofData [("SignatureIndex", d)]
  | nestHost d => .ofData [("HostClassIndex", d)]
  | classList count classes =>
    .record [("Classes", .arrayOrNull Datum.toJson classes), ("Count", count.toJson)]
  | nestedClasses count rows =>
    .record [("Classes", .arrayOrNull NestedClass.toJson rows), ("NumberOfClasses", count.toJson)]
  | bootstrapMethods count methods =>
    .record [("Methods", .arrayOrNull BootstrapMethod.toJson methods),
      ("NumBootstrapMethods", count.toJson)]
  | lineNumbers table =>
    .record [("Entries", .arrayOrNull LineEntry.toJson table.entries),
      ("Length", table.length.toJson)]
  | localVariables length rows =>
    .record [("Entries", .arrayOrNull LocalVariable.toJson rows), ("Length", length.toJson)]
  | marker => .record []
  | uninterpreted d => .ofData [("Info", d)]

mutual

def Attribute.toJson : Attribute → Json
  | .simple name length body =>
    .record [("Body", body.toJson), ("NameIndex", name.toJson), ("Length", length.toJson)]
  | .code name length f attributes =>
    .record [("Body", .record [
        ("Instructions", .arrayOrNull Instruction.toJson f.instructions),
        ("ExceptionTable", .arrayOrNull Handler.toJson f.handlers),
        ("Attributes", .list (Attribute.toJsonList attributes)),
        ("MaxStack", f.maxStack.toJson), ("MaxLocals", f.maxLocals.toJson),
        ("CodeLength", f.codeLength.toJson), ("ExceptionTableLength", f.handlerCount.toJson),
        ("AttributesCount", f.attributeCount.toJson)]),
      ("NameIndex", name.toJson), ("Length", length.toJson)]

def Attribute.toJsonList : List Attribute → List Json
  | [] => []
  | a :: as => a.toJson :: Attribute.toJsonList as

end

/-! ## The file -/

def Member.toJson (m : Member) : Json :=
  .record [("Signature", .text m.signature), ("Attributes", .list (Attribute.toJsonList m.attributes)),
    ("AccessFlags", m.accessFlags.toJson), ("NameIndex", m.nameIndex.toJson),
    ("DescriptorIndex", m.descriptorIndex.toJson), ("AttributesCount", m.attributeCount.toJson)]

def ClassFile.toJson (cf : ClassFile) : Json :=
  .record [("ConstantPool", cf.pool.toJson), ("Trailing", .option Datum.toJson cf.trailing),
    ("Interfaces", .arrayOrNull Datum.toJson cf.interfaces),
    ("Fields", .array Member.toJson cf.fields), ("Methods", .array Member.toJson cf.methods),
    ("Attributes", .list (Attribute.toJsonList cf.attributes)), ("Magic", cf.magic.toJson),
    ("MinorVersion", cf.minorVersion.toJson), ("MajorVersion", cf.majorVersion.toJson),
    ("AccessFlags", cf.accessFlags.toJson), ("ThisClass", cf.thisClass.toJson),
    ("SuperClass", cf.superClass.toJson), ("InterfacesCount", cf.interfaceCount.toJson),
    ("FieldsCount", cf.fieldCount.toJson), ("MethodsCount", cf.methodCount.toJson),
    ("AttributesCount", cf.attributeCount.toJson)]

end ClassAtlas
