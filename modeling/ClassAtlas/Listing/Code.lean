import ClassAtlas.Attribute
import ClassAtlas.Listing.Document
import ClassAtlas.Text.Numeral

/-! # Listing of attributes and code

* `instruction`: an instruction; a switch takes a line for each case.
* `body`: what follows the heading of an attribute that carries no attributes.
* `attributes`: attributes with all that they carry.
* `code`: a method body.

Every listing starts its lines with `pad` and ends with the end of a line.
-/

namespace ClassAtlas.Listing
set_option autoImplicit false

/-- What each level of nesting adds in front of a line. -/
def indent : String := "  "

/-- A number, justified to the right. -/
def numeral (width : Nat) (n : Int) : String :=
  Text.justifyRight width (toString n)

/-! ## Instructions -/

def switchCase (pad key : String) (target : Datum) : Document :=
  [.text (pad ++ Text.justifyRight 12 key ++ ": "), .token .offset target.name, newline]

/-- The keys that a jump table covers. -/
def switchComment : SwitchTable → String
  | .range _ low high _ => " // " ++ toString low.num ++ " to " ++ toString high.num
  | .pairs _ count _ => " // " ++ toString count.num

/-- A jump table, after the opcode. -/
def switchTable (pad : String) (t : SwitchTable) : Document :=
  [.text " \x7b", .token .comment (switchComment t), newline]
    ++ t.cases.flatMap (fun c => switchCase pad (toString c.key) c.target)
    ++ switchCase pad "default" t.default
    ++ [.text (pad ++ Text.justifyRight 7 "" ++ "\x7d"), newline]

def argument (d : Datum) : Document :=
  if d.kind.isConstant then [.text ("#" ++ toString d.num)]
  else if d.kind.isBranch then [.token .offset d.name]
  else if d.kind = .opcode then [.token .mnemonic d.name]
  else [.text d.name]

/-- The arguments of an instruction, and the names of its constants as a comment. -/
def arguments (operands : List Datum) : Document :=
  let comments := (operands.filter (·.kind.isConstant)).map (·.name)
  (if operands.isEmpty then [] else .text " " :: separated ", " (operands.map argument))
    ++ (if comments.isEmpty then []
      else [.text " ", .token .comment ("// " ++ ", ".intercalate comments)])
    ++ [newline]

def instruction (pad : String) (i : Instruction) : Document :=
  [.text pad, .token .index (numeral 5 i.pc ++ ":"), .text " ", .token .mnemonic i.mnemonic]
    ++ match i.switch with
      | some t => switchTable pad t
      | none => arguments i.operands

/-! ## Bodies -/

/-- A body that is one name, after the heading. -/
def oneName (d : Datum) : Document :=
  [.text " ", .token .name d.name, newline]

def nestedClass (pad : String) (r : NestedClass) : Document :=
  let outer := if r.outer.name = "" then "" else " of " ++ r.outer.name
  let name := if r.name.name = "" then "" else " as " ++ r.name.name
  .text pad :: (if r.flags.name = "" then [] else [.token .flags r.flags.name, .text " "])
    ++ [.token .name (r.inner.name ++ outer ++ name), newline]

def bootstrapMethod (pad : String) (m : BootstrapMethod) (number : Nat) : Document :=
  [.text pad, .token .index (toString number), .text ": ", .token .name m.reference.name, newline]
    ++ m.arguments.flatMap fun d => [.text (pad ++ indent), .token .comment d.name, newline]

def lineEntry (pad : String) (e : LineEntry) : Document :=
  [.text (pad ++ "line " ++ toString e.line.num ++ ": " ++ toString e.startPc.num), newline]

def localVariable (pad : String) (v : LocalVariable) : Document :=
  [.text pad, .token .index (Text.justifyRight 4 v.index.name),
    .text (" " ++ numeral 5 v.startPc.num ++ " " ++ numeral 5 v.length.num ++ " "),
    .token .name v.name.name, .text (" " ++ v.descriptor.name), newline]

/-- A body, after the heading; its rows are indented once more than `pad`. -/
def body (pad : String) : Body → Document
  | .constantValue d | .sourceFile d | .signature d | .nestHost d => oneName d
  | .classList _ classes =>
    newline :: classes.flatMap fun d => [.text (pad ++ indent), .token .name d.name, newline]
  | .nestedClasses _ rows => newline :: rows.flatMap (nestedClass (pad ++ indent))
  | .bootstrapMethods _ methods =>
    newline :: methods.zipIdx.flatMap fun (m, i) => bootstrapMethod (pad ++ indent) m i
  | .lineNumbers table => newline :: table.entries.flatMap (lineEntry (pad ++ indent))
  | .localVariables _ rows => newline :: rows.flatMap (localVariable (pad ++ indent))
  | .marker => [newline]
  | .uninterpreted d => [.text " ", .token .comment (toString d.width ++ " bytes"), newline]

/-! ## Code and attributes -/

def handler (pad : String) (h : Handler) : Document :=
  [.text (pad ++ indent ++ numeral 5 h.startPc.num ++ " " ++ numeral 5 h.endPc.num ++ " "
      ++ numeral 6 h.handlerPc.num ++ " "),
    .token .name h.catchType.name, newline]

/-- An exception table; nothing for an empty one. -/
def handlers (pad : String) (hs : List Handler) : Document :=
  if hs.isEmpty then []
  else
    [.text pad, .token .heading "Exception table:", newline,
      .text (pad ++ indent ++ " from    to target type"), newline]
      ++ hs.flatMap (handler pad)

/-- A method body without the attributes it carries. -/
def frame (pad : String) (f : Frame) : Document :=
  [.text (pad ++ "stack=" ++ toString f.maxStack.num ++ ", locals=" ++ toString f.maxLocals.num
      ++ ", code_length=" ++ toString f.codeLength.num), newline]
    ++ f.instructions.flatMap (instruction pad)
    ++ handlers pad f.handlers

/-- The name of an attribute in front of its body. -/
def attributeHeading (pad : String) (a : Attribute) : Document :=
  [.text pad, .token .heading (a.name ++ ":")]

mutual

def attributeLines (pad : String) : Attribute → Document
  | .simple name length b => attributeHeading pad (.simple name length b) ++ body pad b
  | .code name length f as =>
    attributeHeading pad (.code name length f as) ++ newline :: frame (pad ++ indent) f
      ++ attributes (pad ++ indent) as

def attributes (pad : String) : List Attribute → Document
  | [] => []
  | a :: as => attributeLines pad a ++ attributes pad as

end

def code (pad : String) (c : Code) : Document :=
  frame pad c.frame ++ attributes pad c.attributes

end ClassAtlas.Listing
