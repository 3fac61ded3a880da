import ClassAtlas.OperandKind

/-! # Opcodes

The instruction set: the mnemonic of each opcode and the operands of fixed width that follow it. The
opcodes 0x00 to 0xca are defined without a gap, and so are 0xfe and 0xff. Switches and `wide` have no
fixed operands; their length depends on what follows.

* `Opcode.mnemonic?`, `Opcode.operands`: the row of an opcode.
* `Opcode.isWidenable`: the opcode may follow `wide`.
* `Opcode.elementType?`: the type that `newarray` means by a code.
-/

namespace ClassAtlas.Opcode
set_option autoImplicit false

/-! ## Opcodes with a part of their own -/

def iinc : UInt8 := 0x84

def tableswitch : UInt8 := 0xaa

def lookupswitch : UInt8 := 0xab

def wide : UInt8 := 0xc4

/-! ## The table -/

/-- The mnemonics of the opcodes from 0x00 to 0xca. -/
def mnemonics : Array String := #[
    "nop", "aconst_null", "iconst_m1", "iconst_0", "iconst_1", "iconst_2", "iconst_3", "iconst_4",
    "iconst_5", "lconst_0", "lconst_1", "fconst_0", "fconst_1", "fconst_2", "dconst_0",
    "dconst_1", "bipush", "sipush", "ldc", "ldc_w", "ldc2_w", "iload", "lload", "fload", "dload",
    "aload", "iload_0", "iload_1", "iload_2", "iload_3", "lload_0", "lload_1", "lload_2",
    "lload_3", "fload_0", "fload_1", "fload_2", "fload_3", "dload_0", "dload_1", "dload_2",
    "dload_3", "aload_0", "aload_1", "aload_2", "aload_3", "iaload", "laload", "faload", "daload",
    "aaload", "baload", "caload", "saload", "istore", "lstore", "fstore", "dstore", "astore",
    "istore_0", "istore_1", "istore_2", "istore_3", "lstore_0", "lstore_1", "lstore_2",
    "lstore_3", "fstore_0", "fstore_1", "fstore_2", "fstore_3", "dstore_0", "dstore_1",
    "dstore_2", "dstore_3", "astore_0", "astore_1", "astore_2", "astore_3", "iastore", "lastore",
    "fastore", "dastore", "aastore", "bastore", "castore", "sastore", "pop", "pop2", "dup",
    "dup_x1", "dup_x2", "dup2", "dup2_x1", "dup2_x2", "swap", "iadd", "ladd", "fadd", "dadd",
    "isub", "lsub", "fsub", "dsub", "imul", "lmul", "fmul", "dmul", "idiv", "ldiv", "fdiv",
    "ddiv", "irem", "lrem", "frem", "drem", "ineg", "lneg", "fneg", "dneg", "ishl", "lshl",
    "ishr", "lshr", "iushr", "lushr", "iand", "land", "ior", "lor", "ixor", "lxor", "iinc", "i2l",
    "i2f", "i2d", "l2i", "l2f", "l2d", "f2i", "f2l", "f2d", "d2i", "d2l", "d2f", "i2b", "i2c",
    "i2s", "lcmp", "fcmpl", "fcmpg", "dcmpl", "dcmpg", "ifeq", "ifne", "iflt", "ifge", "ifgt",
    "ifle", "if_icmpeq", "if_icmpne", "if_icmplt", "if_icmpge", "if_icmpgt", "if_icmple",
    "if_acmpeq", "if_acmpne", "goto", "jsr", "ret", "tableswitch", "lookupswitch", "ireturn",
    "lreturn", "freturn", "dreturn", "areturn", "return", "getstatic", "putstatic", "getfield",
    "putfield", "invokevirtual", "invokespecial", "invokestatic", "invokeinterface",
    "invokedynamic", "new", "newarray", "anewarray", "arraylength", "athrow", "checkcast",
    "instanceof", "monitorenter", "monitorexit", "wide", "multianewarray", "ifnull", "ifnonnull",
    "goto_w", "jsr_w", "breakpoint"]

def mnemonic? (code : UInt8) : Option String :=
  if code = 0xfe then some "impdep1"
  else if code = 0xff then some "impdep2"
  else mnemonics[code.toNat]?

/-- The operands that follow an opcode. The count byte of an interface call follows from the
descriptor; with the zero byte after it, it makes one reserved operand. -/
def operands (code : UInt8) : List OperandKind :=
  if code = 0x10 then [.s1]
  else if code = 0x11 then [.s2]
  else if code = 0x12 then [.constant1]
  else if 0x13 ≤ code ∧ code ≤ 0x14 then [.constant2]
  else if 0x15 ≤ code ∧ code ≤ 0x19 then [.local1]
  else if 0x36 ≤ code ∧ code ≤ 0x3a then [.local1]
  else if code = iinc then [.local1, .s1]
  else if 0x99 ≤ code ∧ code ≤ 0xa8 then [.branch2]
  else if code = 0xa9 then [.local1]
  else if 0xb2 ≤ code ∧ code ≤ 0xb8 then [.constant2]
  else if 0xb9 ≤ code ∧ code ≤ 0xba then [.constant2, .reserved]
  else if code = 0xbb ∨ code = 0xbd ∨ code = 0xc0 ∨ code = 0xc1 then [.constant2]
  else if code = 0xbc then [.arrayType]
  else if code = 0xc5 then [.constant2, .u1]
  else if 0xc6 ≤ code ∧ code ≤ 0xc7 then [.branch2]
  else if 0xc8 ≤ code ∧ code ≤ 0xc9 then [.branch4]
  else []

/-- Loads, stores and `ret` of a local variable, and `iinc`. -/
def isWidenable (code : UInt8) : Bool :=
  (0x15 ≤ code && code ≤ 0x19) || (0x36 ≤ code && code ≤ 0x3a) || code == 0xa9 || code == iinc

/-- The element type that a code of `newarray` means. -/
def elementType? (code : Nat) : Option String :=
  match code with
  | 4 => some "boolean"
  | 5 => some "char"
  | 6 => some "float"
  | 7 => some "double"
  | 8 => some "byte"
  | 9 => some "short"
  | 10 => some "int"
  | 11 => some "long"
  | _ => none

end ClassAtlas.Opcode
