/-! # Operand kinds

What a value read from the file stands for. Values outside of instructions are `structural`. The
kinds have numbers from 0 to 16; a number above has no kind of its own.

* `OperandKind`, `OperandKind.ofCode`: the kinds and their numbers.
* `OperandKind.width`, `OperandKind.isSigned`: how an operand of the kind is stored.
-/

namespace ClassAtlas
set_option autoImplicit false

/-- What a value read from the file stands for. -/
inductive OperandKind where
  | structural
  | u1
  | u2
  | u4
  | s1
  | s2
  | s4
  | constant1
  | constant2
  | local1
  | local2
  | branch2
  | branch4
  | arrayType
  | reserved
  | opcode
  | padding
  | unassigned (code : UInt8)
  deriving DecidableEq

namespace OperandKind

def ofCode (code : UInt8) : OperandKind :=
  match code.toNat with
  | 0 => structural
  | 1 => u1
  | 2 => u2
  | 3 => u4
  | 4 => s1
  | 5 => s2
  | 6 => s4
  | 7 => constant1
  | 8 => constant2
  | 9 => local1
  | 10 => local2
  | 11 => branch2
  | 12 => branch4
  | 13 => arrayType
  | 14 => reserved
  | 15 => opcode
  | 16 => padding
  | _ => unassigned code

def name : OperandKind → String
  | structural => "none"
  | u1 => "u1"
  | u2 => "u2"
  | u4 => "u4"
  | s1 => "s1"
  | s2 => "s2"
  | s4 => "s4"
  | constant1 => "constant_index1"
  | constant2 => "constant_index2"
  | local1 => "local_index1"
  | local2 => "local_index2"
  | branch2 => "branch_offset2"
  | branch4 => "branch_offset4"
  | arrayType => "array_type"
  | reserved => "reserved"
  | opcode => "opcode"
  | padding => "padding"
  | unassigned code => "OperandKind(" ++ toString code.toNat ++ ")"

/-- The number of bytes of an operand, or 0 for kinds without a fixed width. -/
def width : OperandKind → Nat
  | u1 | s1 | constant1 | local1 | arrayType | opcode => 1
  | u2 | s2 | constant2 | local2 | branch2 | reserved => 2
  | u4 | s4 | branch4 => 4
  | _ => 0

/-- Operands of the kind are stored in two's complement. -/
def isSigned : OperandKind → Bool
  | s1 | s2 | s4 | branch2 | branch4 => true
  | _ => false

def isBranch : OperandKind → Bool
  | branch2 | branch4 => true
  | _ => false

/-- Operands of the kind are constant pool indices. -/
def isConstant : OperandKind → Bool
  | constant1 | constant2 => true
  | _ => false

end OperandKind

end ClassAtlas
