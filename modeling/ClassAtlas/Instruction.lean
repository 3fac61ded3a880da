import ClassAtlas.Datum

/-! # Instructions

A decoded instruction: its opcode, the operands, and the bytes that the format asks for but that
carry no information. A switch has a jump table in place of operands.

* `SwitchTable`, `SwitchTable.cases`: the two forms of jump tables, and their cases.
* `Instruction`, `Instruction.data`: the instruction, and all its values in file order.
* `Instruction.targets`: the absolute program counters it may jump to.
-/

namespace ClassAtlas
set_option autoImplicit false

/-! ## Jump tables -/

/-- The jump table of a switch: one target for each key from `low` to `high`, or pairs of a key and a
target. -/
inductive SwitchTable where
  | range (default low high : Datum) (targets : List Datum)
  | pairs (default count : Datum) (entries : List (Datum × Datum))
  deriving DecidableEq

/-- One key of a jump table with its target; the key has a datum of its own where it is stored. -/
structure SwitchCase where
  key : Int
  stored : Option Datum
  target : Datum
  deriving DecidableEq

namespace SwitchTable

def default : SwitchTable → Datum
  | range d _ _ _ | pairs d _ _ => d

def rangeCases (key : Int) : List Datum → List SwitchCase
  | [] => []
  | target :: targets => ⟨key, none, target⟩ :: rangeCases (key + 1) targets

def cases : SwitchTable → List SwitchCase
  | range _ low _ targets => rangeCases low.num targets
  | pairs _ _ entries => entries.map fun (key, target) => ⟨key.num, some key, target⟩

def data : SwitchTable → List Datum
  | range default low high targets => default :: low :: high :: targets
  | pairs default count entries =>
    default :: count :: entries.flatMap fun (key, target) => [key, target]

end SwitchTable

/-! ## Instructions -/

/-- A decoded instruction; `pc` is the distance of its opcode from the start of the code. -/
structure Instruction where
  pc : Nat
  size : Nat
  opcode : Datum
  operands : List Datum := []
  hidden : List Datum := []
  switch : Option SwitchTable := none
  deriving DecidableEq

namespace Instruction

def mnemonic (i : Instruction) : String := i.opcode.name

/-- Every value of the instruction, grouped by what it is: the opcode, the operands, the bytes without
information, the jump table. -/
def parts (i : Instruction) : List Datum :=
  i.opcode :: i.operands ++ i.hidden ++ (i.switch.map SwitchTable.data).getD []

def data (i : Instruction) : List Datum :=
  i.parts.mergeSort fun a b => a.offset ≤ b.offset

/-- The program counters of the jump operands, or of the default and the cases of a switch. -/
def targets (i : Instruction) : List Int :=
  (i.operands.filter (·.kind.isBranch)).map (·.num)
    ++ match i.switch with
      | some table => table.default.num :: table.cases.map (·.target.num)
      | none => []

end Instruction

end ClassAtlas
