import ClassAtlas.Instruction
import ClassAtlas.Opcode
import ClassAtlas.Pool

/-! # Disassembly

Reading a code array as instructions, one after the other until the window is empty. Jump distances
and the alignment of switches are measured from the start of the code.

* `operand`: the step that reads one operand and names it.
* `TableCheck`, `ensureTable`: what stands in front of the table of a switch.
* `instruction`: the step that reads one instruction.
* `disassemble`: the step that reads a whole code array.
-/

namespace ClassAtlas.Disassembly
set_option autoImplicit false

/-! ## Operands -/

/-- The operand of an instruction at `pc` under its name; a jump distance becomes the target. -/
def nameOperand (pool : Pool) (pc : Nat) (d : Datum) : Except Fault Datum :=
  match d.kind with
  | .branch2 | .branch4 =>
    let target := d.num + pc
    .ok { d with num := target, name := toString target }
  | .constant1 | .constant2 => do
    let c ← pool.lookup d.num d.offset
    pure (d.named (c.payload.tag.name ++ ": " ++ c.name))
  | .local1 | .local2 => .ok (d.named ("@" ++ toString d.num))
  | .arrayType =>
    match Opcode.elementType? d.raw with
    | some name => .ok (d.named name)
    | none =>
      .error { phase := .disassemble, cause := .unknownArrayType d.raw, offset := d.offset }
  | .reserved => .ok d
  | _ => .ok (d.named (toString d.num))

def word (kind : OperandKind) : Reading Datum :=
  if kind.isSigned then Datum.signed kind.width kind else Datum.unsigned kind.width kind

/-- Reads one operand of the instruction at `pc`. -/
def operand (pool : Pool) (pc : Nat) (kind : OperandKind) : Reading Datum := do
  let d ← word kind
  settled (nameOperand pool pc d)

def operands (pool : Pool) (pc : Nat) : List OperandKind → Reading (List Datum)
  | [] => pure []
  | kind :: kinds => do
    let d ← operand pool pc kind
    let ds ← operands pool pc kinds
    pure (d :: ds)

/-! ## What follows an opcode -/

/-- What follows the opcode of an instruction. -/
structure Tail where
  operands : List Datum := []
  hidden : List Datum := []
  switch : Option SwitchTable := none

/-- The operands of an opcode with a fixed row; reserved ones are hidden. -/
def fixedTail (pool : Pool) (pc : Nat) (code : UInt8) : Reading Tail := do
  let ds ← operands pool pc (Opcode.operands code)
  pure { operands := ds.filter (·.kind ≠ .reserved), hidden := ds.filter (·.kind = .reserved) }

/-- The opcode after `wide`, its two-byte variable, and for `iinc` a two-byte increment. -/
def wideTail (pool : Pool) (pc : Nat) : Reading Tail := do
  let d ← Datum.unsigned 1 .opcode
  let code := d.raw.toUInt8
  if Opcode.isWidenable code then do
    let inner := d.named ((Opcode.mnemonic? code).getD "")
    let kinds := if code = Opcode.iinc then [.local2, .s2] else [.local2]
    let ds ← operands pool pc kinds
    pure { operands := inner :: ds }
  else
    throw { phase := .disassemble, cause := .notWidenable code, offset := d.offset }

/-- A step in front of the table of a switch, for the number of its entries and the size of one. -/
abbrev TableCheck := Int → Nat → Reading Unit

/-- Fails unless the window holds a table of `count` entries of `size` bytes. -/
def ensureTable : TableCheck := fun count size w =>
  let need := count * size
  if w.holds need.toNat then .ok ((), w)
  else .error { w.endOfInput need with phase := .disassemble }

/-- The padding and the default target that both forms of switches start with. -/
def switchHead (pool : Pool) (base pc : Nat) : Reading (List Datum × Datum) := do
  let pad ← Datum.align base 4
  let default ← operand pool pc .branch4
  pure (if 0 < pad.width then [pad] else [], default)

section

variable (check : TableCheck)

/-- The targets for the keys from `low` to `high`. -/
def rangeTargets (pool : Pool) (pc : Nat) (low high : Datum) : Reading (List Datum) :=
  if high.num < low.num then
    throw { phase := .disassemble, cause := .invertedRange low.num high.num, offset := high.offset }
  else do
    let count := high.num - low.num + 1
    check count 4
    repeated count.toNat fun _ => operand pool pc .branch4

/-- One target for each key from a lowest to a highest one. -/
def tableswitchTail (pool : Pool) (base pc : Nat) : Reading Tail := do
  let (hidden, default) ← switchHead pool base pc
  let low ← operand pool pc .s4
  let high ← operand pool pc .s4
  let targets ← rangeTargets check pool pc low high
  pure { hidden := hidden, switch := some (.range default low high targets) }

def switchPair (pool : Pool) (pc : Nat) : Reading (Datum × Datum) := do
  let key ← operand pool pc .s4
  let target ← operand pool pc .branch4
  pure (key, target)

/-- As many pairs as `count` says. -/
def switchPairs (pool : Pool) (pc : Nat) (count : Datum) : Reading (List (Datum × Datum)) :=
  if count.num < 0 then
    throw { phase := .disassemble, cause := .negativePairs count.num, offset := count.offset }
  else do
    check count.num 8
    repeated count.num.toNat fun _ => switchPair pool pc

def lookupswitchTail (pool : Pool) (base pc : Nat) : Reading Tail := do
  let (hidden, default) ← switchHead pool base pc
  let count ← operand pool pc .s4
  let entries ← switchPairs check pool pc count
  pure { hidden := hidden, switch := some (.pairs default count entries) }

/-- What follows an opcode at `pc` in code that starts at `base`. -/
def tail (pool : Pool) (base pc : Nat) (code : UInt8) : Reading Tail :=
  if code = Opcode.tableswitch then tableswitchTail check pool base pc
  else if code = Opcode.lookupswitch then lookupswitchTail check pool base pc
  else if code = Opcode.wide then wideTail pool pc
  else fixedTail pool pc code

/-! ## Code -/

/-- Reads the instruction at the front of the window, in code that starts at `base`. -/
def instruction (pool : Pool) (base : Nat) : Reading Instruction := do
  let opcode ← Datum.unsigned 1 .opcode
  let code := opcode.raw.toUInt8
  let pc := opcode.offset - base
  match Opcode.mnemonic? code with
  | none =>
    throw { phase := .disassemble, cause := .unknownOpcode code, offset := opcode.offset }
  | some mnemonic => do
    let t ← tail check pool base pc code
    let w ← get
    pure { pc := pc, size := w.pos - opcode.offset, opcode := opcode.named mnemonic,
           operands := t.operands, hidden := t.hidden, switch := t.switch }

/-- Reads instructions until the window is empty, at most `limit` of them. -/
def sweep (pool : Pool) (base : Nat) : Nat → Reading (List Instruction)
  | 0 => pure []
  | limit + 1 => do
    let w ← get
    if w.rest.isEmpty then pure []
    else do
      let i ← within ("code@" ++ toString (w.pos - base)) (instruction check pool base)
      let is ← sweep pool base limit
      pure (i :: is)

/-- Reads the code array that fills the window. An instruction has at least one byte, so there are no
more of them than bytes. -/
def disassembleBy (pool : Pool) : Reading (List Instruction) := do
  let w ← get
  sweep check pool w.pos w.remaining

end

/-- Reads the code array that fills the window, with room for every table checked in front of it. -/
def disassemble (pool : Pool) : Reading (List Instruction) :=
  disassembleBy ensureTable pool

end ClassAtlas.Disassembly
