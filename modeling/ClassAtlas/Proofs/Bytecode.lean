import ClassAtlas.Instruction.Disassembly
import ClassAtlas.Proofs.Word

/-! # Bytecode

The grammar of code arrays. An instruction is written as an opcode with the operands of its row, as
`wide` with a widened row, or as one of the two switches, whose padding depends on the program
counter. A code array is a sequence of instructions, each at the program counter where the one before
it ends.

* `Operand`, `Op`: an operand and an instruction as they are written.
* `Op.Legal pool pc`: the instruction may stand at `pc`.
* `Op.bytes`: how it is written.
* `Op.place pool base pc`: the decoded instruction, in code that starts at `base`.
* `Op.Shown pc`: a decoded instruction says what the written one says.
* `Bytecode.LegalFrom`, `Bytecode.bytes`, `Bytecode.placeFrom`, `Bytecode.ShownFrom`: the same for
  sequences.
-/

namespace ClassAtlas
set_option autoImplicit false

/-! ## Operands -/

/-- An operand as it is written: its kind, and the number that its bytes mean. A jump operand means
the distance. -/
structure Operand where
  kind : OperandKind
  value : Int
  deriving DecidableEq

namespace Operand

/-- The number has a place in the bytes of the kind. -/
def InRange (o : Operand) : Prop :=
  if o.kind.isSigned then Word.Fits o.kind.width o.value
  else 0 ≤ o.value ∧ o.value < 256 ^ o.kind.width

/-- References hold the index of a populated slot, and element types are those of primitive
arrays. -/
structure Legal (pool : Pool) (o : Operand) : Prop where
  inRange : o.InRange
  populated : o.kind.isConstant = true → (pool.entry? o.value).isSome = true
  elementType : o.kind = .arrayType → 4 ≤ o.value ∧ o.value ≤ 11

def bytes (o : Operand) : List UInt8 :=
  Word.bytes o.kind.width (Word.bits o.kind.width o.value)

/-- The number that the listing shows: of a jump operand, the target. -/
def shown (pc : Nat) (o : Operand) : Int :=
  if o.kind.isBranch then pc + o.value else o.value

/-- The name of an operand of an instruction at `pc`. -/
def name (pool : Pool) (pc : Nat) (o : Operand) : String :=
  match o.kind with
  | .constant1 | .constant2 =>
    match pool.entry? o.value with
    | some c => c.payload.tag.name ++ ": " ++ c.name
    | none => ""
  | .local1 | .local2 => "@" ++ toString o.value
  | .arrayType => (Opcode.elementType? o.value.toNat).getD ""
  | .reserved => ""
  | _ => toString (o.shown pc)

/-- The value of an operand that stands at an offset. -/
def place (pool : Pool) (pc pos : Nat) (o : Operand) : Datum :=
  { offset := pos, width := o.kind.width, raw := Word.bits o.kind.width o.value, num := o.shown pc,
    kind := o.kind, name := o.name pool pc }

/-- Operands of an instruction at `pc`. -/
def format (pool : Pool) (pc : Nat) : Format Operand Datum where
  legal := Legal pool
  bytes := bytes
  place := place pool pc

/-- Operands of one kind, given by their numbers. -/
def formatOf (pool : Pool) (pc : Nat) (kind : OperandKind) : Format Int Datum where
  legal v := Legal pool ⟨kind, v⟩
  bytes v := bytes ⟨kind, v⟩
  place pos v := place pool pc pos ⟨kind, v⟩

end Operand

/-! ## Instructions -/

/-- An instruction as it is written. Jumps are given by their distances. -/
inductive Op where
  /-- An opcode with the operands of its row. -/
  | fixed (code : UInt8) (operands : List Operand)
  /-- `wide` and the opcode it widens, with the operands of the widened row. -/
  | wide (code : UInt8) (operands : List Operand)
  /-- A switch with one distance for each key from `low` to `high`. -/
  | range (padding : List UInt8) (default low high : Int) (distances : List Int)
  /-- A switch with pairs of a key and a distance. -/
  | pairs (padding : List UInt8) (default : Int) (entries : List (Int × Int))
  deriving DecidableEq

namespace Op

/-- The bytes between the opcode of a switch at `pc` and its words: the fewest that bring the words to
a multiple of four, counted from the start of the code. -/
def Aligns (pc : Nat) (padding : List UInt8) : Prop :=
  4 ∣ pc + 1 + padding.length ∧ ∀ n, 4 ∣ pc + 1 + n → padding.length ≤ n

/-- The operands that follow an opcode after `wide`. -/
def wideRow (code : UInt8) : List OperandKind :=
  if code = Opcode.iinc then [.local2, .s2] else [.local2]

/-- The instruction may stand at `pc`. -/
def Legal (pool : Pool) (pc : Nat) : Op → Prop
  | fixed code operands =>
    (Opcode.mnemonic? code).isSome = true ∧ code ≠ Opcode.tableswitch ∧ code ≠ Opcode.lookupswitch
      ∧ code ≠ Opcode.wide ∧ operands.map (·.kind) = Opcode.operands code
      ∧ ∀ o ∈ operands, o.Legal pool
  | wide code operands =>
    Opcode.isWidenable code = true ∧ operands.map (·.kind) = wideRow code
      ∧ ∀ o ∈ operands, o.Legal pool
  | range padding default low high distances =>
    Aligns pc padding ∧ Word.Fits 4 default ∧ Word.Fits 4 low ∧ Word.Fits 4 high ∧ low ≤ high
      ∧ (distances.length : Int) = high - low + 1 ∧ ∀ v ∈ distances, Word.Fits 4 v
  | pairs padding default entries =>
    Aligns pc padding ∧ Word.Fits 4 default ∧ Word.Fits 4 entries.length
      ∧ ∀ e ∈ entries, Word.Fits 4 e.1 ∧ Word.Fits 4 e.2

def code : Op → UInt8
  | fixed code _ => code
  | wide _ _ => Opcode.wide
  | range .. => Opcode.tableswitch
  | pairs .. => Opcode.lookupswitch

def s4 (v : Int) : List UInt8 :=
  Word.bytes 4 (Word.bits 4 v)

/-- How the instruction is written after its opcode. -/
def tailBytes : Op → List UInt8
  | fixed _ operands => operands.flatMap Operand.bytes
  | wide code operands => code :: operands.flatMap Operand.bytes
  | range padding default low high distances =>
    padding ++ (s4 default ++ (s4 low ++ (s4 high ++ distances.flatMap s4)))
  | pairs padding default entries =>
    padding ++ (s4 default ++ (s4 entries.length ++ entries.flatMap fun e => s4 e.1 ++ s4 e.2))

def bytes (op : Op) : List UInt8 :=
  op.code :: op.tailBytes

/-! ## Decoded instructions -/

def opcodeAt (pos : Nat) (code : UInt8) : Datum :=
  (Datum.ofWord 1 .opcode pos code.toNat).named ((Opcode.mnemonic? code).getD "")

/-- The value of padding; no bytes have none. -/
def paddingAt (pos : Nat) (padding : List UInt8) : List Datum :=
  if 0 < padding.length then
    [{ offset := pos, width := padding.length, num := padding.length, kind := .padding }]
  else []

def pairFormat (pool : Pool) (pc : Nat) : Format (Int × Int) (Datum × Datum) where
  legal e := Operand.Legal pool ⟨.s4, e.1⟩ ∧ Operand.Legal pool ⟨.branch4, e.2⟩
  bytes e := s4 e.1 ++ s4 e.2
  place pos e :=
    (Operand.place pool pc pos ⟨.s4, e.1⟩, Operand.place pool pc (pos + 4) ⟨.branch4, e.2⟩)

/-- What follows the opcode of a decoded instruction, from the offset `pos` on. -/
def tailAt (pool : Pool) (pc pos : Nat) : Op → Disassembly.Tail
  | fixed _ operands =>
    let ds := (Operand.format pool pc).placeAll pos operands
    { operands := ds.filter (·.kind ≠ .reserved), hidden := ds.filter (·.kind = .reserved) }
  | wide code operands =>
    { operands := opcodeAt pos code :: (Operand.format pool pc).placeAll (pos + 1) operands }
  | range padding default low high distances =>
    let words := pos + padding.length
    { hidden := paddingAt pos padding
      switch := some (.range (Operand.place pool pc words ⟨.branch4, default⟩)
        (Operand.place pool pc (words + 4) ⟨.s4, low⟩) (Operand.place pool pc (words + 8) ⟨.s4, high⟩)
        ((Operand.formatOf pool pc .branch4).placeAll (words + 12) distances)) }
  | pairs padding default entries =>
    let words := pos + padding.length
    { hidden := paddingAt pos padding
      switch := some (.pairs (Operand.place pool pc words ⟨.branch4, default⟩)
        (Operand.place pool pc (words + 4) ⟨.s4, entries.length⟩)
        ((pairFormat pool pc).placeAll (words + 8) entries)) }

/-- The decoded instruction at `pc`, in code that starts at `base`. -/
def place (pool : Pool) (base pc : Nat) (op : Op) : Instruction :=
  let tail := op.tailAt pool pc (base + pc + 1)
  { pc := pc, size := op.bytes.length, opcode := opcodeAt (base + pc) op.code,
    operands := tail.operands, hidden := tail.hidden, switch := tail.switch }

/-! ## What a decoded instruction shows -/

/-- Kinds and numbers of the operands that the listing shows. The opcode after `wide` is one of
them, and reserved bytes are not. -/
def shownOperands (pc : Nat) : Op → List (OperandKind × Int)
  | fixed _ operands =>
    (operands.filter (·.kind ≠ .reserved)).map fun o => (o.kind, o.shown pc)
  | wide code operands => (.opcode, code.toNat) :: operands.map fun o => (o.kind, o.shown pc)
  | range .. | pairs .. => []

def keys : Op → List Int
  | fixed .. | wide .. => []
  | range _ _ low _ distances => (List.range distances.length).map fun (k : Nat) => low + k
  | pairs _ _ entries => entries.map (·.1)

/-- The distances of the jumps: of the jump operands in order, or of the default and the cases of a
switch. -/
def distances : Op → List Int
  | fixed _ operands | wide _ operands =>
    (operands.filter (·.kind.isBranch)).map (·.value)
  | range _ default _ _ distances => default :: distances
  | pairs _ default entries => default :: entries.map (·.2)

/-- The decoded instruction says what the written one at `pc` says. -/
structure Shown (pc : Nat) (op : Op) (i : Instruction) : Prop where
  pc_eq : i.pc = pc
  size_eq : i.size = op.bytes.length
  mnemonic_eq : Opcode.mnemonic? op.code = some i.mnemonic
  operands_eq : i.operands.map (fun d => (d.kind, d.num)) = op.shownOperands pc
  keys_eq : (i.switch.map fun table => table.cases.map (·.key)).getD [] = op.keys
  targets_eq : i.targets = op.distances.map fun v => (pc : Int) + v

end Op

/-! ## Code arrays -/

namespace Bytecode

/-- Each instruction may stand where the one before it ends. -/
def LegalFrom (pool : Pool) : Nat → List Op → Prop
  | _, [] => True
  | pc, op :: ops => op.Legal pool pc ∧ LegalFrom pool (pc + op.bytes.length) ops

def bytes (ops : List Op) : List UInt8 :=
  ops.flatMap Op.bytes

/-- The decoded instructions, in code that starts at `base`. -/
def placeFrom (pool : Pool) (base : Nat) : Nat → List Op → List Instruction
  | _, [] => []
  | pc, op :: ops => op.place pool base pc :: placeFrom pool base (pc + op.bytes.length) ops

/-- The decoded instructions say what the written ones say, each at the program counter where the one
before it ends. -/
def ShownFrom : Nat → List Op → List Instruction → Prop
  | _, [], [] => True
  | pc, op :: ops, i :: is => op.Shown pc i ∧ ShownFrom (pc + op.bytes.length) ops is
  | _, _, _ => False

def format (pool : Pool) : Format (List Op) (List Instruction) where
  legal := LegalFrom pool 0
  bytes := bytes
  place base := placeFrom pool base 0

end Bytecode

end ClassAtlas
