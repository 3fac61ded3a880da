import ClassAtlas.Proofs.Disassembly

/-! # Moving a code array

A code array is read in the same way wherever it stands in the file. Offsets are counted from the start
of the file, program counters and alignment from the start of the code, and a step that reads
instructions mixes the two nowhere: from a window that stands further on it does the same, and the only
trace of the move is in the offsets of what it gives.

* `Datum.shift`, `Instruction.shift`, `Fault.shift`: a value, an instruction, a fault, so many bytes
  further on.
* `Moves s f x y`: in a window `s` bytes further on, `y` does what `x` does, and gives the value of `x`
  under `f`.
* `Window.paddingFrom_shift`: padding depends on the distance from the base only.
* `Disassembly.instruction_moves`, `Disassembly.sweep_moves`: one instruction, and a run of them.
* `Disassembly.disassemble_shift`: a code array at an offset, compared with the same code at offset 0.
-/

namespace ClassAtlas
set_option autoImplicit false

/-! ## Things further on -/

def Window.shift (s : Nat) (w : Window) : Window :=
  { w with pos := w.pos + s }

def Datum.shift (s : Nat) (d : Datum) : Datum :=
  { d with offset := d.offset + s }

def Fault.shift (s : Nat) (f : Fault) : Fault :=
  { f with offset := f.offset + s }

def SwitchTable.shift (s : Nat) : SwitchTable → SwitchTable
  | range default low high targets =>
    range (default.shift s) (low.shift s) (high.shift s) (targets.map (Datum.shift s))
  | pairs default count entries =>
    pairs (default.shift s) (count.shift s)
      (entries.map (Prod.map (Datum.shift s) (Datum.shift s)))

/-- The instruction with all its values further on; the program counter and the size are those of the
code, not of the file. -/
def Instruction.shift (s : Nat) (i : Instruction) : Instruction :=
  { i with
    opcode := i.opcode.shift s
    operands := i.operands.map (Datum.shift s)
    hidden := i.hidden.map (Datum.shift s)
    switch := i.switch.map (SwitchTable.shift s) }

def Disassembly.Tail.shift (s : Nat) (t : Tail) : Tail :=
  { operands := t.operands.map (Datum.shift s)
    hidden := t.hidden.map (Datum.shift s)
    switch := t.switch.map (SwitchTable.shift s) }

variable {α β : Type}

/-- The result under `f`, or the fault further on. -/
def shifted (s : Nat) (f : α → β) : Except Fault α → Except Fault β
  | .ok a => .ok (f a)
  | .error e => .error (e.shift s)

/-! ## Steps in a window further on -/

/-- In a window `s` bytes further on, `y` gives what `x` gives, with the value under `f`. -/
def Moves (s : Nat) (f : α → α) (x y : Reading α) : Prop :=
  ∀ w : Window, y (w.shift s) = shifted s (Prod.map f (Window.shift s)) (x w)

namespace Moves

variable {s : Nat} {f : α → α} {g : β → β}

theorem pure {a b : α} (h : b = f a) : Moves s f (pure a) (pure b) := by
  intro w
  subst h
  rfl

theorem throw {e e' : Fault} (h : e' = e.shift s) : Moves s f (throw e) (throw e') := by
  intro w
  subst h
  rfl

theorem get : Moves s (Window.shift s) get get :=
  fun _ => rfl

theorem settled {r r' : Except Fault α} (h : r' = shifted s f r) :
    Moves s f (settled r) (settled r') := by
  intro w
  subst h
  cases r <;> rfl

theorem bind {x y : Reading α} {k l : α → Reading β} (hx : Moves s f x y)
    (hk : ∀ a, Moves s g (k a) (l (f a))) : Moves s g (x >>= k) (y >>= l) := by
  intro w
  have hy := hx w
  simp only [Bind.bind, StateT.bind, hy]
  cases x w with
  | error e => rfl
  | ok r => exact hk r.1 r.2

theorem within {x y : Reading α} (h : Moves s f x y) (segment : String) :
    Moves s f (within segment x) (within segment y) := by
  intro w
  have hy := h w
  simp only [ClassAtlas.within, hy]
  cases x w <;> rfl

/-- The value may be told where it stands. -/
theorem place {x y : Reading α} (h : Moves s id x y) {step step' : Reading β} (make : Nat → α → β)
    (heq : ∀ w, step w = (x w).map fun r => (make w.pos r.1, r.2))
    (heq' : ∀ w, step' w = (y w).map fun r => (make w.pos r.1, r.2))
    (hmake : ∀ pos a, make (pos + s) a = g (make pos a)) : Moves s g step step' := by
  intro w
  have hy := h w
  simp only [heq, heq', hy]
  cases x w with
  | error e => rfl
  | ok r =>
    have hvalue := hmake w.pos r.1
    simp only [shifted, Except.map, Prod.map, id, Window.shift, hvalue]

theorem repeatedFrom {x y : Nat → Reading α} (h : ∀ i, Moves s f (x i) (y i)) (count : Nat) :
    ∀ first, Moves s (List.map f) (repeatedFrom x first count) (repeatedFrom y first count) := by
  induction count with
  | zero => exact fun first => pure rfl
  | succ count ih =>
    intro first
    exact (h first).bind fun a => (ih (first + 1)).bind fun as => pure rfl

theorem repeated {x y : Nat → Reading α} (h : ∀ i, Moves s f (x i) (y i)) (count : Nat) :
    Moves s (List.map f) (repeated count x) (repeated count y) :=
  repeatedFrom h count 0

end Moves

/-! ## Single values -/

section

variable (s : Nat)

namespace Window

theorem take_moves (n : Int) : Moves s id (take n) (take n) := by
  intro w
  have hholds : (w.shift s).holds n.toNat = w.holds n.toNat := rfl
  simp only [take, hholds]
  by_cases h : 0 ≤ n ∧ w.holds n.toNat = true
  · simp only [if_pos h, shifted, Prod.map, id, shift, Nat.add_right_comm]
  · simp only [if_neg h]
    rfl

theorem unsigned_moves {width : Nat} (hw : width = 1 ∨ width = 2 ∨ width = 4 ∨ width = 8) :
    Moves s id (unsigned width) (unsigned width) := by
  have hw' : (width : Int) = 1 ∨ (width : Int) = 2 ∨ (width : Int) = 4 ∨ (width : Int) = 8 := by omega
  rw [unsigned, if_pos hw']
  exact (take_moves s width).bind fun bs => .pure rfl

/-- The padding is that of the distance from the base, wherever the base is. -/
theorem paddingFrom_shift (pos base : Nat) (boundary : Int) :
    paddingFrom (pos + s : Nat) (base + s : Nat) boundary = paddingFrom pos base boundary := by
  have hdistance : ((pos + s : Nat) : Int) - (base + s : Nat) = pos - base := by omega
  rw [paddingFrom, hdistance, paddingFrom]

theorem align_moves (base : Nat) {boundary : Int} (h : 0 < boundary) :
    Moves s id (align base boundary) (align (base + s : Nat) boundary) := by
  intro w
  have hboundary : ¬ boundary ≤ 0 := by omega
  have hpad : paddingFrom (w.shift s).pos (base + s : Nat) boundary = paddingFrom w.pos base boundary :=
    paddingFrom_shift s w.pos base boundary
  have hskip : Moves s id (skip (paddingFrom w.pos base boundary))
      (skip (paddingFrom w.pos base boundary)) := (take_moves s _).bind fun _ => .pure rfl
  have hrun := hskip w
  simp only [align, if_neg hboundary, hpad, hrun]
  cases skip (paddingFrom w.pos base boundary) w <;> rfl

end Window

namespace Datum

theorem unsigned_moves {width : Nat} (hw : width = 1 ∨ width = 2 ∨ width = 4 ∨ width = 8)
    (kind : OperandKind) : Moves s (shift s) (unsigned width kind) (unsigned width kind) := by
  refine (Window.unsigned_moves s hw).place (ofWord width kind) (fun _ => rfl) (fun _ => rfl) ?_
  intro pos raw
  simp only [ofWord, shift]

theorem signed_moves {width : Nat} (hw : width = 1 ∨ width = 2 ∨ width = 4) (kind : OperandKind) :
    Moves s (shift s) (signed width kind) (signed width kind) := by
  have hbits : Moves s id (Window.signedBits width) (Window.signedBits width) := by
    rw [Window.signedBits_eq_unsigned hw]
    exact Window.unsigned_moves s (by omega)
  exact hbits.place (fun pos raw => Datum.mk pos width raw (Window.twosComplement (8 * width) raw) kind
    "" "") (fun _ => rfl) (fun _ => rfl) fun _ _ => rfl

theorem align_moves (base : Nat) {boundary : Int} (h : 0 < boundary) :
    Moves s (shift s) (align base boundary) (align (base + s : Nat) boundary) :=
  (Window.align_moves s base h).place
    (fun pos pad => Datum.mk pos pad 0 pad .padding "" "") (fun _ => rfl) (fun _ => rfl) fun _ _ => rfl

end Datum

/-! ## Operands -/

namespace Disassembly

variable (pool : Pool) (pc : Nat)

theorem word_moves {kind : OperandKind} (h : 0 < kind.width) :
    Moves s (Datum.shift s) (word kind) (word kind) := by
  have hwidth := OperandKind.width_cases h
  unfold word
  split
  · exact Datum.signed_moves s hwidth kind
  · exact Datum.unsigned_moves s (by omega) kind

/-- A name does not tell where the operand stands; the fault of an operand without a name does. -/
theorem nameOperand_shift (d : Datum) :
    nameOperand pool pc (d.shift s) = shifted s (Datum.shift s) (nameOperand pool pc d) := by
  obtain ⟨offset, width, raw, num, kind, name, str⟩ := d
  cases kind with
  | constant1 | constant2 =>
    simp only [nameOperand, Datum.shift, Pool.lookup]
    cases pool.entry? num <;> rfl
  | arrayType =>
    simp only [nameOperand, Datum.shift]
    cases Opcode.elementType? raw <;> rfl
  | _ => rfl

theorem operand_moves {kind : OperandKind} (h : 0 < kind.width) :
    Moves s (Datum.shift s) (operand pool pc kind) (operand pool pc kind) :=
  (word_moves s h).bind fun d => .settled (nameOperand_shift s pool pc d)

theorem operands_moves {kinds : List OperandKind} (h : ∀ kind ∈ kinds, 0 < kind.width) :
    Moves s (List.map (Datum.shift s)) (operands pool pc kinds) (operands pool pc kinds) := by
  induction kinds with
  | nil => exact .pure rfl
  | cons kind kinds ih =>
    have hkinds := List.forall_mem_cons.1 h
    exact (operand_moves s pool pc hkinds.1).bind fun d => (ih hkinds.2).bind fun ds => .pure rfl

/-! ## What follows an opcode -/

theorem filter_shift (p : OperandKind → Bool) (ds : List Datum) :
    (ds.map (Datum.shift s)).filter (fun d => p d.kind) =
      (ds.filter fun d => p d.kind).map (Datum.shift s) := by
  rw [List.filter_map]
  rfl

theorem fixedTail_moves (code : UInt8) :
    Moves s (Tail.shift s) (fixedTail pool pc code) (fixedTail pool pc code) := by
  refine (operands_moves s pool pc operands_width).bind fun ds => .pure ?_
  have hshown := filter_shift s (fun kind => decide (kind ≠ .reserved)) ds
  have hhidden := filter_shift s (fun kind => decide (kind = .reserved)) ds
  simp only [hshown, hhidden]
  rfl

theorem wideTail_moves : Moves s (Tail.shift s) (wideTail pool pc) (wideTail pool pc) := by
  refine (Datum.unsigned_moves s (.inl rfl) .opcode).bind fun d => ?_
  have hraw : (d.shift s).raw = d.raw := rfl
  simp only [hraw]
  by_cases hwide : Opcode.isWidenable d.raw.toUInt8 = true
  · simp only [if_pos hwide]
    exact (operands_moves s pool pc wideRow_width).bind fun ds => .pure rfl
  · simp only [if_neg hwide]
    exact .throw rfl

theorem ensureTable_moves (count : Int) (size : Nat) :
    Moves s id (ensureTable count size) (ensureTable count size) := by
  intro w
  have hholds : (w.shift s).holds (count * size).toNat = w.holds (count * size).toNat := rfl
  simp only [ensureTable, hholds]
  split <;> rfl

theorem switchHead_moves (base : Nat) :
    Moves s (Prod.map (List.map (Datum.shift s)) (Datum.shift s)) (switchHead pool base pc)
      (switchHead pool (base + s) pc) := by
  refine (Datum.align_moves s base (by decide)).bind fun pad =>
    (operand_moves s pool pc (by decide)).bind fun default => .pure ?_
  show (if 0 < pad.width then _ else _, _) = _
  split <;> rfl

theorem rangeTargets_moves (low high : Datum) :
    Moves s (List.map (Datum.shift s)) (rangeTargets ensureTable pool pc low high)
      (rangeTargets ensureTable pool pc (low.shift s) (high.shift s)) := by
  unfold rangeTargets
  show Moves s _ _ (if high.num < low.num then _ else _)
  split
  · exact .throw rfl
  · exact (ensureTable_moves s _ 4).bind fun _ =>
      .repeated (fun _ => operand_moves s pool pc (by decide)) _

theorem tableswitchTail_moves (base : Nat) :
    Moves s (Tail.shift s) (tableswitchTail ensureTable pool base pc)
      (tableswitchTail ensureTable pool (base + s) pc) :=
  (switchHead_moves s pool pc base).bind fun _ => (operand_moves s pool pc (by decide)).bind fun low =>
    (operand_moves s pool pc (by decide)).bind fun high =>
      (rangeTargets_moves s pool pc low high).bind fun _ => .pure rfl

theorem switchPair_moves :
    Moves s (Prod.map (Datum.shift s) (Datum.shift s)) (switchPair pool pc) (switchPair pool pc) :=
  (operand_moves s pool pc (by decide)).bind fun _ =>
    (operand_moves s pool pc (by decide)).bind fun _ => .pure rfl

theorem switchPairs_moves (count : Datum) :
    Moves s (List.map (Prod.map (Datum.shift s) (Datum.shift s))) (switchPairs ensureTable pool pc count)
      (switchPairs ensureTable pool pc (count.shift s)) := by
  unfold switchPairs
  show Moves s _ _ (if count.num < 0 then _ else _)
  split
  · exact .throw rfl
  · exact (ensureTable_moves s _ 8).bind fun _ => .repeated (fun _ => switchPair_moves s pool pc) _

theorem lookupswitchTail_moves (base : Nat) :
    Moves s (Tail.shift s) (lookupswitchTail ensureTable pool base pc)
      (lookupswitchTail ensureTable pool (base + s) pc) :=
  (switchHead_moves s pool pc base).bind fun _ => (operand_moves s pool pc (by decide)).bind fun count =>
    (switchPairs_moves s pool pc count).bind fun _ => .pure rfl

theorem tail_moves (base : Nat) (code : UInt8) :
    Moves s (Tail.shift s) (tail ensureTable pool base pc code)
      (tail ensureTable pool (base + s) pc code) := by
  unfold tail
  split
  · exact tableswitchTail_moves s pool pc base
  split
  · exact lookupswitchTail_moves s pool pc base
  split
  · exact wideTail_moves s pool pc
  · exact fixedTail_moves s pool pc code

/-! ## Code -/

/-- The program counter is a difference of two offsets, which moves along with both. -/
theorem instruction_moves (base : Nat) :
    Moves s (Instruction.shift s) (instruction ensureTable pool base)
      (instruction ensureTable pool (base + s)) := by
  refine (Datum.unsigned_moves s (.inl rfl) .opcode).bind fun opcode => ?_
  have hpc : (opcode.shift s).offset - (base + s) = opcode.offset - base :=
    Nat.add_sub_add_right _ _ _
  have hraw : (opcode.shift s).raw = opcode.raw := rfl
  simp only [hpc, hraw]
  cases Opcode.mnemonic? opcode.raw.toUInt8 with
  | none => exact .throw rfl
  | some mnemonic =>
    refine (tail_moves s pool _ base _).bind fun t => Moves.get.bind fun w => .pure ?_
    have hsize : (w.shift s).pos - (opcode.shift s).offset = w.pos - opcode.offset :=
      Nat.add_sub_add_right _ _ _
    simp only [hsize]
    rfl

theorem sweep_moves (base limit : Nat) :
    Moves s (List.map (Instruction.shift s)) (sweep ensureTable pool base limit)
      (sweep ensureTable pool (base + s) limit) := by
  induction limit with
  | zero => exact .pure rfl
  | succ limit ih =>
    refine Moves.get.bind fun w => ?_
    have hpc : (w.shift s).pos - (base + s) = w.pos - base := Nat.add_sub_add_right _ _ _
    have hrest : (w.shift s).rest = w.rest := rfl
    simp only [hpc, hrest]
    split
    · exact .pure rfl
    · exact ((instruction_moves s pool base).within _).bind fun i => ih.bind fun is => .pure rfl

/-- **Where the code stands.** Read at an offset, a code array gives what it gives at offset 0: the same
instructions with each of their values that much further on, and the same fault at an offset that much
further on. Program counters, sizes, padding, names, numbers, targets, tables, and of a fault the phase,
the cause and the path, do not depend on the offset. -/
theorem disassemble_shift (phase : Phase) (code : List UInt8) :
    disassemble pool ⟨phase, s, code⟩ =
      shifted s (Prod.map (List.map (Instruction.shift s)) (Window.shift s))
        (disassemble pool ⟨phase, 0, code⟩) := by
  have hmoves := sweep_moves s pool 0 code.length ⟨phase, 0, code⟩
  simp only [Window.shift, Nat.zero_add] at hmoves
  exact hmoves

end Disassembly

end

end ClassAtlas
