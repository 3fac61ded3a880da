import ClassAtlas.Constant

/-! # The constant pool

The constants of a class file by index. Slot 0 is never used, and neither is the slot after an entry
that occupies two; the slots in use are populated.

* `Pool`, `Pool.entry?`: the pool and its entries.
* `Pool.lookup`: the entry that a reference asks for, or the fault of a dangling reference.
* `Pool.refer`, `Pool.referOptional`, `Pool.referText`: a reference named after its entry.
* `Pool.slotSteps`, `Pool.entrySteps`: the entries read step by step, not yet named.
* `Pool.readSlots`, `Pool.read`: the entries read in one step.
-/

namespace ClassAtlas
set_option autoImplicit false

/-- The declared count, and one slot for each index below it. -/
structure Pool where
  count : Datum
  slots : Array (Option Constant)
  deriving DecidableEq

namespace Pool

/-! ## Entries -/

/-- The entry of a populated slot. -/
def entry? (pool : Pool) (index : Int) : Option Constant :=
  if 0 < index then pool.slots[index.toNat]?.join else none

/-- The populated entries in index order. -/
def constants (pool : Pool) : List Constant :=
  pool.slots.toList.filterMap id

/-- The entry with an index that stands at `offset` in the file. -/
def lookup (pool : Pool) (index offset : Int) : Except Fault Constant :=
  match pool.entry? index with
  | some c => .ok c
  | none =>
    .error { phase := .resolve, cause := .danglingReference index, offset := offset }

/-- The entry with an index that stands nowhere in the file. -/
def get (pool : Pool) (index : Int) : Except Fault Constant :=
  pool.lookup index (-1)

/-- The display name of an entry; nothing where there is none. -/
def displayName (pool : Pool) (index : Int) : String :=
  match pool.entry? index with
  | some c => c.name
  | none => ""

/-! ## References -/

/-- The reference named after the entry it holds the index of. -/
def refer (pool : Pool) (d : Datum) : Except Fault Datum := do
  let c ← pool.lookup d.num d.offset
  pure (d.named c.name)

/-- A reference where index 0 means that there is none; it is then named `absent`. -/
def referOptional (pool : Pool) (absent : String) (d : Datum) : Except Fault Datum :=
  if d.num = 0 then .ok (d.named absent) else pool.refer d

/-- The text of the Utf8 entry that a reference holds the index of. -/
def textOf (pool : Pool) (d : Datum) : Except Fault String := do
  let c ← pool.lookup d.num d.offset
  match c.payload with
  | .utf8 _ bytes => pure bytes.str
  | p =>
    throw { phase := .resolve, cause := .wrongTag d.num p.tag .utf8, offset := d.offset }

/-- A reference to a Utf8 entry, named after its text. -/
def referText (pool : Pool) (d : Datum) : Except Fault Datum := do
  let s ← pool.textOf d
  pure (d.named s)

def readReference (pool : Pool) : Reading Datum := do
  let d ← Datum.u2
  settled (pool.refer d)

/-- Reads a reference where index 0 means that there is none. -/
def readOptional (pool : Pool) (absent : String) : Reading Datum := do
  let d ← Datum.u2
  settled (pool.referOptional absent d)

/-! ## Reading the entries -/

section

variable {m : Type → Type} [Monad m] (r : Stepping m)

/-- The next `count` slots, of which the first has this index. -/
def slotSteps (index : Nat) : Nat → m (List (Option Constant))
  | 0 => pure []
  | count + 1 => do
    let c ← r.within ("#" ++ toString index) (Constant.steps r index)
    if c.isWide then
      match count with
      | 0 => pure [some c]
      | count + 1 => do
        let slots ← slotSteps (index + 2) count
        pure (some c :: none :: slots)
    else do
      let slots ← slotSteps (index + 1) count
      pure (some c :: slots)

/-- The count and the entries, not yet named. -/
def entrySteps : m Pool := do
  let count ← r.within "constant_pool_count" (r.step Datum.u2)
  match count.num.toNat with
  | 0 => pure { count := count, slots := #[] }
  | n + 1 => do
    let slots ← slotSteps r 1 n
    pure { count := count, slots := (none :: slots).toArray }

end

def readSlots (index count : Nat) : Reading (List (Option Constant)) :=
  slotSteps .reading index count

def read : Reading Pool :=
  inPhase .constantPool (entrySteps .reading)

end Pool

end ClassAtlas
