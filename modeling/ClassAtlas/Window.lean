import ClassAtlas.Fault
import ClassAtlas.Text.ModifiedUtf8

/-! # Windows

A window is the unread part of a stretch of the input: the bytes that are left, and the offset of the
first of them in the whole input. Reading takes bytes from the front. A part of the input that
declares its own length is read through a window of its own, which ends where the part ends; offsets
stay those of the whole input. Every fault carries the phase of the window.

* `Window`, `Reading`: a window, and a step that reads from it or fails.
* `Window.take n`: the next `n` bytes; fails exactly when `n` is negative or too large.
* `Window.unsigned`, `Window.signed`: big-endian words.
* `Window.text`, `Window.skip`, `Window.align`, `Window.child`: the other steps.
* `within`, `inPhase`, `repeated`: steps made from steps.
* `Stepping`: what a reading that is written once for several kinds of steps needs of them.
-/

namespace ClassAtlas
set_option autoImplicit false

/-- The unread bytes of a stretch of the input, from offset `pos` on. -/
structure Window where
  phase : Phase
  pos : Nat
  rest : List UInt8
  deriving DecidableEq

/-- A step that reads from a window. -/
abbrev Reading := StateT Window (Except Fault)

namespace Window

def ofBytes (bytes : List UInt8) : Window :=
  { phase := .decode, pos := 0, rest := bytes }

def remaining (w : Window) : Nat := w.rest.length

/-- The offset just past the window. -/
def stop (w : Window) : Nat := w.pos + w.remaining

/-- At least `n` bytes are left. -/
def holds (w : Window) (n : Nat) : Bool :=
  n == 0 || !(w.rest.drop (n - 1)).isEmpty

theorem holds_iff (w : Window) (n : Nat) : w.holds n = true ↔ n ≤ w.remaining := by
  simp only [holds, remaining, Bool.or_eq_true, beq_iff_eq, Bool.not_eq_true',
    List.isEmpty_eq_false_iff, ne_eq, List.drop_eq_nil_iff]
  omega

/-- The fault of a read of `need` bytes that the window does not hold. -/
def endOfInput (w : Window) (need : Int) : Fault :=
  { phase := w.phase, cause := .endOfInput need w.remaining, offset := w.pos }

/-! ## Bytes -/

/-- The next `n` bytes. -/
def take (n : Int) : Reading (List UInt8) := fun w =>
  if 0 ≤ n ∧ w.holds n.toNat then
    .ok (w.rest.take n.toNat,
      { w with pos := w.pos + n.toNat, rest := w.rest.drop n.toNat })
  else .error (w.endOfInput n)

def byte : Reading UInt8 := fun w =>
  match w.rest with
  | b :: bs => .ok (b, { w with pos := w.pos + 1, rest := bs })
  | [] => .error (w.endOfInput 1)

/-- Passes over the next `n` bytes. -/
def skip (n : Int) : Reading Unit := do
  let _ ← take n

/-! ## Words -/

/-- The number whose digits in base 256 are the bytes, most significant first. -/
def bigEndian (bs : List UInt8) : Nat :=
  bs.foldl (fun n b => n * 256 + b.toNat) 0

/-- The two's-complement value of `raw` in a word of `bits` bits. -/
def twosComplement (bits raw : Nat) : Int :=
  Int.bmod raw (Nat.pow 2 bits)

/-- Fails with a cause that has no offset. -/
def refuse {α : Type} (cause : Cause) : Reading α := fun w =>
  .error { phase := w.phase, cause := cause }

/-- An unsigned word of 1, 2, 4 or 8 bytes. -/
def unsigned (width : Int) : Reading Nat :=
  if width = 1 ∨ width = 2 ∨ width = 4 ∨ width = 8 then do
    let bs ← take width
    pure (bigEndian bs)
  else refuse .unsignedWidth

/-- The bits of a two's-complement word of 1, 2 or 4 bytes. -/
def signedBits (width : Int) : Reading Nat :=
  if width = 1 ∨ width = 2 ∨ width = 4 then unsigned width else refuse .signedWidth

/-- A two's-complement word of 1, 2 or 4 bytes. -/
def signed (width : Int) : Reading Int := do
  let raw ← signedBits width
  pure (twosComplement (8 * width.toNat) raw)

/-! ## Text, alignment and parts -/

/-- The text of the next `n` bytes, which are modified UTF-8. -/
def text (n : Int) : Reading String := do
  let bs ← take n
  pure (Text.Modified.decode bs)

/-- An integer kept to 64 bits in two's complement. -/
def wrap64 (n : Int) : Int :=
  Int.bmod n (Nat.pow 2 64)

/-- The bytes from `pos` to the next multiple of `boundary`, counted from `base`, in arithmetic of 64
bits with remainders towards zero. -/
def paddingFrom (pos base boundary : Int) : Int :=
  (wrap64 (boundary - (wrap64 (pos - base)).tmod boundary)).tmod boundary

/-- Passes over the bytes up to the next multiple of `boundary`, counted from `base`, and gives their
number. -/
def align (base boundary : Int) : Reading Nat := fun w =>
  if boundary ≤ 0 then refuse .boundary w
  else
    let pad := paddingFrom w.pos base boundary
    (skip pad w).map fun (_, w') => (pad.toNat, w')

/-- The window on the next `n` bytes, over which this one passes. -/
def child (n : Int) : Reading Window := fun w =>
  (take n w).map fun (bs, w') => ({ w with rest := bs }, w')

def setPhase (phase : Phase) : Reading Unit := fun w =>
  .ok ((), { w with phase := phase })

end Window

/-! ## Steps made from steps -/

/-- The step, whose faults are seen from the part `segment` around it. -/
def within {α : Type} (segment : String) (step : Reading α) : Reading α := fun w =>
  (step w).mapError (Fault.within segment)

def inPhase {α : Type} (phase : Phase) (step : Reading α) : Reading α := fun w =>
  (step { w with phase := phase }).map fun (a, w') => (a, { w' with phase := w.phase })

/-- A result that needs no reading. -/
def settled {α : Type} (result : Except Fault α) : Reading α := fun w =>
  result.map (·, w)

/-- `count` steps in turn, numbered from `first`. -/
def repeatedFrom {α : Type} (step : Nat → Reading α) (first : Nat) : Nat → Reading (List α)
  | 0 => pure []
  | count + 1 => do
    let a ← step first
    let as ← repeatedFrom step (first + 1) count
    pure (a :: as)

/-- `count` steps in turn, numbered from 0. -/
def repeated {α : Type} (count : Nat) (step : Nat → Reading α) : Reading (List α) :=
  repeatedFrom step 0 count

/-- The step on a window of its own, whose faults have the phase `phase`; gives the window after it
too. -/
def onChild {α : Type} (phase : Phase) (child : Window) (step : Reading α) : Reading (α × Window) :=
  settled (step { child with phase := phase })

/-! ## Steps of other kinds -/

/-- A monad in which the steps of a longer reading can be taken one after the other, and named as parts
of it. -/
structure Stepping (m : Type → Type) where
  step {α : Type} : Reading α → m α
  within {α : Type} : String → m α → m α

/-- The steps as they are. -/
def Stepping.reading : Stepping Reading where
  step s := s
  within := ClassAtlas.within

end ClassAtlas
