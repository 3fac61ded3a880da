import ClassAtlas.OperandKind
import ClassAtlas.Window

/-! # Data

A datum is one value read from the file, with its place: the byte offset and the width. It keeps the
bits as they stand in the file, the number they mean, and what the listing calls it.

* `Datum`: the value.
* `Datum.unsigned`, `Datum.signed`, `Datum.text`, `Datum.hex`, `Datum.skip`, `Datum.align`: the steps
  that read one.
* `counted`: a count and that many elements.
* `Datum.label`: how the byte map describes it.
-/

namespace ClassAtlas
set_option autoImplicit false

/-- One value of the file. Jump distances hold the absolute target in `num`. -/
structure Datum where
  offset : Nat := 0
  width : Nat := 0
  raw : Nat := 0
  num : Int := 0
  kind : OperandKind := .structural
  name : String := ""
  str : String := ""
  deriving DecidableEq

namespace Datum

/-- The offset just past the datum. -/
def stop (d : Datum) : Nat := d.offset + d.width

def named (d : Datum) (name : String) : Datum :=
  { d with name := name }

/-! ## Reading -/

/-- An unsigned word. In eight bytes the number is the two's-complement one. -/
def unsigned (width : Int) (kind : OperandKind) : Reading Datum := fun w =>
  (Window.unsigned width w).map fun (raw, w') =>
    ({ offset := w.pos, width := width.toNat, raw := raw,
       num := Window.twosComplement 64 raw, kind := kind }, w')

def signed (width : Int) (kind : OperandKind) : Reading Datum := fun w =>
  (Window.signedBits width w).map fun (raw, w') =>
    ({ offset := w.pos, width := width.toNat, raw := raw,
       num := Window.twosComplement (8 * width.toNat) raw, kind := kind }, w')

def u1 : Reading Datum := unsigned 1 .structural

def u2 : Reading Datum := unsigned 2 .structural

def u4 : Reading Datum := unsigned 4 .structural

def u8 : Reading Datum := unsigned 8 .structural

def s4 : Reading Datum := signed 4 .s4

/-- `n` bytes of modified UTF-8, named after their text. -/
def text (n : Int) : Reading Datum := fun w =>
  (Window.text n w).map fun (s, w') =>
    ({ offset := w.pos, width := n.toNat, name := s, str := s }, w')

/-- An unsigned word named after its upper-case hexadecimal digits. -/
def hex (width : Int) : Reading Datum := do
  let d ← unsigned width .structural
  let digits := "0x" ++ Text.hexUpper (2 * width.toNat) d.raw
  pure { d with name := digits, str := digits }

/-- `n` bytes without a meaning of their own. -/
def skip (n : Int) : Reading Datum := fun w =>
  (Window.skip n w).map fun (_, w') => ({ offset := w.pos, width := n.toNat }, w')

/-- The bytes up to the next multiple of `boundary`, counted from `base`. -/
def align (base boundary : Int) : Reading Datum := fun w =>
  (Window.align base boundary w).map fun (pad, w') =>
    ({ offset := w.pos, width := pad, num := pad, kind := .padding }, w')

end Datum

/-- A count in the part `label`, and that many elements, the `i`-th of them in the part `segment i`. -/
def counted {α : Type} (label : String) (segment : Nat → String) (element : Reading α) :
    Reading (Datum × List α) := do
  let count ← within label Datum.u2
  let elements ← repeated count.num.toNat fun i => within (segment i) element
  pure (count, elements)

/-! ## Description -/

namespace Datum

/-- The datum in the words of the byte map: its name or text, else its size when it is wider than a
word, else its number. -/
def label (d : Datum) : String :=
  if d.kind = .padding then "padding"
  else if d.kind = .reserved then "reserved"
  else if d.name ≠ "" then d.name
  else if d.str ≠ "" then d.str
  else if 8 < d.width then toString d.width ++ " bytes"
  else toString d.num

end Datum

end ClassAtlas
