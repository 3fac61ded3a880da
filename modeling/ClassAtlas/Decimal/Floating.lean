import ClassAtlas.Decimal.Shortest

/-! # Text of floating-point numbers

The bits of a binary floating-point number, and its text: the shortest decimal that reads back as
the same number, positional for decimal exponents from -4 to 5 and with an exponent otherwise.

* `Format`: the sizes of the bit fields; `single` and `double`.
* `positional`, `scientific`: the two layouts of a decimal.
* `Format.literal raw`: the text of the number with these bits.
-/

namespace ClassAtlas.Decimal
set_option autoImplicit false

/-! ## Layouts -/

/-- The digits of `n`. -/
def digits (n : Nat) : List Char :=
  Nat.toDigits 10 n

/-- `digits * 10 ^ e` without an exponent. -/
def positional (ds : List Char) (e : Int) : String :=
  if 0 ≤ e then String.ofList (ds ++ List.replicate e.toNat '0')
  else
    let places := (-e).toNat
    let padded := List.replicate (places + 1 - ds.length) '0' ++ ds
    let whole := padded.take (padded.length - places)
    let fraction := padded.drop (padded.length - places)
    String.ofList (whole ++ '.' :: fraction)

/-- `digits * 10 ^ e` with one digit before the point, a signed exponent and at least two digits in
it. -/
def scientific (ds : List Char) (e : Int) : String :=
  let exponent := e + ds.length - 1
  let sign := if exponent < 0 then "-" else "+"
  let size := digits exponent.natAbs
  let fraction := ds.drop 1
  String.ofList (ds.take 1)
    ++ (if fraction.isEmpty then "" else "." ++ String.ofList fraction)
    ++ "e" ++ sign ++ String.ofList (List.replicate (2 - size.length) '0' ++ size)

/-- Positional from ten thousandths up to six digits before the point, otherwise with an exponent. -/
def decimalText (n : Nat) (e : Int) : String :=
  let ds := digits n
  let exponent := e + ds.length - 1
  if exponent < -4 ∨ 6 ≤ exponent then scientific ds e else positional ds e

/-! ## Bit fields -/

/-- A binary floating-point format: a sign bit, an exponent field and a fraction field. -/
structure Format where
  exponentBits : Nat
  fractionBits : Nat

def Format.single : Format := ⟨8, 23⟩

def Format.double : Format := ⟨11, 52⟩

def Format.exponentField (f : Format) (raw : Nat) : Nat :=
  raw / Nat.pow 2 f.fractionBits % Nat.pow 2 f.exponentBits

def Format.fraction (f : Format) (raw : Nat) : Nat :=
  raw % Nat.pow 2 f.fractionBits

def Format.negative (f : Format) (raw : Nat) : Bool :=
  raw / Nat.pow 2 (f.fractionBits + f.exponentBits) % 2 == 1

/-- The power of two that the last bit of the fraction counts in a subnormal number. -/
def Format.leastExponent (f : Format) : Int :=
  2 - (Nat.pow 2 (f.exponentBits - 1) : Int) - (f.fractionBits : Int)

/-- The text of a finite number without its sign. -/
def Format.magnitude (f : Format) (raw : Nat) : String :=
  let field := f.exponentField raw
  let fraction := f.fraction raw
  if field = 0 then
    if fraction = 0 then "0"
    else
      let (n, e) := shortest fraction f.leastExponent false
      decimalText n e
  else
    let m := Nat.pow 2 f.fractionBits + fraction
    let q := f.leastExponent + (field - 1 : Nat)
    let (n, e) := shortest m q (fraction = 0 && 1 < field)
    decimalText n e

def Format.literal (f : Format) (raw : Nat) : String :=
  let negative := f.negative raw
  if f.exponentField raw = Nat.pow 2 f.exponentBits - 1 then
    if f.fraction raw ≠ 0 then "NaN"
    else if negative then "-Inf" else "+Inf"
  else (if negative then "-" else "") ++ f.magnitude raw

end ClassAtlas.Decimal
