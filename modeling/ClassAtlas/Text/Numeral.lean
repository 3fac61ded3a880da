/-! # Hexadecimal numerals and columns

* `hex width n`, `hexUpper width n`: the hexadecimal digits of `n`, filled with zeros on the left to
  `width`.
* `hexBytes bs`: two digits for each byte.
* `justifyLeft`, `justifyRight`: a text filled with spaces to a column width, counted in characters.
  A text that is already as wide is kept whole.
-/

namespace ClassAtlas.Text
set_option autoImplicit false

/-! ## Digits -/

/-- `n` in base sixteen with lower-case digits, at least `width` of them. -/
def hex (width n : Nat) : String :=
  let digits := Nat.toDigits 16 n
  String.ofList (List.replicate (width - digits.length) '0' ++ digits)

/-- `n` in base sixteen with upper-case digits, at least `width` of them. -/
def hexUpper (width n : Nat) : String :=
  (hex width n).map Char.toUpper

/-- The bytes, two lower-case digits each. -/
def hexBytes (bs : List UInt8) : String :=
  String.join (bs.map fun b => hex 2 b.toNat)

/-! ## Columns -/

/-- Spaces after the text, up to `width` characters. -/
def justifyLeft (width : Nat) (s : String) : String :=
  s ++ String.ofList (List.replicate (width - s.length) ' ')

/-- Spaces before the text, up to `width` characters. -/
def justifyRight (width : Nat) (s : String) : String :=
  String.ofList (List.replicate (width - s.length) ' ') ++ s

end ClassAtlas.Text
