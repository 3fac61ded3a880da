import ClassAtlas.Text.Numeral
import ClassAtlas.Text.Printable
import ClassAtlas.Text.Utf8

/-! # Quoted text

A byte string between double quotes, or one character between single quotes, in printable characters
only. The quote of that sort and the backslash are escaped, the seven control characters with a
letter of their own use it, other control characters are written `\xHH`, unprintable characters
`\uHHHH` or `\UHHHHHHHH`, and a byte that belongs to no character `\xHH`.

* `quote bs`: the quoted form of a byte string.
* `quoteCode n`: the quoted form of the character with code point `n`.
-/

namespace ClassAtlas.Text
set_option autoImplicit false

/-- One character inside quotes of the sort `mark`. -/
def quoteChar (mark c : Char) : String :=
  if c = mark ∨ c = '\\' then "\\" ++ c.toString
  else if isPrintable c then c.toString
  else if c.toNat = 0x07 then "\\a"
  else if c.toNat = 0x08 then "\\b"
  else if c.toNat = 0x0c then "\\f"
  else if c = '\n' then "\\n"
  else if c = '\r' then "\\r"
  else if c = '\t' then "\\t"
  else if c.toNat = 0x0b then "\\v"
  else if c.toNat < 0x20 ∨ c.toNat = 0x7f then "\\x" ++ hex 2 c.toNat
  else if c.toNat < 0x10000 then "\\u" ++ hex 4 c.toNat
  else "\\U" ++ hex 8 c.toNat

/-- One piece inside double quotes. -/
def quotePiece : Piece → String
  | .char c => quoteChar '"' c
  | .stray b => "\\x" ++ hex 2 b.toNat

def quote (bs : List UInt8) : String :=
  "\"" ++ String.join ((pieces bs).map quotePiece) ++ "\""

def apostrophe : Char := Char.ofNat 0x27

/-- The character with code point `n`; U+FFFD when there is none. -/
def charOfCode (n : Int) : Char :=
  if 0 ≤ n then (scalar? 0 n.toNat).getD replacement else replacement

/-- The character with code point `n` in single quotes. -/
def quoteCode (n : Int) : String :=
  apostrophe.toString ++ quoteChar apostrophe (charOfCode n) ++ apostrophe.toString

end ClassAtlas.Text
