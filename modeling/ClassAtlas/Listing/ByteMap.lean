import ClassAtlas.ClassFile.Spans
import ClassAtlas.Listing.Document
import ClassAtlas.Text.Numeral

/-! # The byte map

* `byteMap`: every span of a class file with its first bytes, one on each line.
-/

namespace ClassAtlas.Listing
set_option autoImplicit false

/-- The number of bytes that a line of the byte map shows. -/
def shownBytes : Nat := 8

/-- The first bytes in hexadecimal digits, and two dots if there are more. -/
def leadingBytes (bytes : List UInt8) : String :=
  Text.hexBytes (bytes.take shownBytes) ++ if shownBytes < bytes.length then ".." else ""

/-- The line of one span: offset, width, first bytes and description. -/
def spanLine (bytes : Array UInt8) (d : Datum) : Document :=
  [.token .offset (Text.hex 8 d.offset),
    .text (" " ++ Text.justifyRight 4 (toString d.width) ++ "  "
      ++ Text.justifyLeft 18 (leadingBytes (bytes.extract d.offset d.stop).toList) ++ " " ++ d.label),
    newline]

/-- The spans of a class file over the bytes it was read from. -/
def byteMap (cf : ClassFile) (bytes : List UInt8) : Document :=
  let bytes := bytes.toArray
  [.token .heading "Byte map:", newline] ++ cf.spans.flatMap (spanLine bytes)

end ClassAtlas.Listing
