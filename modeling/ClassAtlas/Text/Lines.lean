/-! # Lines of text

A line ends with a line feed. A carriage return right before it belongs to the line end; any other
carriage return belongs to the line.

* `unifyLineEnds s`: the text with a line feed alone at each line end.
* `linesOf s`: the lines of a text.
-/

namespace ClassAtlas.Text
set_option autoImplicit false

/-- The characters without the carriage returns right before line feeds. -/
def unifyLineEndChars : List Char → List Char
  | [] => []
  | '\r' :: '\n' :: cs => '\n' :: unifyLineEndChars cs
  | c :: cs => c :: unifyLineEndChars cs

/-- The text with a line feed alone at each line end. -/
def unifyLineEnds (s : String) : String :=
  String.ofList (unifyLineEndChars s.toList)

def linesOf (s : String) : List String :=
  (unifyLineEnds s).splitOn "\n"

end ClassAtlas.Text
