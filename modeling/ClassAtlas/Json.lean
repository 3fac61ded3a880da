import ClassAtlas.Text.Numeral

/-! # JSON documents

Records keep the order of their fields. A document is written with one item on each line, two spaces
for each level; empty lists and records are written in place. In texts the characters `<`, `>`, `&`
and the two Unicode line separators are escaped as well as those that the format asks for.

* `Json`: a document.
* `Json.render`: its text.
-/

namespace ClassAtlas
set_option autoImplicit false

/-- A JSON document. -/
inductive Json where
  | null
  | number (n : Int)
  | text (s : String)
  | list (items : List Json)
  | record (fields : List (String × Json))

namespace Json

def escapeChar (c : Char) : String :=
  if c = '"' then "\\\""
  else if c = '\\' then "\\\\"
  else if c = '\n' then "\\n"
  else if c = '\r' then "\\r"
  else if c = '\t' then "\\t"
  else if c.toNat = 0x08 then "\\b"
  else if c.toNat = 0x0c then "\\f"
  else if c.toNat < 0x20 ∨ c = '<' ∨ c = '>' ∨ c = '&' ∨ c.toNat = 0x2028 ∨ c.toNat = 0x2029 then
    "\\u" ++ Text.hex 4 c.toNat
  else c.toString

def quoted (s : String) : String :=
  "\"" ++ String.join (s.toList.map escapeChar) ++ "\""

/-- Items on lines of their own between two brackets; none of them leave the brackets together. -/
def bracketed (left right indent : String) (items : List String) : String :=
  if items.isEmpty then left ++ right
  else left ++ "\n" ++ ",\n".intercalate (items.map (indent ++ "  " ++ ·)) ++ "\n" ++ indent ++ right

mutual

/-- The text of a document whose lines after the first start with `indent`. -/
def renderAt (indent : String) : Json → String
  | null => "null"
  | number n => toString n
  | text s => quoted s
  | list items => bracketed "[" "]" indent (renderItems (indent ++ "  ") items)
  | record fields => bracketed "\x7b" "\x7d" indent (renderFields (indent ++ "  ") fields)

def renderItems (indent : String) : List Json → List String
  | [] => []
  | j :: js => j.renderAt indent :: renderItems indent js

def renderFields (indent : String) : List (String × Json) → List String
  | [] => []
  | (key, j) :: fields => (quoted key ++ ": " ++ j.renderAt indent) :: renderFields indent fields

end

def render (j : Json) : String :=
  j.renderAt ""

end Json

end ClassAtlas
