/-! # Prompts

A line of text that the user edits: the characters before the cursor and those from it on. It takes
keys only while it has the focus. A key that has no meaning of its own types its characters, but for
those that cannot stand in a line.

* `Prompt`, `Prompt.text`: the line.
* `Prompt.edit`, `Prompt.key`: the line after a key press.
-/

namespace ClassAtlas
set_option autoImplicit false

/-- A line of text with a cursor, its label, and the hint that it shows while it is empty. The
characters before the cursor are kept last one first. -/
structure Prompt where
  label : String := ""
  hint : String := ""
  before : List Char := []
  after : List Char := []
  focused : Bool := false
  deriving DecidableEq

namespace Prompt

def isSpace (c : Char) : Bool :=
  c ∈ [' ', '\u0085', '\u00a0', '\u1680', '\u2028', '\u2029', '\u202f', '\u205f', '\u3000']
    || ('\t' ≤ c && c ≤ '\r') || ('\u2000' ≤ c && c ≤ '\u200a')

/-- What is typed of a character: a space for a tab and for an end of line, and nothing for another
control character or one that could not be read. -/
def typeable (c : Char) : List Char :=
  if c = '\r' ∨ c = '\n' ∨ c = '\t' then [' ']
  else if c < ' ' ∨ ('\x7f' ≤ c ∧ c ≤ '\u009f') ∨ c = '\ufffd' then []
  else [c]

/-- The characters before the cursor without the last word and the spaces after it. One character that
is left at the start goes as well. -/
def dropWord (before : List Char) : List Char :=
  let rest := (before.dropWhile isSpace).dropWhile (!isSpace ·)
  if rest.length = 1 then [] else rest

/-- The number of spaces at the start and of characters in the word after them. -/
def wordLength (cs : List Char) : Nat :=
  cs.length - ((cs.dropWhile isSpace).dropWhile (!isSpace ·)).length

section

variable (p : Prompt)

def text : String :=
  String.ofList (p.before.reverse ++ p.after)

/-- The line with another text. The cursor stays where it is, unless the line was empty or becomes too
short: then it is at the end. -/
def setText (s : String) : Prompt :=
  let cs := s.toList.flatMap typeable
  let cursor := if p.text = "" then cs.length else p.before.length
  { p with before := (cs.take cursor).reverse, after := cs.drop cursor }

/-- The cursor goes over `n` characters towards the start. -/
def back (n : Nat) : Prompt :=
  { p with before := p.before.drop n, after := (p.before.take n).reverse ++ p.after }

/-- The cursor goes over `n` characters towards the end. -/
def forth (n : Nat) : Prompt :=
  { p with before := (p.after.take n).reverse ++ p.before, after := p.after.drop n }

def insert (cs : List Char) : Prompt :=
  { p with before := (cs.flatMap typeable).reverse ++ p.before }

/-- The line after a key with a name that brings the characters along. -/
def edit (name : String) (characters : List Char) : Prompt :=
  match name with
  | "alt+backspace" | "ctrl+w" => { p with before := dropWord p.before }
  | "backspace" | "ctrl+h" => { p with before := p.before.drop 1 }
  | "alt+left" | "ctrl+left" | "alt+b" => p.back (wordLength p.before)
  | "left" | "ctrl+b" => p.back 1
  | "alt+right" | "ctrl+right" | "alt+f" => p.forth (wordLength p.after)
  | "right" | "ctrl+f" => p.forth 1
  | "home" | "ctrl+a" => p.back p.before.length
  | "delete" | "ctrl+d" => { p with after := p.after.drop 1 }
  | "end" | "ctrl+e" => p.forth p.after.length
  | "ctrl+k" => { p with after := [] }
  | "ctrl+u" => { p with before := [] }
  | "alt+delete" | "alt+d" => { p with after := p.after.drop (1 + wordLength (p.after.drop 1)) }
  | "ctrl+v" | "down" | "ctrl+n" | "up" | "ctrl+p" => p
  | _ => p.insert characters

def key (name : String) (characters : List Char) : Prompt :=
  if p.focused then p.edit name characters else p

/-- The label, and the text or the hint. -/
def picture : String :=
  p.label ++ if p.text = "" then p.hint else p.text

end

theorem focused_key (p : Prompt) (name : String) (characters : List Char) :
    (p.key name characters).focused = p.focused := by
  have hedit : (p.edit name characters).focused = p.focused := by
    unfold edit
    split <;> rfl
  unfold key
  split
  · exact hedit
  · rfl

end Prompt

end ClassAtlas
