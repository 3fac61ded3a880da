import ClassAtlas.Text.Quoted

/-! # Templates

A template is a text with placeholders: `%s` takes a text as it is, `%d` an integer in decimal, `%q`
a text in quotes or the character with that code point in single quotes, and `%%` is a percent sign.
Placeholders take the arguments in order. A placeholder without an argument, or with one of the wrong
sort, is marked in the output, and so are arguments that no placeholder takes.

* `fill template args`: the text with its placeholders replaced.
-/

namespace ClassAtlas.Text
set_option autoImplicit false

/-- An argument of a template. -/
inductive Argument where
  | text (s : String)
  | number (n : Int)

/-- The sort of an argument and its text, as a mark shows them. -/
def Argument.described : Argument → String
  | .text s => "string=" ++ s
  | .number n => "int=" ++ toString n

/-- What the placeholder `verb` makes of an argument. -/
def Argument.shown (verb : Char) : Argument → String
  | .text s =>
    if verb = 's' then s
    else if verb = 'q' then quote (encode s)
    else "%!" ++ verb.toString ++ "(" ++ Argument.described (.text s) ++ ")"
  | .number n =>
    if verb = 'd' then toString n
    else if verb = 'q' then quoteCode n
    else "%!" ++ verb.toString ++ "(" ++ Argument.described (.number n) ++ ")"

/-- The rest of a template, filled with the rest of the arguments. -/
def fillChars : List Char → List Argument → String
  | [], [] => ""
  | [], args => "%!(EXTRA " ++ ", ".intercalate (args.map Argument.described) ++ ")"
  | ['%'], args => "%!(NOVERB)" ++ fillChars [] args
  | '%' :: '%' :: cs, args => "%" ++ fillChars cs args
  | '%' :: verb :: cs, [] => "%!" ++ verb.toString ++ "(MISSING)" ++ fillChars cs []
  | '%' :: verb :: cs, arg :: args => arg.shown verb ++ fillChars cs args
  | c :: cs, args => c.toString ++ fillChars cs args

def fill (template : String) (args : List Argument) : String :=
  fillChars template.toList args

end ClassAtlas.Text
