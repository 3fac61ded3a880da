import ClassAtlas.Listing.Document

/-! # The themes of a terminal

How the styles of a terminal show a token: tabs become spaces, a title has room around it, and colours
are set by sequences of characters that the terminal takes out of the text.

* `expandTabs`, `inColour`: what styles do to a text.
* `Theme.plain`, `Theme.padded`, `Theme.coloured`, `Themes.terminal`: the themes.
-/

namespace ClassAtlas.Listing
set_option autoImplicit false

/-! ## Styles -/

/-- The text with four spaces for each tab. -/
def expandTabs (s : String) : String :=
  String.ofList (s.toList.flatMap fun c => if c = '\t' then [' ', ' ', ' ', ' '] else [c])

/-- The text between the terminal sequences that start and end a colour. -/
def inColour (parameters s : String) : String :=
  "\x1b[" ++ parameters ++ "m" ++ s ++ "\x1b[0m"

/-- The parameters of the terminal sequence that a role starts with. -/
def Role.colour : Role → String
  | title => "1;38;2;250;250;250;48;2;125;86;243"
  | heading => "1;38;2;125;86;243"
  | index => "38;2;102;102;102"
  | tag => "38;2;135;206;235"
  | name => "38;2;152;251;152"
  | flags => "38;2;255;213;128"
  | mnemonic => "1;38;2;135;206;235"
  | comment => "38;2;102;102;102"
  | offset => "38;2;144;238;144"
  | warning => "38;2;255;107;107"

def titleRoom : String := " "

def titleBackground : String := "48;2;125;86;243"

/-! ## Themes -/

namespace Theme

def plain : Theme where
  token _ s := expandTabs s

def padded : Theme where
  token role s :=
    if role = .title then titleRoom ++ expandTabs s ++ titleRoom else expandTabs s

def coloured : Theme where
  token role s :=
    let inner := inColour role.colour (expandTabs s)
    if role = .title then
      inColour titleBackground titleRoom ++ inner ++ inColour titleBackground titleRoom
    else inner

end Theme

def Themes.terminal : Themes where
  plain := .plain
  padded := .padded
  coloured := .coloured

end ClassAtlas.Listing
