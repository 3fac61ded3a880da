/-! # Documents

A listing is a sequence of fragments: running text, and tokens with a role. How a token looks is up
to the theme; the text itself and its columns are settled before.

* `Role`, `Fragment`, `Document`: what a listing is made of.
* `Theme.render`: the text of a document.
* `Themes`: the themes that a listing is shown in.
-/

namespace ClassAtlas.Listing
set_option autoImplicit false

/-! ## Fragments -/

/-- The role of a token. -/
inductive Role where
  | title
  | heading
  | index
  | tag
  | name
  | flags
  | mnemonic
  | comment
  | offset
  | warning
  deriving DecidableEq

/-- A piece of a listing. -/
inductive Fragment where
  | text (s : String)
  | token (role : Role) (s : String)
  deriving DecidableEq

/-- A listing. -/
abbrev Document := List Fragment

def newline : Fragment := .text "\n"

/-- Documents with a separator between them. -/
def separated (separator : String) : List Document → Document
  | [] => []
  | [d] => d
  | d :: ds => d ++ .text separator :: separated separator ds

/-! ## Themes -/

/-- How tokens look, by their role. -/
structure Theme where
  token : Role → String → String

namespace Theme

variable (theme : Theme)

/-- A fragment as the theme shows it; running text is kept as it is. -/
def fragment : Fragment → String
  | .text s => s
  | .token role s => theme.token role s

def render (d : Document) : String :=
  String.join (d.map theme.fragment)

end Theme

/-- The themes to choose from: one that leaves tokens as they are, and the one for terminals, without
its colours and with them. -/
structure Themes where
  plain : Theme
  padded : Theme
  coloured : Theme

end ClassAtlas.Listing
