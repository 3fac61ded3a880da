import ClassAtlas.Browser.Prompt
import ClassAtlas.Browser.Toolkit
import ClassAtlas.Browser.Viewport

/-! # A terminal

The toolkit of a terminal that shows no colours.

* `KeyPress`, `Signal`: what the terminal reports.
* `Prompt.kit`, `Viewport.kit`, `Toolkit.terminal`: the toolkit.
-/

namespace ClassAtlas
set_option autoImplicit false

/-! ## Reports -/

/-- A key press. Characters that arrive at once, as from an input method, are one key press. -/
inductive KeyPress where
  | named (name : String) (alt : Bool)
  | typed (characters : List Char) (alt : Bool)
  | pasted (characters : List Char)
  deriving DecidableEq

namespace KeyPress

/-- What the key is called. The brackets keep pasted characters from being the name of a key. -/
def name : KeyPress → String
  | named name alt => (if alt then "alt+" else "") ++ name
  | typed characters alt => (if alt then "alt+" else "") ++ String.ofList characters
  | pasted characters => "[" ++ String.ofList characters ++ "]"

/-- The characters that the key brings along. -/
def characters : KeyPress → List Char
  | named _ _ => []
  | typed characters _ | pasted characters => characters

/-- The key that is called so: a character, or a key with a name. -/
def ofName (name : String) : KeyPress :=
  match name.toList with
  | [c] => typed [c] false
  | _ => named name false

end KeyPress

/-- What can happen to a window besides keys. -/
inductive Signal where
  | wheelUp
  | wheelDown
  | other
  deriving DecidableEq

/-! ## The toolkit -/

def Prompt.kit : PromptKit KeyPress where
  Prompt := Prompt
  new label hint _ := { label := label, hint := hint }
  focus p := { p with focused := true }
  blur p := { p with focused := false }
  setText := Prompt.setText
  key p k := p.key k.name k.characters
  text := Prompt.text
  focused := Prompt.focused
  picture := Prompt.picture

/-- The lines that one turn of the wheel moves. -/
def wheelLines : Nat := 3

def Viewport.signal (v : Viewport) : Signal → Viewport
  | .wheelUp => v.moveUp wheelLines
  | .wheelDown => v.moveDown wheelLines
  | .other => v

def Viewport.kit : PaneKit KeyPress Signal where
  Pane := Viewport
  new _ height := { height := height.toNat }
  resize v _ height := { v with height := height.toNat }
  setContent := Viewport.setContent
  toTop v := { v with top := 0 }
  key v k := v.key k.name
  signal := Viewport.signal
  content := Viewport.text
  picture := Viewport.picture

/-- A text as the styles of a terminal show it: four spaces for each tab, a line feed alone at each line
end, and room around the title. -/
def Paint.onTerminal (paint : Paint) (s : String) : String :=
  let text := Text.unifyLineEnds (Listing.expandTabs s)
  if paint = .title then Listing.titleRoom ++ text ++ Listing.titleRoom else text

def Toolkit.terminal : Toolkit where
  Key := KeyPress
  Signal := ClassAtlas.Signal
  name := KeyPress.name
  prompts := Prompt.kit
  panes := Viewport.kit
  theme := .padded
  paint := Paint.onTerminal

/-! ## What it can be relied on for -/

theorem Prompt.kit_focusing : Prompt.kit.Focusing where
  new _ _ _ := rfl
  focus _ := rfl
  blur _ := rfl
  key p k := focused_key p k.name k.characters

theorem Prompt.kit_keeping : Prompt.kit.Keeping where
  focus _ := rfl
  blur _ := rfl

theorem Viewport.kit_keeping : Viewport.kit.Keeping where
  setContent := text_setContent
  toTop _ := rfl
  resize _ _ _ := rfl
  key v k := text_key v k.name
  signal v s := by
    cases s with
    | wheelUp => exact text_moveUp v wheelLines
    | wheelDown => exact text_moveDown v wheelLines
    | other => rfl

end ClassAtlas
