import ClassAtlas.Listing.Document

/-! # Toolkits

The parts that an interactive picture is put together from: a line that the user edits, a window on a
longer text, and styles. They are parameters here, with what is relied on stated apart; a terminal
brings them along.

* `PromptKit`, `PaneKit`, `Toolkit`: the parts and their operations.
* `PromptKit.Focusing`: who changes the focus of a line.
* `PromptKit.Keeping`, `PaneKit.Keeping`: who leaves the text of a line, and that of a window, as it is.
-/

namespace ClassAtlas
set_option autoImplicit false

/-- Lines of text that the user edits while they have the focus. `Key` is all that is known of a key
press. -/
structure PromptKit (Key : Type) where
  Prompt : Type
  /-- An empty line with its label, the hint that it shows while empty, and its width. -/
  new : String → String → Int → Prompt
  focus : Prompt → Prompt
  blur : Prompt → Prompt
  setText : Prompt → String → Prompt
  key : Prompt → Key → Prompt
  text : Prompt → String
  focused : Prompt → Bool
  /-- What the user sees. -/
  picture : Prompt → String

/-- Windows on a text that may be longer. `Signal` is what can happen to them besides keys, such as a
turn of the mouse wheel. -/
structure PaneKit (Key Signal : Type) where
  Pane : Type
  /-- A window with a width and a height, on no text yet. -/
  new : Int → Int → Pane
  resize : Pane → Int → Int → Pane
  setContent : Pane → String → Pane
  toTop : Pane → Pane
  key : Pane → Key → Pane
  signal : Pane → Signal → Pane
  /-- The text that was given last, if there was one; the picture may show it in another form. -/
  content : Pane → Option String
  /-- What the user sees. -/
  picture : Pane → String

/-- The styles of the picture around a listing. -/
inductive Paint where
  | title
  | chosen
  | failure
  | help
  deriving DecidableEq

/-- All that an interactive picture is put together from. -/
structure Toolkit where
  Key : Type
  Signal : Type
  /-- The name of a key, with the keys that are held down along with it. -/
  name : Key → String
  prompts : PromptKit Key
  panes : PaneKit Key Signal
  theme : Listing.Theme
  paint : Paint → String → String

/-! ## What is relied on -/

/-- A line has the focus from when it is given until it is taken away. -/
structure PromptKit.Focusing {Key : Type} (P : PromptKit Key) : Prop where
  new : ∀ label hint width, P.focused (P.new label hint width) = false
  focus : ∀ p, P.focused (P.focus p) = true
  blur : ∀ p, P.focused (P.blur p) = false
  key : ∀ p k, P.focused (P.key p k) = P.focused p

/-- Only keys and a new text change the text of a line. -/
structure PromptKit.Keeping {Key : Type} (P : PromptKit Key) : Prop where
  focus : ∀ p, P.text (P.focus p) = P.text p
  blur : ∀ p, P.text (P.blur p) = P.text p

/-- A window is on the text that it was given last, however it is moved or resized. -/
structure PaneKit.Keeping {Key Signal : Type} (P : PaneKit Key Signal) : Prop where
  setContent : ∀ p s, P.content (P.setContent p s) = some s
  toTop : ∀ p, P.content (P.toTop p) = P.content p
  resize : ∀ p width height, P.content (P.resize p width height) = P.content p
  key : ∀ p k, P.content (P.key p k) = P.content p
  signal : ∀ p s, P.content (P.signal p s) = P.content p

end ClassAtlas
