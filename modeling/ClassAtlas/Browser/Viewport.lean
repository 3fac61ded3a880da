import ClassAtlas.Listing.Theme
import ClassAtlas.Text.Lines

/-! # Viewports

A window on lines of text that shows `height` of them from line `top` on. The greatest useful `top`
shows the last line at the bottom; moving keeps to that, while resizing leaves `top` where it is.
The lines that are shown are put together to one text again, so a carriage return at the end of a
line, other than the last one shown, is not shown.

* `Viewport`, `Viewport.lines`, `Viewport.rows`: the window, the lines it is on, and what it shows.
* `Viewport.setContent`: another text.
* `Viewport.moveDown`, `Viewport.moveUp`, `Viewport.key`: scrolling.
-/

namespace ClassAtlas
set_option autoImplicit false

/-- A window on the lines of the text it was given last, if it was given one. -/
structure Viewport where
  height : Nat
  top : Nat := 0
  text : Option String := none
  deriving DecidableEq

namespace Viewport

def lines (v : Viewport) : List String :=
  match v.text with
  | some text => Text.linesOf text
  | none => []

/-- The line at the top when the last line is at the bottom. -/
def maxTop (v : Viewport) : Nat :=
  v.lines.length - v.height

/-- The window on another text. A window past its end moves up to the last lines. -/
def setContent (v : Viewport) (text : String) : Viewport :=
  let v := { v with text := some text }
  if v.lines.length - 1 < v.top then { v with top := v.maxTop } else v

/-- `n` lines further down, unless the last line is shown already. -/
def moveDown (v : Viewport) (n : Nat) : Viewport :=
  if v.maxTop ≤ v.top then v else { v with top := min (v.top + n) v.maxTop }

/-- `n` lines further up. -/
def moveUp (v : Viewport) (n : Nat) : Viewport :=
  if v.top = 0 then v else { v with top := min (v.top - n) v.maxTop }

def key (v : Viewport) (name : String) : Viewport :=
  match name with
  | "down" | "j" => v.moveDown 1
  | "up" | "k" => v.moveUp 1
  | "pgdown" | " " | "f" => v.moveDown v.height
  | "pgup" | "b" => v.moveUp v.height
  | "d" | "ctrl+d" => v.moveDown (v.height / 2)
  | "u" | "ctrl+u" => v.moveUp (v.height / 2)
  | _ => v

/-- The lines that the window shows, filled with empty ones to its height. -/
def rows (v : Viewport) : List String :=
  let shown := Text.linesOf ("\n".intercalate ((v.lines.drop v.top).take v.height))
  shown ++ List.replicate (v.height - shown.length) ""

def picture (v : Viewport) : String :=
  Listing.expandTabs ("\n".intercalate v.rows)

/-! ## Which text it is on -/

theorem text_setContent (v : Viewport) (text : String) : (v.setContent text).text = some text := by
  simp only [setContent]
  split <;> rfl

@[simp] theorem text_moveDown (v : Viewport) (n : Nat) : (v.moveDown n).text = v.text := by
  unfold moveDown
  split <;> rfl

@[simp] theorem text_moveUp (v : Viewport) (n : Nat) : (v.moveUp n).text = v.text := by
  unfold moveUp
  split <;> rfl

theorem text_key (v : Viewport) (name : String) : (v.key name).text = v.text := by
  unfold key
  split
  all_goals simp

end Viewport

end ClassAtlas
