import ClassAtlas.Browser.Toolkit
import ClassAtlas.Command

/-! # The browser

An interactive look at a class file: a menu of sections, for fields and methods a menu of members,
and a pane with the details. In the constant pool a prompt filters the entries as it is typed. The
prompt, the pane and the styles come from a toolkit.

* `Section`, `Mode`, `Browser`: the state.
* `Browser.detail`: the text of the pane.
* `Event`, `Browser.update`: what can happen, and the state after it.
* `Browser.view`: what the user sees.
-/

namespace ClassAtlas
set_option autoImplicit false

/-! ## State -/

/-- A part of the class file to look at. -/
inductive Section where
  | summary
  | constantPool
  | fields
  | methods
  | attributes
  | bytes
  deriving DecidableEq

namespace Section

def all : List Section := [summary, constantPool, fields, methods, attributes, bytes]

def index : Section → Nat
  | summary => 0
  | constantPool => 1
  | fields => 2
  | methods => 3
  | attributes => 4
  | bytes => 5

def title : Section → String
  | summary => "Summary"
  | constantPool => "Constant pool"
  | fields => "Fields"
  | methods => "Methods"
  | attributes => "Attributes"
  | bytes => "Byte map"

/-- The section above, if there is one. -/
def above : Section → Section
  | summary | constantPool => summary
  | fields => constantPool
  | methods => fields
  | attributes => methods
  | bytes => attributes

/-- The section below, if there is one. -/
def below : Section → Section
  | summary => constantPool
  | constantPool => fields
  | fields => methods
  | methods => attributes
  | attributes | bytes => bytes

def hasMembers : Section → Bool
  | fields | methods => true
  | _ => false

end Section

/-- What the user is doing. -/
inductive Mode where
  | selectSection
  | selectMember
  | detail
  | filter
  deriving DecidableEq

/-- The state of the browser. -/
structure Browser (T : Toolkit) where
  filename : String
  loaded : Option Loaded := none
  failure : Option Chain := none
  mode : Mode := .selectSection
  selected : Section := .summary
  member : Nat := 0
  pane : T.panes.Pane := T.panes.new 80 20
  prompt : T.prompts.Prompt := T.prompts.new "filter: " "tag, name or #index" 40

namespace Browser

variable {T : Toolkit}

/-- The browser of a file that is not loaded yet. -/
def start (filename : String) : Browser T :=
  { filename := filename }

def membersOf (s : Section) (cf : ClassFile) : List Member :=
  if s = .fields then cf.fields else cf.methods

/-- The members of the class to choose from; none before it is loaded. -/
def members (b : Browser T) : List Member :=
  match b.loaded with
  | some l => membersOf b.selected l.classFile
  | none => []

/-- The document of the chosen part of a class file. -/
def document (b : Browser T) (l : Loaded) : Listing.Document :=
  match b.selected with
  | .summary => Listing.summary l.classFile
  | .constantPool => Listing.pool (T.prompts.text b.prompt) l.classFile.pool
  | .fields | .methods =>
    match (membersOf b.selected l.classFile)[b.member]? with
    | some m => Listing.member m
    | none => []
  | .attributes => Listing.attributes "" l.classFile.attributes
  | .bytes => Listing.byteMap l.classFile l.bytes

def detail (b : Browser T) : String :=
  match b.loaded with
  | some l => T.theme.render (b.document l)
  | none => ""

/-! ## Events -/

/-- What can happen. -/
inductive Event (T : Toolkit) where
  /-- The class file is loaded, or cannot be. -/
  | loaded (result : Except Chain Loaded)
  /-- The screen has another size. -/
  | resized (width height : Int)
  /-- A key is pressed. -/
  | key (k : T.Key)
  /-- Anything else, such as a turn of the mouse wheel. -/
  | signal (s : T.Signal)

/-- The lines around the pane: the title and the help. -/
def surroundingLines : Int := 4

/-- The pane shows the text for the current choice. -/
def refresh (b : Browser T) : Browser T :=
  { b with pane := T.panes.setContent b.pane b.detail }

/-- Opens the pane for the current choice, at its top. -/
def openPane (b : Browser T) : Browser T :=
  let b := b.refresh
  { b with pane := T.panes.toTop b.pane, mode := .detail }

/-- Opens what is chosen, once the class is loaded. A section of members opens its menu, unless it has
none. -/
def enter (b : Browser T) : Browser T :=
  if b.loaded.isNone then b
  else
    match b.mode with
    | .selectSection =>
      if b.selected.hasMembers then
        { b with member := 0, mode := if b.members.isEmpty then b.mode else .selectMember }
      else b.openPane
    | .selectMember => b.openPane
    | _ => b

/-- Goes back to where the current view was opened. -/
def back (b : Browser T) : Browser T :=
  match b.mode with
  | .detail => { b with mode := if b.selected.hasMembers then .selectMember else .selectSection }
  | .selectMember => { b with mode := .selectSection }
  | _ => b

/-- A key while a menu is shown. -/
def menuKey (b : Browser T) (name : String) : Browser T :=
  match name, b.mode with
  | "up", .selectSection | "k", .selectSection => { b with selected := b.selected.above }
  | "down", .selectSection | "j", .selectSection => { b with selected := b.selected.below }
  | "up", .selectMember | "k", .selectMember => { b with member := b.member - 1 }
  | "down", .selectMember | "j", .selectMember =>
    if b.member + 1 < b.members.length then { b with member := b.member + 1 } else b
  | _, _ => b

/-- A key while the prompt is open. Enter keeps the filter and escape drops it; both close the
prompt. -/
def filterKey (b : Browser T) (k : T.Key) : Browser T :=
  if T.name k = "enter" then openPane { b with prompt := T.prompts.blur b.prompt }
  else if T.name k = "esc" then
    openPane { b with prompt := T.prompts.blur (T.prompts.setText b.prompt "") }
  else refresh { b with prompt := T.prompts.key b.prompt k }

/-- A key while no prompt is open. -/
def plainKey (b : Browser T) (k : T.Key) : Browser T :=
  if T.name k = "enter" then b.enter
  else if T.name k = "esc" then b.back
  else if b.mode = .detail then
    if T.name k = "/" ∧ b.selected = .constantPool then
      { b with mode := .filter, prompt := T.prompts.focus b.prompt }
    else { b with pane := T.panes.key b.pane k }
  else b.menuKey (T.name k)

/-- The key ends the session. -/
def isQuit (b : Browser T) (name : String) : Bool :=
  name = "ctrl+c" || (name = "q" && b.mode ≠ .filter)

/-- The state after an event, and whether the event ends the session. -/
def update (b : Browser T) : Event T → Browser T × Bool
  | .resized width height =>
    ({ b with pane := T.panes.resize b.pane width (max (height - surroundingLines) 1) }, false)
  | .loaded (.ok l) => ({ b with loaded := some l }, false)
  | .loaded (.error c) => ({ b with failure := some c }, false)
  | .key k =>
    if b.isQuit (T.name k) then (b, true)
    else if b.mode = .filter then (b.filterKey k, false)
    else (b.plainKey k, false)
  | .signal s =>
    (if b.mode = .detail then { b with pane := T.panes.signal b.pane s } else b, false)

/-! ## View -/

/-- An entry of a menu; the chosen one is marked. -/
def menuItem (T : Toolkit) (text : String) (chosen : Bool) : String :=
  (if chosen then T.paint .chosen ("> " ++ text) else "  " ++ text) ++ "\n"

def content (b : Browser T) : String :=
  match b.mode with
  | .selectSection =>
    String.join (Section.all.map fun s => menuItem T s.title (s = b.selected))
      ++ "\n" ++ T.paint .help "↑/↓ select • enter open • q quit"
  | .selectMember =>
    String.join (b.members.zipIdx.map fun (m, i) => menuItem T m.display (i = b.member))
      ++ "\n" ++ T.paint .help "↑/↓ select • enter open • esc back • q quit"
  | .detail =>
    T.panes.picture b.pane ++ "\n"
      ++ T.paint .help (if b.selected = .constantPool then "↑/↓ scroll • / filter • esc back • q quit"
        else "↑/↓ scroll • esc back • q quit")
  | .filter => T.panes.picture b.pane ++ "\n" ++ T.prompts.picture b.prompt

def view (b : Browser T) : String :=
  match b.failure, b.loaded with
  | some c, _ => T.paint .failure ("Error: " ++ c.message ++ "\n\nPress q to quit.")
  | none, none => "Loading class..."
  | none, some l =>
    T.paint .title "Class Viewer" ++ " " ++ b.filename ++ " " ++ l.classFile.name
      ++ "\n\n" ++ b.content

end Browser

end ClassAtlas
