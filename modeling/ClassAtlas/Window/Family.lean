import ClassAtlas.Window

/-! # Families of windows

The windows on one input, in the order in which they were opened: the first is on the whole input,
and each other one was opened by a step on one before it. A step moves the window it is asked of and
no other; a step that fails moves none.

* `Request`, `Reply`: what can be asked of a window, and what it gives.
* `Family.perform`: a step on one window of a family.
* `Family.ask`: a request to one window of a family.
-/

namespace ClassAtlas
set_option autoImplicit false

/-! ## Requests -/

/-- What a window gives. -/
inductive Reply where
  | done
  | byte (b : UInt8)
  | bytes (bs : List UInt8)
  | word (n : Int)
  | text (s : String)
  | padding (n : Nat)
  | opened (w : Window)
  deriving DecidableEq

/-- The window that was opened, if one was. -/
def Reply.opened? : Reply → Option Window
  | opened w => some w
  | _ => none

/-- What can be asked of a window. -/
inductive Request where
  | byte
  | bytes (n : Int)
  | unsigned (width : Int)
  | signed (width : Int)
  | text (n : Int)
  | skip (n : Int)
  | align (base boundary : Int)
  | child (n : Int)
  | setPhase (phase : Phase)
  deriving DecidableEq

def Request.reading : Request → Reading Reply
  | byte => do pure (.byte (← Window.byte))
  | bytes n => do pure (.bytes (← Window.take n))
  | unsigned width => do pure (.word (← Window.unsigned width))
  | signed width => do pure (.word (← Window.signed width))
  | text n => do pure (.text (← Window.text n))
  | skip n => do
    Window.skip n
    pure .done
  | align base boundary => do pure (.padding (← Window.align base boundary))
  | child n => do pure (.opened (← Window.child n))
  | setPhase phase => do
    Window.setPhase phase
    pure .done

/-! ## Families -/

/-- Windows on one input, the oldest first. -/
abbrev Family := List Window

namespace Family

def ofBytes (bytes : List UInt8) : Family := [Window.ofBytes bytes]

/-- The family after a step on its window `i`, and what the step gave, which is nothing when the
family has no such window. A window that the step opened comes last. -/
def perform {α : Type} (opened? : α → Option Window) (step : Reading α) (i : Nat)
    (family : Family) : Family × Option (Except Fault α) :=
  match family[i]? with
  | none => (family, none)
  | some w =>
    match step w with
    | .ok (a, w') => (family.set i w' ++ (opened? a).toList, some (.ok a))
    | .error f => (family, some (.error f))

/-- The family after a request to its window `i`, and the reply. -/
def ask (request : Request) (i : Nat) (family : Family) : Family × Option (Except Fault Reply) :=
  perform Reply.opened? request.reading i family

end Family

end ClassAtlas
