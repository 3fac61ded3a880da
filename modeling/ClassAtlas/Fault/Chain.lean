import ClassAtlas.Fault

/-! # Chains of errors

An error may have another error as its cause, and so on: a chain, outermost link first. A link is a
fault of this library or a note in plain words. A fault shows its cause in its text; a note is shown
as it is.

* `Chain.message`: the text of the outermost link.
* `Chain.within`: the chain seen from an enclosing part, which the outermost fault records.
* `Pattern`, `Chain.isA`: what kind of fault a chain holds.
-/

namespace ClassAtlas
set_option autoImplicit false

/-- One error of a chain. -/
inductive Link where
  | fault (f : Fault)
  | note (text : String)
  deriving DecidableEq

/-- An error, its cause, the cause of that, and so on. The empty chain is no error. -/
abbrev Chain := List Link

/-- What to look for in a chain: a kind, and a phase unless it is unspecified. -/
structure Pattern where
  kind : Kind
  phase : Phase := .unspecified
  deriving DecidableEq

/-- The fault has the kind and, unless the pattern leaves it open, the phase of the pattern. -/
def Fault.fits (f : Fault) (p : Pattern) : Bool :=
  if p.phase = .unspecified then f.kind = p.kind else f.phase = p.phase && f.kind = p.kind

def Fault.pattern (f : Fault) : Pattern :=
  { kind := f.kind, phase := f.phase }

namespace Link

def fault? : Link → Option Fault
  | .fault f => some f
  | .note _ => none

def fits (p : Pattern) : Link → Bool
  | .fault f => f.fits p
  | .note _ => false

end Link

namespace Chain

/-- The chain of a fault without a cause. -/
def ofFault (f : Fault) : Chain := [.fault f]

/-- The text of the outermost link; a fault adds the text of its cause. -/
def message : Chain → String
  | [] => ""
  | .note text :: _ => text
  | [.fault f] => f.headline
  | .fault f :: causes => f.headline ++ " (caused by: " ++ message causes ++ ")"

/-- The chain with `segment` put in front of the path of its outermost fault. -/
def within (segment : String) : Chain → Chain
  | [] => []
  | .fault f :: causes => .fault (f.within segment) :: causes
  | .note text :: causes => .note text :: within segment causes

def fault? (chain : Chain) : Option Fault :=
  chain.findSome? Link.fault?

def isA (chain : Chain) (p : Pattern) : Bool :=
  chain.any (·.fits p)

def load (detail : String) (cause : Chain) : Chain :=
  .fault { phase := .load, cause := .reported .invalidInput detail .nothing } :: cause

end Chain

end ClassAtlas
