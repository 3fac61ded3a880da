import ClassAtlas.Fault.Chain

/-! # Shared errors

Errors that are kept have an identity: one error may be the cause of several others, and what is
added to it is seen through all of them. A registry numbers its errors in the order in which they
come up, so that the cause of an error has a smaller number and every chain ends.

* `Registry`: the errors, each after its cause; `Registry.add` keeps one more.
* `Registry.trail id`: the numbers along the chain of an error, `Registry.chain id` its links.
* `Registry.within`: adds a path segment to the outermost fault of a chain, in place;
  `Registry.enclose` does it where there may be no error.
* `Registry.isA`, `Registry.isSame`: whether a chain holds a fault of some kind, or a certain error.
* `Target`, `Registry.is`: what an error can be compared with, and whether it is that.
-/

namespace ClassAtlas
set_option autoImplicit false

/-- An error that is kept, with the number of its cause. -/
structure KeptError where
  link : Link
  cause : Option Nat
  deriving DecidableEq

/-- Adds a path segment to one error if it is a fault. -/
def KeptError.extend (segment : String) (e : KeptError) : KeptError :=
  match e.link with
  | .fault f => { e with link := .fault (f.within segment) }
  | .note _ => e

/-! ## Errors in order -/

/-- Every error comes after its cause. -/
def CausesFirst (errors : Array KeptError) : Prop :=
  ∀ (id : Nat) (e : KeptError), errors[id]? = some e → ∀ cause ∈ e.cause, cause < id

namespace CausesFirst

theorem empty : CausesFirst #[] := by
  intro id e he
  simp at he

theorem push {errors : Array KeptError} (h : CausesFirst errors) {e : KeptError}
    (hcause : ∀ cause ∈ e.cause, cause < errors.size) : CausesFirst (errors.push e) := by
  intro id e' he cause hc
  rw [Array.getElem?_push] at he
  split at he
  · rename_i hid
    cases he
    rw [hid]
    exact hcause cause hc
  · exact h id e' he cause hc

theorem modify {errors : Array KeptError} (h : CausesFirst errors) (i : Nat)
    {change : KeptError → KeptError} (hcause : ∀ e, (change e).cause = e.cause) :
    CausesFirst (errors.modify i change) := by
  intro id e' he cause hc
  rw [Array.getElem?_modify] at he
  split at he
  · obtain ⟨e, hfound, rfl⟩ := Option.map_eq_some_iff.1 he
    rw [hcause] at hc
    exact h id e hfound cause hc
  · exact h id e' he cause hc

end CausesFirst

@[simp] theorem KeptError.cause_extend (segment : String) (e : KeptError) :
    (e.extend segment).cause = e.cause := by
  unfold KeptError.extend
  split
  · rfl
  · rfl

/-- Errors by number, each after its cause. -/
structure Registry where
  errors : Array KeptError := #[]
  causesFirst : CausesFirst errors := by exact CausesFirst.empty

/-- What an error is compared with. -/
inductive Target where
  /-- No error. -/
  | nothing
  /-- An error that is kept, by its number. -/
  | kept (id : Nat)
  /-- A fault that is kept nowhere, by what it asks for. -/
  | fault (p : Pattern)
  deriving DecidableEq

namespace Registry

/-- The registry with one more error, and the number of it. A number that no error has yet is no
cause. -/
def add (r : Registry) (link : Link) (cause : Option Nat) : Registry × Nat :=
  ({ errors := r.errors.push ⟨link, cause.filter (· < r.errors.size)⟩
     causesFirst := r.causesFirst.push fun cause h => by
       simpa using (Option.mem_filter_iff.1 h).2 }, r.errors.size)

def link? (r : Registry) (id : Nat) : Option Link :=
  r.errors[id]?.map (·.link)

def cause? (r : Registry) (id : Nat) : Option Nat :=
  r.errors[id]?.bind (·.cause)

/-- The fault that an error is, unless it is a note. -/
def faultAt? (r : Registry) (id : Nat) : Option Fault :=
  (r.link? id).bind Link.fault?

theorem cause?_lt (r : Registry) {id cause : Nat} (h : r.cause? id = some cause) : cause < id := by
  obtain ⟨e, he, hc⟩ := Option.bind_eq_some_iff.1 h
  exact r.causesFirst id e he cause hc

/-! ## Chains -/

/-- The numbers along the chain of an error, from the error itself to the last cause. -/
def trail (r : Registry) (id : Nat) : List Nat :=
  id :: match h : r.cause? id with
    | some cause =>
      have := r.cause?_lt h
      r.trail cause
    | none => []
termination_by id

def chain (r : Registry) (id : Nat) : Chain :=
  (r.trail id).filterMap r.link?

/-- The number of the outermost fault in the chain of an error. -/
def fault? (r : Registry) (id : Nat) : Option Nat :=
  (r.trail id).find? fun i => (r.faultAt? i).isSome

/-! ## Paths -/

/-- Puts `segment` in front of the path of the outermost fault in the chain of an error. Every chain
through that fault shows it. -/
def within (r : Registry) (segment : String) (id : Nat) : Registry :=
  match r.fault? id with
  | some i =>
    { errors := r.errors.modify i (·.extend segment)
      causesFirst := r.causesFirst.modify i (KeptError.cause_extend segment) }
  | none => r

/-- An error, if there is one, as seen from the part `segment` around it. -/
def enclose (r : Registry) (err : Option Nat) (segment : String) : Registry :=
  match err with
  | some id => r.within segment id
  | none => r

/-! ## Comparisons -/

/-- Some fault in the chain of an error fits the pattern. -/
def isA (r : Registry) (id : Nat) (p : Pattern) : Bool :=
  (r.chain id).isA p

/-- The chain of an error holds the error `target`, or a fault that fits it. -/
def isSame (r : Registry) (id target : Nat) : Bool :=
  (r.trail id).contains target ||
    match r.faultAt? target with
    | some f => r.isA id f.pattern
    | none => false

/-- The chain of `err` holds the target, or a fault that fits it. No error is only no error. -/
def is (r : Registry) (err : Option Nat) (target : Target) : Bool :=
  match err, target with
  | some id, .kept target => r.isSame id target
  | some id, .fault p => r.isA id p
  | none, .nothing => true
  | _, _ => false

end Registry

end ClassAtlas
