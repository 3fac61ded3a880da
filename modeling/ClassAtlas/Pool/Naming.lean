import ClassAtlas.Descriptor
import ClassAtlas.Pool

/-! # Names of constants

Every constant has a display name: a literal is named after its value, a class after its dotted name,
a member after its declaration, and so on. Some names contain the name of another constant, the
*basis*; there is at most one, and it may stand anywhere in the pool. Names are found on demand and
kept in a ledger, which also marks the entries that wait for the name of their basis. A constant whose
name would contain itself has no name, and the pool is refused.

* `Payload.basis?`: the reference whose name the constant's own name contains.
* `Pool.compose`: the name of a constant, given the name of its basis.
* `Mark`, `Ledger`: how far the naming of the entries has come.
* `Pool.nameEntry`: the name of an entry, with the ledger after it.
* `Pool.resolve`: the pool with every entry and every reference named.
-/

namespace ClassAtlas
set_option autoImplicit false

/-- The reference whose name is part of the name of the constant. -/
def Payload.basis? : Payload → Option Datum
  | fieldref owner _ | methodref owner _ | interfaceMethodref owner _ => some owner
  | methodHandle _ reference => some reference
  | dynamic _ member | invokeDynamic _ member => some member
  | _ => none

/-! ## One name -/

namespace Pool

/-- Name and descriptor of the NameAndType entry that a reference holds the index of. -/
def nameAndTypeOf (pool : Pool) (d : Datum) : Except Fault (String × String) := do
  let c ← pool.lookup d.num d.offset
  match c.payload with
  | .nameAndType name descriptor => do
    let name ← pool.textOf name
    let descriptor ← pool.textOf descriptor
    pure (name, descriptor)
  | p =>
    throw { phase := .resolve, cause := .wrongTag d.num p.tag .nameAndType, offset := d.offset }

/-- The declaration of a member of `owner`. -/
def memberName (pool : Pool) (owner : String) (nameAndType : Datum) : Except Fault String := do
  let (name, descriptor) ← pool.nameAndTypeOf nameAndType
  Descriptor.declaration descriptor (owner ++ "." ++ name)

/-- The name of a constant whose basis has the name `basis`. -/
def compose (pool : Pool) (basis : String) : Payload → Except Fault String
  | .utf8 _ bytes => .ok bytes.str
  | .integer bytes | .float bytes | .long bytes | .double bytes => .ok bytes.name
  | .classInfo name => (pool.textOf name).map Descriptor.dottedName
  | .string text => pool.textOf text
  | .moduleInfo name | .packageInfo name => pool.textOf name
  | .nameAndType name descriptor => do
    let name ← pool.textOf name
    let descriptor ← pool.textOf descriptor
    Descriptor.declaration descriptor name
  | .fieldref _ nameAndType | .methodref _ nameAndType | .interfaceMethodref _ nameAndType =>
    pool.memberName basis nameAndType
  | .methodHandle kind _ => .ok (kind.name ++ " " ++ basis)
  | .methodType descriptor => do
    let descriptor ← pool.textOf descriptor
    Descriptor.declaration descriptor ""
  | .dynamic bootstrap _ | .invokeDynamic bootstrap _ =>
    .ok ("bootstrap_" ++ toString bootstrap.num ++ ": " ++ basis)

end Pool

/-! ## The ledger -/

/-- How far the naming of an entry has come. -/
inductive Mark where
  | unvisited
  | visiting
  | named (name : String)
  deriving DecidableEq

def Mark.name : Mark → String
  | named name => name
  | _ => ""

/-- How far the naming of each slot has come. -/
abbrev Ledger := Array Mark

namespace Ledger

/-- The ledger of a pool of `size` slots before the first name. -/
def blank (size : Nat) : Ledger :=
  Array.replicate size .unvisited

/-- The mark of a slot. Outside of the pool nothing is left to visit. -/
def mark (ledger : Ledger) (index : Nat) : Mark :=
  ledger.getD index .visiting

def put (ledger : Ledger) (index : Nat) (mark : Mark) : Ledger :=
  ledger.setIfInBounds index mark

/-- The number of slots that no naming has come to. -/
def fresh (ledger : Ledger) : Nat :=
  ledger.count .unvisited

theorem lt_size_of_unvisited {ledger : Ledger} {index : Nat}
    (hold : ledger.mark index = .unvisited) : index < ledger.size := by
  by_cases h : index < ledger.size
  · exact h
  · simp [Ledger.mark, Array.getD, h] at hold

theorem fresh_put_lt {ledger : Ledger} {index : Nat} {mark : Mark}
    (hold : ledger.mark index = .unvisited) (hnew : mark ≠ .unvisited) :
    (ledger.put index mark).fresh < ledger.fresh := by
  have hlt := lt_size_of_unvisited hold
  have hat : ledger[index] = .unvisited := by
    simpa [Ledger.mark, Array.getD, hlt] using hold
  have hpos : 0 < ledger.count .unvisited := by
    rw [Array.count_pos_iff, ← hat]
    exact Array.getElem_mem hlt
  simp only [fresh, put, Array.setIfInBounds, hlt, dite_true]
  rw [Array.count_set hlt, hat]
  simp only [beq_self_eq_true, if_true, beq_iff_eq, hnew, if_false]
  omega

end Ledger

/-! ## All names -/

namespace Pool

/-- The name of the entry with an index that stands at `offset`, and the ledger with the names that
were found on the way. An entry that is being visited waits for this name; it must not come up
again. -/
def nameEntry (pool : Pool) (index offset : Int) (ledger : Ledger) :
    Except Fault (String × Ledger) :=
  match pool.lookup index offset with
  | .error f => .error f
  | .ok c =>
    match _hmark : ledger.mark index.toNat with
    | .named name => .ok (name, ledger)
    | .visiting =>
      .error { phase := .resolve, cause := .selfReference index.toNat, offset := offset }
    | .unvisited =>
      match c.payload.basis? with
      | none =>
        match pool.compose "" c.payload with
        | .error f => .error f
        | .ok name => .ok (name, ledger.put index.toNat (.named name))
      | some d =>
        match nameEntry pool d.num d.offset (ledger.put index.toNat .visiting) with
        | .error f => .error f
        | .ok (basis, after) =>
          match pool.compose basis c.payload with
          | .error f => .error f
          | .ok name => .ok (name, after.put index.toNat (.named name))
termination_by ledger.fresh
decreasing_by exact Ledger.fresh_put_lt _hmark (by decide)

/-- The ledger after the naming of slots in turn. The first entry without a name settles the
fault. -/
def nameSlots (pool : Pool) : List (Option Constant) → Ledger → Except Fault Ledger
  | [], ledger => .ok ledger
  | none :: slots, ledger => nameSlots pool slots ledger
  | some c :: slots, ledger =>
    match pool.nameEntry c.index c.tag.offset ledger with
    | .error f => .error (f.within ("#" ++ toString c.index))
    | .ok (_, after) => nameSlots pool slots after

/-- The entry and its references under their names in the ledger. -/
def withName (ledger : Ledger) (c : Constant) : Constant :=
  { c with
    name := (ledger.mark c.index).name
    payload := c.payload.mapReferences fun d => d.named (ledger.mark d.num.toNat).name }

/-- The pool with every entry and every reference named. Entries are named in index order. -/
def resolve (pool : Pool) : Except Fault Pool := do
  let ledger ← pool.nameSlots pool.slots.toList (Ledger.blank pool.slots.size)
  pure { pool with slots := pool.slots.map (Option.map (withName ledger)) }

end Pool

end ClassAtlas
