import ClassAtlas.Tag
import ClassAtlas.Text.Numeral
import ClassAtlas.Text.Quoted

/-! # Faults

What went wrong with an input: the phase of the work, the cause, the path to the part of the file
that was being read, and the byte offset. The cause settles the kind, the detail and the offending
value of the fault; the wording is given here once.

* `Phase`, `Kind`: open sets of labels, with the labels of this library.
* `Cause`: everything that can go wrong.
* `Fault`, `Fault.within`: a fault, and the same fault seen from the enclosing part.
* `Fault.headline`: its text.
-/

namespace ClassAtlas
set_option autoImplicit false

/-! ## Labels -/

/-- Where in the work a fault arose. -/
structure Phase where
  label : String
  deriving DecidableEq

namespace Phase

def decode : Phase := ⟨"decode"⟩

def constantPool : Phase := ⟨"constant_pool"⟩

def resolve : Phase := ⟨"resolve"⟩

def descriptor : Phase := ⟨"descriptor"⟩

def attributeBody : Phase := ⟨"attribute"⟩

def disassemble : Phase := ⟨"disassemble"⟩

def load : Phase := ⟨"load"⟩

/-- No phase at all. -/
def unspecified : Phase := ⟨""⟩

end Phase

/-- The category of a fault. -/
structure Kind where
  label : String
  deriving DecidableEq

namespace Kind

def endOfInput : Kind := ⟨"unexpected_end_of_input"⟩

def unknownTag : Kind := ⟨"unknown_constant_tag"⟩

def danglingReference : Kind := ⟨"dangling_constant_reference"⟩

def unknownOpcode : Kind := ⟨"unknown_opcode"⟩

def malformedDescriptor : Kind := ⟨"malformed_descriptor"⟩

def invalidData : Kind := ⟨"invalid_data"⟩

def invalidInput : Kind := ⟨"invalid_input"⟩

end Kind

/-- The offending value of a fault. -/
inductive Subject where
  | nothing
  | number (n : Int)
  | bytes (bs : List UInt8)
  deriving DecidableEq

/-! ## Causes -/

/-- What went wrong. -/
inductive Cause where
  /-- A read of `need` bytes where only `available` are left. -/
  | endOfInput (need available : Int)
  /-- A byte that announces no kind of constant. -/
  | unknownTag (code : UInt8)
  /-- A pool index without an entry. -/
  | danglingReference (index : Int)
  /-- A byte that is no opcode. -/
  | unknownOpcode (code : UInt8)
  /-- An opcode that has no wide form. -/
  | notWidenable (code : UInt8)
  /-- A descriptor that is wrong at a byte position. -/
  | malformedDescriptor (descriptor : List UInt8) (position : Int) (reason : String)
  /-- A constant whose name depends on itself. -/
  | selfReference (index : Nat)
  /-- A constant of another kind than the reference asks for. -/
  | wrongTag (index : Int) (found expected : Tag)
  /-- An attribute body that ends before its declared length. -/
  | unreadBytes (count : Nat)
  /-- An element type that no primitive array has. -/
  | unknownArrayType (code : Nat)
  /-- A table of jumps whose last key is below its first. -/
  | invertedRange (low high : Int)
  /-- A table of jumps with fewer than no pairs. -/
  | negativePairs (count : Int)
  /-- An unsigned read of a width that no word has. -/
  | unsignedWidth
  /-- A signed read of a width that no word has. -/
  | signedWidth
  /-- An alignment to no boundary. -/
  | boundary
  /-- Anything else, in the words of whoever reports it. -/
  | reported (kind : Kind) (detail : String) (subject : Subject)
  deriving DecidableEq

namespace Cause

def kind : Cause → Kind
  | endOfInput .. => .endOfInput
  | unknownTag .. => .unknownTag
  | danglingReference .. => .danglingReference
  | unknownOpcode .. | notWidenable .. => .unknownOpcode
  | malformedDescriptor .. => .malformedDescriptor
  | selfReference .. | wrongTag .. | unreadBytes .. | unknownArrayType .. | invertedRange ..
  | negativePairs .. => .invalidData
  | unsignedWidth | signedWidth | boundary => .invalidInput
  | reported kind _ _ => kind

def detail : Cause → String
  | endOfInput need available =>
    "need " ++ toString need ++ " bytes, " ++ toString available ++ " remaining"
  | unknownTag code => "tag " ++ toString code.toNat ++ " is not a known constant kind"
  | danglingReference index =>
    "constant pool index #" ++ toString index ++ " does not address an entry"
  | unknownOpcode code => "opcode 0x" ++ Text.hex 2 code.toNat ++ " is not defined"
  | notWidenable code => "opcode 0x" ++ Text.hex 2 code.toNat ++ " cannot follow wide"
  | malformedDescriptor descriptor position reason =>
    Text.quote descriptor ++ " at " ++ toString position ++ ": " ++ reason
  | selfReference index => "constant #" ++ toString index ++ " refers to itself"
  | wrongTag index found expected =>
    "constant #" ++ toString index ++ " is " ++ found.name ++ ", expected " ++ expected.name
  | unreadBytes count => toString count ++ " unread bytes at end of attribute body"
  | unknownArrayType code => "unknown newarray type code " ++ toString code
  | invertedRange low high =>
    "tableswitch high " ++ toString high ++ " is below low " ++ toString low
  | negativePairs count => "lookupswitch npairs " ++ toString count ++ " is negative"
  | unsignedWidth => "unsigned reads take widths 1, 2, 4 or 8"
  | signedWidth => "signed reads take widths 1, 2 or 4"
  | boundary => "alignment boundary must be positive"
  | reported _ detail _ => detail

def subject : Cause → Subject
  | unknownTag code | unknownOpcode code | notWidenable code => .number code.toNat
  | danglingReference index => .number index
  | malformedDescriptor descriptor _ _ => .bytes descriptor
  | reported _ _ subject => subject
  | _ => .nothing

end Cause

/-! ## Faults -/

/-- A cause with its place. The path leads from the outermost part to the innermost one, and a
negative offset means that the fault has no position in the input. -/
structure Fault where
  phase : Phase
  cause : Cause
  offset : Int := -1
  path : List String := []
  deriving DecidableEq

namespace Fault

def kind (f : Fault) : Kind := f.cause.kind

def detail (f : Fault) : String := f.cause.detail

def subject (f : Fault) : Subject := f.cause.subject

/-- The fault as seen from the part `segment` around it. -/
def within (segment : String) (f : Fault) : Fault :=
  { f with path := segment :: f.path }

/-- Phase, kind, path, offset and detail, as far as the fault has them. -/
def headline (f : Fault) : String :=
  "[" ++ f.phase.label ++ "] " ++ f.kind.label
    ++ (if f.path.isEmpty then "" else " at " ++ ".".intercalate f.path)
    ++ (if 0 ≤ f.offset then " (offset " ++ toString f.offset ++ ")" else "")
    ++ (if f.detail.isEmpty then "" else ": " ++ f.detail)

end Fault

end ClassAtlas
