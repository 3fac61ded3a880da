import ClassAtlas.Attribute.Reading
import ClassAtlas.ClassFile
import ClassAtlas.Pool.Naming

/-! # Reading class files

A class file is read part by part: the header with the constant pool, then, with the names of the
constants, everything after the pool. What follows the last attribute is kept as one value.

* `Parts`, `Parts.read`: a reading in parts, and the step that reads them all.
* `Header.parts`, `Header.read`: magic number, versions and the entries of the pool.
* `ClassFile.parts`, `ClassFile.readParts`: the rest of the class, given the header and the named pool.
* `ClassFile.readAfterPool`: the rest of the file.
* `ClassFile.decode`: the class file of a byte string, or the fault that it has.
-/

namespace ClassAtlas
set_option autoImplicit false

/-! ## Members -/

namespace Member

/-- What stands before the attributes of a member. -/
structure Head where
  accessFlags : Datum
  name : Datum
  descriptor : Datum
  signature : String

def readHead (pool : Pool) : Reading Head := do
  let accessFlags ← Datum.u2
  let name ← Datum.u2
  let descriptor ← Datum.u2
  let name ← within "name_index" (settled (pool.referText name))
  let descriptor ← within "descriptor_index" (settled (pool.referText descriptor))
  let signature ← within "descriptor_index"
    (settled (Descriptor.declaration descriptor.name name.name))
  pure { accessFlags, name, descriptor, signature }

/-- A member, whose flags have the meaning of `flags`. -/
def read (pool : Pool) (flags : FlagTable) : Reading Member := do
  let h ← readHead pool
  let (attributeCount, attributes) ← within h.name.name (Attribute.readList pool)
  pure
    { accessFlags := h.accessFlags.named (flags.describe h.accessFlags.raw)
      nameIndex := h.name
      descriptorIndex := h.descriptor
      signature := h.signature
      attributeCount, attributes }

/-- A count and that many members, in the part of the file called `part`. -/
def readList (pool : Pool) (part : String) (flags : FlagTable) : Reading (Datum × List Member) :=
  counted (part ++ "_count") (fun i => part ++ "[" ++ toString i ++ "]") (read pool flags)

end Member

/-! ## Parts -/

/-- A reading in parts, one after the other. Each may depend on what the parts before it gave. -/
inductive Parts (α : Type) : Type 1 where
  | done (a : α)
  /-- A part that is named as a whole. -/
  | named {β : Type} (segment : String) (step : Reading β) (rest : β → Parts α)
  /-- A list, which names its pieces itself. -/
  | listed {β : Type} (step : Reading β) (rest : β → Parts α)

def Parts.read {α : Type} : Parts α → Reading α
  | done a => pure a
  | named segment step rest => do
    let b ← within segment step
    (rest b).read
  | listed step rest => do
    let b ← step
    (rest b).read

/-! ## The parts of the file -/

/-- What stands before the pool, and the pool with its entries not yet named. -/
structure Header where
  magic : Datum
  minorVersion : Datum
  majorVersion : Datum
  pool : Pool

def Header.parts : Parts Header :=
  .named "magic" (Datum.hex 4) fun magic =>
    .named "minor_version" Datum.u2 fun minorVersion =>
      .named "major_version" Datum.u2 fun majorVersion =>
        .named "constant_pool" Pool.read fun pool =>
          .done { magic, minorVersion, majorVersion, pool }

def Header.read : Reading Header :=
  parts.read

/-- The pool of the header with its entries named. -/
def Header.resolve (h : Header) : Except Fault Pool :=
  h.pool.resolve.mapError (Fault.within "constant_pool")

namespace ClassFile

/-- Everything that is left, as one value. -/
def readTrailing : Reading (Option Datum) := do
  let w ← get
  if w.rest.isEmpty then pure none
  else do
    let d ← Datum.skip w.remaining
    pure (some d)

def readInterfaces (pool : Pool) : Reading (Datum × List Datum) :=
  counted "interfaces_count" (fun i => "interfaces[" ++ toString i ++ "]") pool.readReference

/-- The class, given its header and the named pool, without what follows the last attribute. -/
def parts (h : Header) (pool : Pool) : Parts ClassFile :=
  .named "access_flags" Datum.u2 fun accessFlags =>
    .named "this_class" pool.readReference fun thisClass =>
      .named "super_class" (pool.readOptional "") fun superClass =>
        .listed (readInterfaces pool) fun (interfaceCount, interfaces) =>
          .listed (Member.readList pool "fields" .ofField) fun (fieldCount, fields) =>
            .listed (Member.readList pool "methods" .ofMethod) fun (methodCount, methods) =>
              .listed (Attribute.readList pool) fun (attributeCount, attributes) =>
                .done
                  { magic := h.magic
                    minorVersion := h.minorVersion
                    majorVersion := h.majorVersion
                    pool
                    accessFlags := accessFlags.named (FlagTable.ofClass.describe accessFlags.raw)
                    thisClass, superClass, interfaceCount, interfaces, fieldCount, fields,
                    methodCount, methods, attributeCount, attributes
                    trailing := none }

def readParts (h : Header) (pool : Pool) : Reading ClassFile :=
  (parts h pool).read

def readAfterPool (h : Header) (pool : Pool) : Reading ClassFile := do
  let cf ← readParts h pool
  let trailing ← readTrailing
  pure { cf with trailing }

def read : Reading ClassFile := do
  let h ← Header.read
  let pool ← settled h.resolve
  readAfterPool h pool

/-- The class file of a byte string. The magic number is not checked. -/
def decode (bytes : List UInt8) : Except Fault ClassFile :=
  (read (Window.ofBytes bytes)).map (·.1)

end ClassFile

end ClassAtlas
