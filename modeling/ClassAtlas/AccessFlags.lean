/-! # Access flags

The named bits of an access mask depend on what carries it: a class, a field, a method or a row of
the table of nested classes.

* `FlagTable.describe mask`: the names of the set bits in table order; other bits are ignored.
-/

namespace ClassAtlas
set_option autoImplicit false

/-- A named bit of an access mask. -/
structure AccessFlag where
  name : String
  mask : Nat

/-- The flags of one context, in the order in which they are written. -/
abbrev FlagTable := List AccessFlag

/-- The names of the flags set in `mask`, with a space between them. -/
def FlagTable.describe (table : FlagTable) (mask : Nat) : String :=
  " ".intercalate ((table.filter fun flag => mask &&& flag.mask ≠ 0).map (·.name))

namespace FlagTable

def ofClass : FlagTable :=
  [⟨"public", 0x0001⟩, ⟨"final", 0x0010⟩, ⟨"super", 0x0020⟩, ⟨"interface", 0x0200⟩,
    ⟨"abstract", 0x0400⟩, ⟨"synthetic", 0x1000⟩, ⟨"annotation", 0x2000⟩, ⟨"enum", 0x4000⟩,
    ⟨"module", 0x8000⟩]

def ofField : FlagTable :=
  [⟨"public", 0x0001⟩, ⟨"private", 0x0002⟩, ⟨"protected", 0x0004⟩, ⟨"static", 0x0008⟩,
    ⟨"final", 0x0010⟩, ⟨"volatile", 0x0040⟩, ⟨"transient", 0x0080⟩, ⟨"synthetic", 0x1000⟩,
    ⟨"enum", 0x4000⟩]

def ofMethod : FlagTable :=
  [⟨"public", 0x0001⟩, ⟨"private", 0x0002⟩, ⟨"protected", 0x0004⟩, ⟨"static", 0x0008⟩,
    ⟨"final", 0x0010⟩, ⟨"synchronized", 0x0020⟩, ⟨"bridge", 0x0040⟩, ⟨"varargs", 0x0080⟩,
    ⟨"native", 0x0100⟩, ⟨"abstract", 0x0400⟩, ⟨"strict", 0x0800⟩, ⟨"synthetic", 0x1000⟩]

def ofNestedClass : FlagTable :=
  [⟨"public", 0x0001⟩, ⟨"private", 0x0002⟩, ⟨"protected", 0x0004⟩, ⟨"static", 0x0008⟩,
    ⟨"final", 0x0010⟩, ⟨"interface", 0x0200⟩, ⟨"abstract", 0x0400⟩, ⟨"synthetic", 0x1000⟩,
    ⟨"annotation", 0x2000⟩, ⟨"enum", 0x4000⟩]

end FlagTable

end ClassAtlas
