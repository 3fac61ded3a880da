import ClassAtlas.ClassFile

/-! # Spans

Every value of a class file in file order. Values without a width are left out, so that each span
covers at least one byte.

* `ClassFile.data`, `ClassFile.spans`: the values, and those that have a width.
* `ClassFile.spanAt?`: the span that covers an offset, by bisection.
-/

namespace ClassAtlas
set_option autoImplicit false

namespace ClassFile

def data (cf : ClassFile) : List Datum :=
  [cf.magic, cf.minorVersion, cf.majorVersion, cf.pool.count]
    ++ cf.pool.constants.flatMap Constant.data
    ++ [cf.accessFlags, cf.thisClass, cf.superClass, cf.interfaceCount]
    ++ cf.interfaces
    ++ cf.fieldCount :: cf.fields.flatMap Member.data
    ++ cf.methodCount :: cf.methods.flatMap Member.data
    ++ cf.attributeCount :: Attribute.dataOfList cf.attributes
    ++ cf.trailing.toList

/-- Every value of the file that has a width, in file order. -/
def spans (cf : ClassFile) : List Datum :=
  cf.data.filter fun d => 0 < d.width

/-- The span among those from `lo` up to `hi` that covers `offset`, if they are in file order. -/
def bisect (spans : Array Datum) (offset : Int) (lo hi : Nat) : Option Datum :=
  if lo < hi then
    let mid := (lo + hi) / 2
    match spans[mid]? with
    | some d =>
      if offset < d.offset then bisect spans offset lo mid
      else if (d.stop : Int) ≤ offset then bisect spans offset (mid + 1) hi
      else some d
    | none => none
  else none
termination_by hi - lo

/-- The span that covers an offset. -/
def spanAt? (cf : ClassFile) (offset : Int) : Option Datum :=
  let spans := cf.spans.toArray
  bisect spans offset 0 spans.size

end ClassFile

end ClassAtlas
