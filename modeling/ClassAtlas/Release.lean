/-! # Platform releases

* `releaseOf? major`: the platform release that introduced a class file version.
-/

namespace ClassAtlas
set_option autoImplicit false

/-- The release that introduced the class file version with this major number, if one is known. -/
def releaseOf? (major : Nat) : Option String :=
  if 49 ≤ major ∧ major ≤ 80 then some ("Java " ++ toString (major - 44))
  else if 45 ≤ major ∧ major ≤ 48 then some ("Java 1." ++ toString (major - 44))
  else none

end ClassAtlas
