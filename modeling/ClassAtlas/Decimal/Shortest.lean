/-! # The shortest decimal of a binary number

A positive binary number `m * 2 ^ q` stands for every real that rounds to it: the interval between
the midpoints to its neighbours. Its shortest decimal is the multiple of the greatest power of ten
that has a positive multiple in the interval, and of several such multiples the nearest to the
number; of two equally near, the even one.

* `Interval`: the reals that round to a number, as fractions over one denominator.
* `Interval.hit? e`: the multiple of `10 ^ e` that stands for the number.
* `shortest`: digits and exponent of the shortest decimal.
-/

namespace ClassAtlas.Decimal
set_option autoImplicit false

/-! ## The interval -/

/-- The number `mid / den` and the ends `low / den` and `high / den` of the interval that rounds to
it; the ends belong to the interval when it is `closed`. -/
structure Interval where
  low : Nat
  mid : Nat
  high : Nat
  den : Nat
  closed : Bool

/-- The interval of `m * 2 ^ q`. With `tight` the neighbour below is only half as far away as the one
above. The ends round to an even significand. -/
def Interval.ofBinary (m : Nat) (q : Int) (tight : Bool) : Interval :=
  let scale := Nat.pow 2 q.toNat
  { low := (4 * m - if tight then 1 else 2) * scale
    mid := 4 * m * scale
    high := (4 * m + 2) * scale
    den := 4 * Nat.pow 2 (-q).toNat
    closed := m % 2 == 0 }

/-- The interval with all its numbers multiplied by `k`. -/
def Interval.scale (i : Interval) (k : Nat) : Interval :=
  { i with low := i.low * k, mid := i.mid * k, high := i.high * k }

/-- The integer `n`, counted in units of `unit / den`, lies in the interval. -/
def Interval.contains (i : Interval) (unit n : Nat) : Bool :=
  if i.closed then i.low ≤ n * unit && n * unit ≤ i.high
  else i.low < n * unit && n * unit < i.high

/-! ## Multiples of one power of ten -/

/-- The positive multiple of `unit / den` in the interval that is nearest to the number; of two
equally near, the even one. -/
def Interval.nearest? (i : Interval) (unit : Nat) : Option Nat :=
  let below := i.mid / unit
  let excess := 2 * (i.mid % unit)
  let belowFits := 0 < below && i.contains unit below
  let aboveFits := i.contains unit (below + 1)
  if belowFits && aboveFits then
    if excess < unit then some below
    else if unit < excess then some (below + 1)
    else if below % 2 = 0 then some below
    else some (below + 1)
  else if belowFits then some below
  else if aboveFits then some (below + 1)
  else none

/-- The factor of the multiple of `10 ^ e` that stands for the number. -/
def Interval.hit? (i : Interval) (e : Int) : Option Nat :=
  (i.scale (Nat.pow 10 (-e).toNat)).nearest? (i.den * Nat.pow 10 e.toNat)

/-! ## The search -/

/-- The first hit from `10 ^ e` downwards, with `steps` powers to try before the last. -/
def Interval.search (i : Interval) : Nat → Int → Nat × Int
  | 0, e => ((i.hit? e).getD 0, e)
  | steps + 1, e =>
    match i.hit? e with
    | some n => (n, e)
    | none => i.search steps (e - 1)

/-- Digits `d` and exponent `e` with `d * 10 ^ e` the shortest decimal of `m * 2 ^ q`. The search
starts above the number and ends at the power of ten that divides it. -/
def shortest (m : Nat) (q : Int) (tight : Bool) : Nat × Int :=
  let top := ((m.log2 : Int) + q + 1) * 30103 / 100000 + 2
  let bottom := min q 0
  (Interval.ofBinary m q tight).search (top - bottom).toNat top

end ClassAtlas.Decimal
