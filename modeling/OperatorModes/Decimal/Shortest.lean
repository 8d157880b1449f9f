import OperatorModes.Decimal.Binary64

/-!
# The shortest decimal of a double

The decimals that round to a given double fill an interval around it, ends included when its
significand is even. Among them the one with the fewest digits is taken, which is the one on the
coarsest grid `10 ^ k` that has a point in the interval; of two such points the nearer, and of two
equally near the even one.
-/

namespace OperatorModes.Decimal

/-- The interval of reals that round to a double, in quarters of the unit in its last place. -/
structure Interval where
  low : Nat
  mid : Nat
  high : Nat
  /-- Whether the ends themselves round to the double. -/
  closed : Bool
  /-- The quarter unit is `2 ^ quarter`. -/
  quarter : Int

namespace Interval

/-- The interval of a double. Below a power of two the neighbour is nearer. -/
def of (x : Binary64) : Interval :=
  let m := x.significand
  let narrow := m = Binary64.hiddenBit ∧ -1074 < x.exponent
  { low := if narrow then 4 * m - 1 else 4 * m - 2
    mid := 4 * m
    high := 4 * m + 2
    closed := m % 2 = 0
    quarter := x.exponent - 2 }

/-- Numerator and denominator of `10 ^ k` in quarter units. -/
def grid (i : Interval) (k : Int) : Nat × Nat :=
  (Nat.pow 10 k.toNat <<< (-i.quarter).toNat, Nat.pow 10 (-k).toNat <<< i.quarter.toNat)

/-- Whether the point `d * 10 ^ k` lies in the interval. -/
def holds (i : Interval) (k : Int) (d : Nat) : Bool :=
  let (num, den) := i.grid k
  if i.closed then i.low * den ≤ d * num && d * num ≤ i.high * den
  else i.low * den < d * num && d * num < i.high * den

/-- The point of the grid `10 ^ k` to take, if one of the two around the middle lies in the
interval. -/
def point? (i : Interval) (k : Int) : Option Nat :=
  let (num, den) := i.grid k
  let d := i.mid * den / num
  match i.holds k d, i.holds k (d + 1) with
  | true, true =>
    let below := i.mid * den - d * num
    let above := (d + 1) * num - i.mid * den
    some (if below < above ∨ (below = above ∧ d % 2 = 0) then d else d + 1)
  | true, false => some d
  | false, true => some (d + 1)
  | false, false => none

/-- The first grid with a point, from `10 ^ k` to finer ones. -/
def coarsest (i : Interval) (k : Int) : Nat → Nat × Int
  | 0 => (0, 0)
  | tries + 1 =>
    match i.point? k with
    | some d => (d, k)
    | none => i.coarsest (k - 1) tries

end Interval

/-- A power of ten that is above the double: the double is below `2 ^ bits`, and a factor of two is
less than `0.30103` decimal places. -/
def coarseGrid (x : Binary64) : Int :=
  let bits := x.significand.log2 + 1 + x.exponent
  if 0 ≤ bits then bits * 30103 / 100000 + 1 else bits * 30102 / 100000 + 1

/-- The grids to try: 17 digits suffice for every double, and a few are above the first digit. -/
def gridsTried : Nat := 24

/-- The shortest decimal `d * 10 ^ k` of a double that is not zero, without its sign. -/
def shortest (x : Binary64) : Nat × Int :=
  (Interval.of x).coarsest (coarseGrid x) gridsTried

end OperatorModes.Decimal
