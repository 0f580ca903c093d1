import Gazetteer.Number.Rounding

/-!
# The shortest decimal that reads back

A finite number is the nearest one to every real in an interval around it. `BinaryFormat.shortest`
takes the coarsest decimal grid that has a point in this interval and, of the two neighbours of the
number on that grid, the nearer one.
-/

namespace Gazetteer

/-- The decimal number `digits * 10 ^ exponent`. -/
structure Decimal where
  digits : Nat
  exponent : Int
deriving DecidableEq, Inhabited, Repr

/-- Where to go from the exact middle between two neighbours. -/
inductive Tie where
  | away
  | even
deriving DecidableEq, Repr

/-- The greatest `k` with `10 ^ k ≤ num / den`, for positive `num` and `den`. -/
def decimalExponent (num den : Nat) : Int :=
  if den ≤ num then (digitCount (num / den) : Int) - 1
  else
    let j := digitCount (den / num)
    if den ≤ num * Nat.pow 10 (j - 1) then -((j : Int) - 1) else -(j : Int)

namespace Decimal

/-- Drops the zeros at the end of the digits; `fuel` bounds how many. -/
def trimZeros : (fuel : Nat) → Decimal → Decimal
  | 0, d => d
  | fuel + 1, d =>
    if d.digits ≠ 0 ∧ d.digits % 10 = 0 then trimZeros fuel ⟨d.digits / 10, d.exponent + 1⟩ else d

/-- The power of ten of the first digit. -/
def leadingExponent (d : Decimal) : Int := (digitCount d.digits : Int) - 1 + d.exponent

end Decimal

/-- The reals that round to a number: the number and the two ends of the interval, over one
denominator, and whether the ends belong to it. -/
structure RoundingInterval where
  low : Nat
  value : Nat
  high : Nat
  den : Nat
  closed : Bool

namespace RoundingInterval

/-- Whether `num / den` rounds to the number. -/
def contains (r : RoundingInterval) (num den : Nat) : Bool :=
  if r.closed then r.low * den ≤ num * r.den && num * r.den ≤ r.high * den
  else r.low * den < num * r.den && num * r.den < r.high * den

/-- The better of the two neighbours of the number among the multiples of `10 ^ s` that lie in the
interval. -/
def neighbour? (r : RoundingInterval) (tie : Tie) (s : Int) : Option Nat :=
  let (unit, den) := scaleByTen 1 1 s
  let below := (r.value * den) / (r.den * unit)
  let gapBelow := r.value * den - below * unit * r.den
  let gapAbove := (below + 1) * unit * r.den - r.value * den
  let up := gapAbove < gapBelow || (gapAbove == gapBelow && (tie == .away || below % 2 == 1))
  match r.contains (below * unit) den, r.contains ((below + 1) * unit) den with
  | true, true => some (if up then below + 1 else below)
  | true, false => some below
  | false, true => some (below + 1)
  | false, false => none

end RoundingInterval

namespace BinaryFormat

/-- The reals that round to a finite magnitude. Below a power of two the neighbour is
half as far. -/
def interval (f : BinaryFormat) (magnitude : Nat) : RoundingInterval :=
  let (m, q) := f.decode magnitude
  let lower := if m = Nat.pow 2 f.fractionBits ∧ f.minExponent < q then 4 * m - 1 else 4 * m - 2
  let (unit, den) := scaleByTwo 1 4 q
  ⟨lower * unit, 4 * m * unit, (4 * m + 2) * unit, den, m % 2 == 0⟩

/-- The shortest decimal that rounds to a finite magnitude, of the shortest ones the nearest.
Seventeen digits always suffice. -/
def shortest (f : BinaryFormat) (tie : Tie) (magnitude : Nat) : Decimal :=
  if magnitude = 0 then ⟨0, 0⟩
  else
    let r := f.interval magnitude
    let top := decimalExponent r.value r.den
    let found := (List.range 18).findSome? fun (n : Nat) =>
      (r.neighbour? tie (top - n)).map fun c => Decimal.mk c (top - n)
    (found.getD ⟨0, 0⟩).trimZeros 20

end BinaryFormat
end Gazetteer
