import Gazetteer.Json.Token

/-!
# Values of JSON numbers

A JSON number is read fast rather than exactly: its digits are gathered in 64 bits, as many as fit,
rounded once, and then multiplied or divided by a power of ten, which rounds again. A number whose
result is infinite is out of range.
-/

namespace Gazetteer

/-- The greatest significand. -/
def maxSignificand : Nat := 0xffffffffffffffff

/-- Gathers digits while they fit. Returns the significand, how many digits it took,
and the others. -/
def gatherDigits (significand : Nat) : List Char → Nat × Nat × List Char
  | [] => (significand, 0, [])
  | c :: cs =>
    let grown := significand * 10 + (c.toNat - 48)
    if maxSignificand < grown then (significand, 0, c :: cs)
    else
      let (s, taken, rest) := gatherDigits grown cs
      (s, taken + 1, rest)

/-- The power of ten nearest to `10 ^ n`. -/
def powerOfTen (n : Nat) : Binary64 := .ofDecimal false 1 n

/-- Scales a number by a power of ten; `none` if the result is infinite. An exponent below what a
power of ten can express is taken in several steps, at most `fuel` of them. -/
def scaleDecimal? : (fuel : Nat) → (f : Binary64) → (exponent : Int) → Option Binary64
  | 0, f, _ => some f
  | fuel + 1, f, exponent =>
    if exponent.natAbs ≤ 308 then
      if 0 ≤ exponent then
        let r := f * powerOfTen exponent.natAbs
        if r.isInfinite then none else some r
      else some (f / powerOfTen exponent.natAbs)
    else if f.magnitude = 0 then some f
    else if 0 ≤ exponent then none
    else scaleDecimal? fuel (f / powerOfTen 308) (exponent + 308)

namespace JsonNumber

/-- The significand of a number, and the power of ten that its written digits give it. -/
def significand (n : JsonNumber) : Nat × Int :=
  let (s, _, dropped) := gatherDigits 0 n.whole
  let (s, taken, _) := gatherDigits s n.fraction
  (s, (dropped.length : Int) - taken)

/-- The absolute value of a number; `none` if it is out of range. -/
def magnitude? (n : JsonNumber) : Option Binary64 :=
  let (s, e) := n.significand
  let f := Binary64.ofUInt64 (UInt64.ofNat s)
  match n.exponent with
  | none => scaleDecimal? 4 f e
  | some (negative, ds) =>
    let k := digitsValue ds
    if k < 0x80000000 then scaleDecimal? 4 f (if negative then e - k else e + k)
    else if s = 0 ∨ negative then some .zero
    else none

/-- The value of a number; `none` if it is out of range. -/
def value? (n : JsonNumber) : Option Binary64 :=
  n.magnitude?.map fun x => if n.negative then -x else x

end JsonNumber
end Gazetteer
