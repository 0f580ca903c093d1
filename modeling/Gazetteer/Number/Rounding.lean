import Gazetteer.Number.Binary64

/-!
# Rounding a ratio to a binary format

A finite magnitude of a format stands for `m * 2 ^ q`. `ofRatio` finds the magnitude nearest to a
ratio of natural numbers, a tie going to the even one, and `ofDecimal` does so for `digits * 10 ^
exponent`. All arithmetic is exact.
-/

namespace Gazetteer

/-- The quotient rounded to the nearest integer, a half to the even neighbour. -/
def roundHalfEven (num den : Nat) : Nat :=
  let q := num / den
  let r := num % den
  if 2 * r < den then q else if den < 2 * r then q + 1 else q + q % 2

/-- How many decimal digits a number has; zero has one. -/
def digitCount (n : Nat) : Nat :=
  if n < 10 then 1 else digitCount (n / 10) + 1
termination_by n

/-- `num * 2 ^ q` as a ratio over `den`. -/
def scaleByTwo (num den : Nat) (q : Int) : Nat × Nat :=
  if 0 ≤ q then (num * Nat.pow 2 q.toNat, den) else (num, den * Nat.pow 2 (-q).toNat)

/-- `num * 10 ^ s` as a ratio over `den`. -/
def scaleByTen (num den : Nat) (s : Int) : Nat × Nat :=
  if 0 ≤ s then (num * Nat.pow 10 s.toNat, den) else (num, den * Nat.pow 10 (-s).toNat)

/-- The greatest `k` with `2 ^ k ≤ num / den`, for positive `num` and `den`. -/
def binaryExponent (num den : Nat) : Int :=
  let k := (num.log2 : Int) - den.log2
  let (n, d) := scaleByTwo num den (-k)
  if d ≤ n then k else k - 1

/-- A binary format: the number of fraction bits, the weight `2 ^ minExponent` of the last bit of
its smallest numbers, and the magnitude of its infinity. -/
structure BinaryFormat where
  fractionBits : Nat
  minExponent : Int
  infinity : Nat

namespace BinaryFormat

def binary64 : BinaryFormat := ⟨52, -1074, 0x7ff0000000000000⟩
def binary32 : BinaryFormat := ⟨23, -149, 0x7f800000⟩

/-- The number `m * 2 ^ q` that a finite magnitude stands for, as the pair `(m, q)`. -/
def decode (f : BinaryFormat) (magnitude : Nat) : Nat × Int :=
  let leading := Nat.pow 2 f.fractionBits
  let e := magnitude / leading
  if e = 0 then (magnitude, f.minExponent)
  else (leading + magnitude % leading, f.minExponent + ((e - 1 : Nat) : Int))

/-- The magnitude nearest to `num / den`, ties to even; what is too large becomes the infinity. -/
def ofRatio (f : BinaryFormat) (num den : Nat) : Nat :=
  if num = 0 then 0
  else
    let q := max (binaryExponent num den - f.fractionBits) f.minExponent
    let (n, d) := scaleByTwo num den (-q)
    min f.infinity ((q - f.minExponent).toNat * Nat.pow 2 f.fractionBits + roundHalfEven n d)

/-- The magnitude nearest to `digits * 10 ^ exponent`. Exponents far outside the format are settled
by the number of digits alone. -/
def ofDecimal (f : BinaryFormat) (digits : Nat) (exponent : Int) : Nat :=
  if digits = 0 then 0
  else
    let top := (digitCount digits : Int) + exponent
    if 400 < top then f.infinity
    else if top < -400 then 0
    else
      let (n, d) := scaleByTen digits 1 exponent
      f.ofRatio n d

end BinaryFormat

namespace Binary64

/-- The number nearest to `±digits * 10 ^ exponent`. -/
def ofDecimal (negative : Bool) (digits : Nat) (exponent : Int) : Binary64 :=
  ofMagnitude negative (BinaryFormat.binary64.ofDecimal digits exponent)

instance : OfScientific Binary64 :=
  ⟨fun digits small exponent =>
    ofDecimal false digits (if small then -(exponent : Int) else exponent)⟩

instance (n : Nat) : OfNat Binary64 n := ⟨ofDecimal false n 0⟩

end Binary64

/-- A binary32 number, as its sign, exponent and fraction bits. -/
structure Binary32 where
  bits : UInt32
deriving DecidableEq, Inhabited, Repr

namespace Binary32

def magnitude (x : Binary32) : Nat := x.bits.toNat % 0x80000000

def negative (x : Binary32) : Bool := 0x80000000 ≤ x.bits.toNat

def isNaN (x : Binary32) : Bool := BinaryFormat.binary32.infinity < x.magnitude

def isFinite (x : Binary32) : Bool := x.magnitude < BinaryFormat.binary32.infinity

def ofMagnitude (negative : Bool) (magnitude : Nat) : Binary32 :=
  ⟨UInt32.ofNat (if negative then 0x80000000 + magnitude else magnitude)⟩

def infinity : Binary32 := ⟨0x7f800000⟩
def nan : Binary32 := ⟨0x7fc00000⟩

instance : Neg Binary32 := ⟨fun x => ⟨x.bits ^^^ 0x80000000⟩⟩

/-- The number nearest to `±digits * 10 ^ exponent`. -/
def ofDecimal (negative : Bool) (digits : Nat) (exponent : Int) : Binary32 :=
  ofMagnitude negative (BinaryFormat.binary32.ofDecimal digits exponent)

/-- The same number as a binary64 word. Every binary32 number has one; a NaN keeps its sign and its
fraction bits and becomes quiet. -/
def widen (x : Binary32) : Binary64 :=
  if x.isNaN then
    .ofMagnitude x.negative (0x7ff8000000000000 ||| (x.magnitude % 0x400000) * 0x20000000)
  else if x.isFinite then
    let (m, q) := BinaryFormat.binary32.decode x.magnitude
    let (n, d) := scaleByTwo m 1 q
    .ofMagnitude x.negative (BinaryFormat.binary64.ofRatio n d)
  else
    .ofMagnitude x.negative Binary64.infiniteMagnitude

end Binary32
end Gazetteer
