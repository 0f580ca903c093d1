import Gazetteer.Number.Shortest

/-!
# Texts of numbers

A number is written with the fewest digits that read back. A `NumberStyle` says how those digits are
laid out: which powers of ten are written positionally, whether a whole number keeps `.0`, how an
exponent looks, and what stands for the values that are not finite. The library writes five styles.
-/

namespace Gazetteer

/-- Layout of the shortest digits of a number. -/
structure NumberStyle where
  /-- Least leading power of ten written positionally; `none` for all. -/
  positionalFrom : Option Int
  /-- First leading power of ten above those written positionally; `none` for none. -/
  positionalUpTo : Option Int
  /-- Whether a whole number in positional form ends in `.0`. -/
  keepsPoint : Bool
  /-- Sign written before an exponent that is not negative. -/
  exponentPlus : String
  /-- Direction of an exact tie between two shortest decimals. -/
  tie : Tie
  nan : String
  infinity : String
  negInfinity : String

namespace NumberStyle

/-- Values inside a message: always positional, a whole number without a point. -/
def message : NumberStyle :=
  ⟨none, none, false, "", .away, "NaN", "inf", "-inf"⟩

/-- Fields of a record shown for inspection: a point or an exponent in every number. -/
def inspection : NumberStyle :=
  ⟨some (-4), some 16, true, "", .away, "NaN", "inf", "-inf"⟩

/-- Numbers of a JSON text, which has no word for a value that is not finite. -/
def json : NumberStyle :=
  ⟨some (-5), some 16, true, "+", .even, "null", "null", "null"⟩

/-- Numbers of a JSON text that have single precision: fewer of the large ones and more of the small
ones are written positionally. -/
def jsonSingle : NumberStyle :=
  { json with positionalFrom := some (-6), positionalUpTo := some 13 }

/-- Numbers of a TOML text: always positional, always with a point. -/
def toml : NumberStyle :=
  ⟨none, none, true, "", .away, "nan", "inf", "-inf"⟩

def isPositional (s : NumberStyle) (leading : Int) : Bool :=
  (match s.positionalFrom with | none => true | some k => decide (k ≤ leading)) &&
  (match s.positionalUpTo with | none => true | some k => decide (leading < k))

end NumberStyle

/-! ## Digits -/

/-- The decimal digits of a number, most significant first. -/
def digitChars (n : Nat) : List Char := Nat.toDigits 10 n

namespace Decimal

/-- Positional notation, with `.0` after a whole number if `keepsPoint`. -/
def positional (d : Decimal) (keepsPoint : Bool) : List Char :=
  let ds := digitChars d.digits
  if 0 ≤ d.exponent then
    ds ++ List.replicate d.exponent.toNat '0' ++ (if keepsPoint then ['.', '0'] else [])
  else
    let places := (-d.exponent).toNat
    let padded := List.replicate (places + 1 - ds.length) '0' ++ ds
    padded.take (padded.length - places) ++ '.' :: padded.drop (padded.length - places)

/-- One digit before the point, an exponent after the digits. -/
def scientific (d : Decimal) (exponentPlus : String) : List Char :=
  let ds := digitChars d.digits
  let fraction := ds.drop 1
  let k := d.leadingExponent
  ds.take 1 ++ (if fraction.isEmpty then [] else '.' :: fraction) ++
    'e' :: (if k < 0 then ['-'] else exponentPlus.toList) ++ digitChars k.natAbs

end Decimal

namespace NumberStyle

/-- The text of a sign and a shortest decimal. -/
def finite (s : NumberStyle) (negative : Bool) (d : Decimal) : String :=
  let body :=
    if d.digits == 0 || s.isPositional d.leadingExponent then d.positional s.keepsPoint
    else d.scientific s.exponentPlus
  String.ofList (if negative then '-' :: body else body)

end NumberStyle

/-- The text of a binary64 number in a style. -/
def Binary64.text (x : Binary64) (s : NumberStyle) : String :=
  if x.isNaN then s.nan
  else if x.isFinite then
    s.finite x.negative (BinaryFormat.binary64.shortest s.tie x.magnitude)
  else if x.negative then s.negInfinity else s.infinity

/-- The text of a binary32 number in a style. -/
def Binary32.text (x : Binary32) (s : NumberStyle) : String :=
  if x.isNaN then s.nan
  else if x.isFinite then
    s.finite x.negative (BinaryFormat.binary32.shortest s.tie x.magnitude)
  else if x.negative then s.negInfinity else s.infinity

/-! ## Fixed-width hexadecimal -/

def hexDigit (n : Nat) : Char :=
  if n < 10 then Char.ofNat (48 + n) else Char.ofNat (87 + n)

/-- The last `width` hexadecimal digits of a number, in lower case. -/
def hexChars : (width : Nat) → Nat → List Char
  | 0, _ => []
  | width + 1, n => hexChars width (n / 16) ++ [hexDigit (n % 16)]

/-- A 32-bit word as `0x` and eight digits. -/
def hexWord (w : UInt32) : String := String.ofList ('0' :: 'x' :: hexChars 8 w.toNat)

end Gazetteer
