import Gazetteer.Number.Text

/-!
# Reading numbers from text

The grammar of a number field: an optional sign, then `inf`, `infinity` or `nan` in any mixture of
ASCII cases, or digits with at most one point among them and an optional exponent. There must be a
digit before the exponent, and one in it. Nothing may stand before or after, not even a blank.
-/

namespace Gazetteer

/-- What the text of a number denotes, before it is rounded to a format. -/
inductive NumberText where
  | infinite (negative : Bool)
  | notANumber (negative : Bool)
  | decimal (negative : Bool) (digits : Nat) (exponent : Int)
deriving DecidableEq, Repr

/-- The number that a list of decimal digits writes. -/
def digitsValue (ds : List Char) : Nat := ds.foldl (fun n c => 10 * n + (c.toNat - 48)) 0

/-- Splits off a leading sign; `true` for a minus. -/
def splitSign : List Char → Bool × List Char
  | '-' :: cs => (true, cs)
  | '+' :: cs => (false, cs)
  | cs => (false, cs)

/-- A non-empty run of digits to the end of the text. -/
def readDigits? (cs : List Char) : Option Nat :=
  if !cs.isEmpty && cs.all Char.isDigit then some (digitsValue cs) else none

/-- A signed whole number to the end of the text. -/
def readInt? (cs : List Char) : Option Int :=
  let (negative, ds) := splitSign cs
  (readDigits? ds).map fun n => if negative then -(n : Int) else n

/-- Whether a character starts an exponent. -/
def isExponentMark (c : Char) : Bool := c == 'e' || c == 'E'

/-- An exponent part, which may be missing. -/
def readExponent? : List Char → Option Int
  | [] => some 0
  | c :: cs => if isExponentMark c then readInt? cs else none

/-- Digits with an optional point and exponent, to the end of the text. -/
def readUnsigned? (negative : Bool) (cs : List Char) : Option NumberText :=
  let whole := cs.takeWhile Char.isDigit
  let afterWhole := cs.dropWhile Char.isDigit
  let (fraction, rest) := match afterWhole with
    | '.' :: ds => (ds.takeWhile Char.isDigit, ds.dropWhile Char.isDigit)
    | other => ([], other)
  if whole.isEmpty && fraction.isEmpty then none
  else (readExponent? rest).map fun e =>
    .decimal negative (digitsValue (whole ++ fraction)) (e - fraction.length)

/-- The text of a number field. -/
def readNumber? (cs : List Char) : Option NumberText :=
  let (negative, body) := splitSign cs
  let word := body.map Char.toLower
  if word = "inf".toList ∨ word = "infinity".toList then some (.infinite negative)
  else if word = "nan".toList then some (.notANumber negative)
  else readUnsigned? negative body

/-- A 32-bit signed integer field. -/
def readInt32? (s : String) : Option Int32 :=
  (readInt? s.toList).bind fun n =>
    if -0x80000000 ≤ n ∧ n < 0x80000000 then some (Int32.ofInt n) else none

/-- A count: an optional plus sign and digits, below `2 ^ 64`. -/
def readCount? (s : String) : Option Nat :=
  let ds := match s.toList with
    | '+' :: ds => ds
    | ds => ds
  (readDigits? ds).bind fun n => if n < 0x10000000000000000 then some n else none

namespace Binary64

def ofNumberText : NumberText → Binary64
  | .infinite negative => if negative then negInfinity else infinity
  | .notANumber negative => if negative then -nan else nan
  | .decimal negative digits exponent => ofDecimal negative digits exponent

/-- A binary64 field: the number nearest to the one that the text denotes. -/
def ofText? (s : String) : Option Binary64 := (readNumber? s.toList).map ofNumberText

end Binary64

namespace Binary32

def ofNumberText : NumberText → Binary32
  | .infinite negative => if negative then -infinity else infinity
  | .notANumber negative => if negative then -nan else nan
  | .decimal negative digits exponent => ofDecimal negative digits exponent

/-- A binary32 field: the number nearest to the one that the text denotes. -/
def ofText? (s : String) : Option Binary32 := (readNumber? s.toList).map ofNumberText

end Binary32
end Gazetteer
