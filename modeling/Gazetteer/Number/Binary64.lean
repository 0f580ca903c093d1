/-!
# Binary64 words

Coordinates, distances and thresholds are kept as the 64 bits they are stored in, so that the two
zeros and the different NaNs of a file stay apart. Two orders live on words: the *total* order,
which sorts every word (negative NaNs, then the number line with `-0` before `+0`, then positive
NaNs), and the *numeric* order `≤`, in which the zeros are equal and a NaN is comparable to nothing.
-/

namespace Gazetteer

/-- A binary64 number, as its sign, exponent and fraction bits. -/
structure Binary64 where
  bits : UInt64
deriving DecidableEq, Inhabited, Repr

namespace Binary64

/-! ## Fields of a word -/

/-- The exponent and fraction bits read as one number; it grows with the absolute value. -/
def magnitude (x : Binary64) : Nat := x.bits.toNat % 0x8000000000000000

/-- The sign bit. -/
def negative (x : Binary64) : Bool := 0x8000000000000000 ≤ x.bits.toNat

/-- The magnitude of the infinities; below it lie the finite numbers, above it the NaNs. -/
def infiniteMagnitude : Nat := 0x7ff0000000000000

def isNaN (x : Binary64) : Bool := infiniteMagnitude < x.magnitude

def isFinite (x : Binary64) : Bool := x.magnitude < infiniteMagnitude

def isInfinite (x : Binary64) : Bool := x.magnitude == infiniteMagnitude

/-- Builds a word from its sign and magnitude. -/
def ofMagnitude (negative : Bool) (magnitude : Nat) : Binary64 :=
  ⟨UInt64.ofNat (if negative then 0x8000000000000000 + magnitude else magnitude)⟩

def infinity : Binary64 := ⟨0x7ff0000000000000⟩
def negInfinity : Binary64 := ⟨0xfff0000000000000⟩
def nan : Binary64 := ⟨0x7ff8000000000000⟩
def zero : Binary64 := ⟨0⟩

/-- Flips the sign bit, of a NaN too. -/
def negate (x : Binary64) : Binary64 := ⟨x.bits ^^^ 0x8000000000000000⟩

instance : Neg Binary64 := ⟨negate⟩

/-- Clears the sign bit. -/
def abs (x : Binary64) : Binary64 := ⟨x.bits &&& 0x7fffffffffffffff⟩

/-! ## The total order -/

/-- Place of a word in the total order. -/
def totalRank (x : Binary64) : Int :=
  if x.negative then -(x.magnitude : Int) - 1 else x.magnitude

/-- Compares two words in the total order. -/
def totalCompare (x y : Binary64) : Ordering := compare x.totalRank y.totalRank

/-! ## The numeric order -/

/-- Place of a number on the line: the zeros share one place. -/
def rank (x : Binary64) : Int :=
  if x.negative then -(x.magnitude : Int) else x.magnitude

/-- Numeric `≤`; false as soon as one side is a NaN. -/
protected def le (x y : Binary64) : Bool :=
  !x.isNaN && !y.isNaN && decide (x.rank ≤ y.rank)

/-- Numeric `<`; false as soon as one side is a NaN. -/
protected def lt (x y : Binary64) : Bool :=
  !x.isNaN && !y.isNaN && decide (x.rank < y.rank)

/-- Numeric equality: the zeros are equal, a NaN differs even from itself. -/
def numEq (x y : Binary64) : Bool :=
  !x.isNaN && !y.isNaN && decide (x.rank = y.rank)

instance : LE Binary64 := ⟨fun x y => x.le y = true⟩
instance : LT Binary64 := ⟨fun x y => x.lt y = true⟩

instance (x y : Binary64) : Decidable (x ≤ y) := inferInstanceAs (Decidable (x.le y = true))
instance (x y : Binary64) : Decidable (x < y) := inferInstanceAs (Decidable (x.lt y = true))

/-- `x`, or the nearer of the ends `lo` and `hi` when it lies outside them. A NaN stays a NaN. -/
def clamp (x lo hi : Binary64) : Binary64 :=
  if x < lo then lo else if hi < x then hi else x

/-- The lesser of two numbers; a NaN gives way to the other one. -/
def least (x y : Binary64) : Binary64 :=
  if x.isNaN then y else if y.isNaN then x else if y < x then y else x

/-! ## Arithmetic

Each operation rounds the exact result to the nearest number, ties to the even one. -/

def toFloat (x : Binary64) : Float := Float.ofBits x.bits
def ofFloat (x : Float) : Binary64 := ⟨x.toBits⟩

instance : Add Binary64 := ⟨fun x y => ofFloat (x.toFloat + y.toFloat)⟩
instance : Sub Binary64 := ⟨fun x y => ofFloat (x.toFloat - y.toFloat)⟩
instance : Mul Binary64 := ⟨fun x y => ofFloat (x.toFloat * y.toFloat)⟩
instance : Div Binary64 := ⟨fun x y => ofFloat (x.toFloat / y.toFloat)⟩

def sqrt (x : Binary64) : Binary64 := ofFloat x.toFloat.sqrt

/-- The nearest number to an unsigned 64-bit integer. -/
def ofUInt64 (n : UInt64) : Binary64 := ofFloat n.toFloat

/-! ## Lemmas -/

theorem lt_asymm {x y : Binary64} (h : x < y) : ¬ y < x := by
  intro h'
  have h1 : x.lt y = true := h
  have h2 : y.lt x = true := h'
  simp only [Binary64.lt, Bool.and_eq_true, decide_eq_true_eq] at h1 h2
  omega

end Binary64
end Gazetteer
