import Gazetteer.Number.Binary64
import Gazetteer.Number.Rounding

/-!
# Big-endian words

Numbers of a file as bytes, most significant first, and back. `ofBigEndian_bigEndian` says that
reading what was written gives the number modulo the width.
-/

namespace Gazetteer

/-- The last `width` bytes of a number, most significant first. -/
def bigEndian : (width : Nat) → Nat → List UInt8
  | 0, _ => []
  | width + 1, n => bigEndian width (n / 256) ++ [UInt8.ofNat n]

/-- The number that bytes write, most significant first. -/
def ofBigEndian (bytes : List UInt8) : Nat := bytes.foldl (fun n b => 256 * n + b.toNat) 0

/-! ## Words of the file format -/

def int32Bytes (v : Int32) : List UInt8 := bigEndian 4 v.toUInt32.toNat

def int64Bytes (v : Int64) : List UInt8 := bigEndian 8 v.toUInt64.toNat

def real64Bytes (v : Binary64) : List UInt8 := bigEndian 8 v.bits.toNat

def real32Bytes (v : Binary32) : List UInt8 := bigEndian 4 v.bits.toNat

def int32OfBytes (bytes : List UInt8) : Int32 := (UInt32.ofNat (ofBigEndian bytes)).toInt32

def int64OfBytes (bytes : List UInt8) : Int64 := (UInt64.ofNat (ofBigEndian bytes)).toInt64

def real64OfBytes (bytes : List UInt8) : Binary64 := ⟨UInt64.ofNat (ofBigEndian bytes)⟩

def real32OfBytes (bytes : List UInt8) : Binary32 := ⟨UInt32.ofNat (ofBigEndian bytes)⟩

/-! ## Lemmas -/

@[simp] theorem length_bigEndian (width n : Nat) : (bigEndian width n).length = width := by
  induction width generalizing n with
  | zero => rfl
  | succ width ih => simp [bigEndian, ih]

theorem ofBigEndian_append_one (bytes : List UInt8) (b : UInt8) :
    ofBigEndian (bytes ++ [b]) = 256 * ofBigEndian bytes + b.toNat := by
  simp [ofBigEndian]

theorem ofBigEndian_bigEndian (width n : Nat) :
    ofBigEndian (bigEndian width n) = n % Nat.pow 256 width := by
  induction width generalizing n with
  | zero => exact (Nat.mod_one n).symm
  | succ width ih =>
    have h : Nat.pow 256 (width + 1) = 256 * Nat.pow 256 width := Nat.mul_comm _ _
    rw [bigEndian, ofBigEndian_append_one, ih, h, Nat.mod_mul, UInt8.toNat_ofNat']
    omega

/-- A number that fits its width is read back as it was written. -/
theorem ofBigEndian_bigEndian_of_lt {width n : Nat} (h : n < Nat.pow 256 width) :
    ofBigEndian (bigEndian width n) = n := by
  rw [ofBigEndian_bigEndian, Nat.mod_eq_of_lt h]

theorem int32OfBytes_int32Bytes (v : Int32) : int32OfBytes (int32Bytes v) = v := by
  rw [int32OfBytes, int32Bytes, ofBigEndian_bigEndian_of_lt v.toUInt32.toNat_lt]
  simp

theorem int64OfBytes_int64Bytes (v : Int64) : int64OfBytes (int64Bytes v) = v := by
  rw [int64OfBytes, int64Bytes, ofBigEndian_bigEndian_of_lt v.toUInt64.toNat_lt]
  simp

theorem real64OfBytes_real64Bytes (v : Binary64) : real64OfBytes (real64Bytes v) = v := by
  rw [real64OfBytes, real64Bytes, ofBigEndian_bigEndian_of_lt v.bits.toNat_lt]
  simp

theorem real32OfBytes_real32Bytes (v : Binary32) : real32OfBytes (real32Bytes v) = v := by
  rw [real32OfBytes, real32Bytes, ofBigEndian_bigEndian_of_lt v.bits.toNat_lt]
  simp

end Gazetteer
