import Gazetteer.Bytes.BigEndian
import Gazetteer.Error

/-!
# Reading from a buffer

Every read names an offset and a length and fails as damage when the bytes are not all there;
nothing is read past the end. Offsets stored in a file use `-1` for *none*.

| here | operation |
| --- | --- |
| `toInt32` | `to_i32` |
| `Buffer.slice` | `slice_at`, `read_bytes` |
| `Buffer.readInt32`, `Buffer.readReal64`, `Buffer.readOffset` | `read_i32`, `read_f64`, `read_offset` |
-/

namespace Gazetteer

/-- The bytes of a file. -/
abbrev Buffer := ByteArray

/-- The stored form of a missing offset: an unused slot or an absent child. -/
def emptyOffset : Int32 := -1

/-- Narrows a size or an offset to the 32 bits of the file format. -/
def toInt32 (value : Nat) (what : String) : Except Error Int32 :=
  if value < 0x80000000 then .ok (Int32.ofNat value) else .error (.tooLarge (.int32 what value))

namespace Buffer

def ofList (bytes : List UInt8) : Buffer := ⟨bytes.toArray⟩

/-- The bytes of a buffer, in order. -/
def bytes (buf : Buffer) : List UInt8 := buf.data.toList

/-- The `length` bytes at `offset`. -/
def slice (buf : Buffer) (offset length : Nat) : Except Error (List UInt8) :=
  if offset + length ≤ buf.size then .ok (buf.extract offset (offset + length)).data.toList
  else .error (.corrupted (.outsideBuffer length offset buf.size))

def readInt32 (buf : Buffer) (offset : Nat) : Except Error Int32 :=
  (buf.slice offset 4).map int32OfBytes

def readReal64 (buf : Buffer) (offset : Nat) : Except Error Binary64 :=
  (buf.slice offset 8).map real64OfBytes

/-- A stored offset; `-1` stands for none, and any other negative number is damage. -/
def readOffset (buf : Buffer) (offset : Nat) : Except Error (Option Nat) := do
  let v ← buf.readInt32 offset
  if v = emptyOffset then return none
  else if 0 ≤ v.toInt then return some v.toInt.toNat
  else throw (.corrupted (.negativeOffset v offset))

/-! ## Lemmas -/

@[simp] theorem bytes_ofList (bytes : List UInt8) : (ofList bytes).bytes = bytes := rfl

theorem length_bytes (buf : Buffer) : buf.bytes.length = buf.size := rfl

theorem slice_eq (buf : Buffer) (offset length : Nat) (h : offset + length ≤ buf.size) :
    buf.slice offset length = .ok ((buf.bytes.drop offset).take length) := by
  have e : offset + length - offset = length := by omega
  simp [slice, h, bytes, List.extract_eq_take_drop, ByteArray.data_extract, Array.toList_extract, e]

end Buffer
end Gazetteer
