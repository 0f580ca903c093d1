import Gazetteer.Bytes.Buffer
import Gazetteer.Bytes.Checksum

/-!
# The file header

Twenty bytes: a magic word, the length of the whole file, the check value of everything after the
header, and the build date in milliseconds since 1970. A header is first written with empty length
and check value and sealed once the file is complete.

| here | operation |
| --- | --- |
| `Header.read` | `read` |
| `Header.reserved` | `write_reserved` |
| `contentCrc` | `checksum` |
| `sealHeader` | `backfill_header` |
-/

namespace Gazetteer

/-- The letters `RGIS`. -/
def headerMagic : Int32 := 0x52474953

def headerSize : Nat := 20

/-- The four words of a header. -/
structure Header where
  magic : Int32
  totalLength : Int32
  crc : Int32
  date : Int64
deriving DecidableEq, Inhabited, Repr

namespace Header

/-- The header at the start of a buffer. -/
def read (buf : Buffer) : Except Error Header :=
  if buf.size < headerSize then .error (.invalidFormat (.shortHeader buf.size))
  else do
    return {
      magic := ← buf.readInt32 0
      totalLength := ← buf.readInt32 4
      crc := ← buf.readInt32 8
      date := int64OfBytes (← buf.slice 12 8) }

/-- A header whose length and check value are still to be filled in. -/
def reserved (date : Int64) : List UInt8 :=
  int32Bytes headerMagic ++ int32Bytes 0 ++ int32Bytes 0 ++ int64Bytes date

@[simp] theorem length_reserved (date : Int64) : (reserved date).length = headerSize := by
  simp [reserved, headerSize, int32Bytes, int64Bytes]

end Header

/-- The check value of everything after the header. -/
def contentCrc (bytes : List UInt8) : Int32 := (crc32 (bytes.drop headerSize)).toInt32

/-- Replaces the word at an offset. -/
def putWord (bytes : List UInt8) (offset : Nat) (v : Int32) : Except Error (List UInt8) :=
  if offset + 4 ≤ bytes.length then
    .ok (bytes.take offset ++ int32Bytes v ++ bytes.drop (offset + 4))
  else .error (.aborted .noHeader)

/-- Fills in the length of a complete file. -/
def sealLength (bytes : List UInt8) : Except Error (List UInt8) := do
  putWord bytes 4 (← toInt32 bytes.length "total length")

/-- Fills in the check value of a complete file. -/
def sealCrc (bytes : List UInt8) : Except Error (List UInt8) := putWord bytes 8 (contentCrc bytes)

/-- Fills in the length and the check value of a complete file. -/
def sealHeader (bytes : List UInt8) : Except Error (List UInt8) := sealLength bytes >>= sealCrc

end Gazetteer
