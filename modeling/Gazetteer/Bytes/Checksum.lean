/-!
# CRC-32

The cyclic redundancy check of IEEE 802.3, bit by bit: a register of 32 bits that starts and ends
complemented, least significant bit first, with the reflected polynomial.
-/

namespace Gazetteer

/-- The reflected generator polynomial. -/
def crcPolynomial : UInt32 := 0xedb88320

/-- One bit through the register. -/
def crcBit (r : UInt32) : UInt32 :=
  if r &&& 1 = 1 then (r >>> 1) ^^^ crcPolynomial else r >>> 1

/-- One byte through the register. -/
def crcByte (r : UInt32) (b : UInt8) : UInt32 :=
  crcBit (crcBit (crcBit (crcBit (crcBit (crcBit (crcBit (crcBit (r ^^^ b.toUInt32))))))))

/-- The check value of a byte sequence. -/
def crc32 (bytes : List UInt8) : UInt32 :=
  bytes.foldl crcByte 0xffffffff ^^^ 0xffffffff

end Gazetteer
