/-!
# Faults of UTF-8

Where a byte sequence first leaves UTF-8, and how. A fault is *incomplete* when the bytes end inside
a character that could still have become one; otherwise it is the bytes of that character up to the
first one that cannot follow.
-/

namespace Gazetteer

/-- The first departure from UTF-8 in a byte sequence, with the index at which
its character starts. -/
inductive Utf8Fault where
  | invalid (length : Nat) (index : Nat)
  | incomplete (index : Nat)
deriving DecidableEq, Repr, Inhabited

namespace Utf8Fault

def message : Utf8Fault → String
  | .invalid length index => s!"invalid utf-8 sequence of {length} bytes from index {index}"
  | .incomplete index => s!"incomplete utf-8 byte sequence from index {index}"

end Utf8Fault

/-- For a byte that starts a character of several bytes: how many bytes follow it, and between which
ends the first of them lies. -/
def utf8Lead? (b : UInt8) : Option (Nat × UInt8 × UInt8) :=
  if 0xc2 ≤ b ∧ b ≤ 0xdf then some (1, 0x80, 0xbf)
  else if b = 0xe0 then some (2, 0xa0, 0xbf)
  else if b = 0xed then some (2, 0x80, 0x9f)
  else if 0xe1 ≤ b ∧ b ≤ 0xef then some (2, 0x80, 0xbf)
  else if b = 0xf0 then some (3, 0x90, 0xbf)
  else if b = 0xf4 then some (3, 0x80, 0x8f)
  else if 0xf1 ≤ b ∧ b ≤ 0xf3 then some (3, 0x80, 0xbf)
  else none

/-- The first fault of a byte sequence whose first byte has the given index: an open character is
described by where it starts, how many of its bytes were seen, how many are still missing and
between which ends the next one lies. -/
def utf8FaultFrom : (index : Nat) → (pending : Option (Nat × Nat × Nat × UInt8 × UInt8)) →
    List UInt8 → Option Utf8Fault
  | _, none, [] => none
  | _, some (start, _, _, _, _), [] => some (.incomplete start)
  | i, none, b :: rest =>
    if b < 0x80 then utf8FaultFrom (i + 1) none rest
    else match utf8Lead? b with
      | none => some (.invalid 1 i)
      | some (missing, lo, hi) => utf8FaultFrom (i + 1) (some (i, 1, missing, lo, hi)) rest
  | i, some (start, seen, missing, lo, hi), b :: rest =>
    if b < lo ∨ hi < b then some (.invalid seen start)
    else if missing ≤ 1 then utf8FaultFrom (i + 1) none rest
    else utf8FaultFrom (i + 1) (some (start, seen + 1, missing - 1, 0x80, 0xbf)) rest

/-- The first fault of a byte sequence, if it has one. -/
def utf8Fault? (bytes : List UInt8) : Option Utf8Fault := utf8FaultFrom 0 none bytes

end Gazetteer
