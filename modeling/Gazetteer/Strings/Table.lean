import Gazetteer.Strings.Pool

/-!
# The string table

When a file is opened its strings are decoded once; records then resolve their indices in the table.
A table is read entry by entry, and the first entry that is not exactly as it would have been
written decides the error.

| here | operation |
| --- | --- |
| `StringTable.read` | `read` |
| `StringTable.get?`, `StringTable.resolve` | `get`, `resolve` |
-/

namespace Gazetteer

/-- The strings of an opened file. -/
structure StringTable where
  strings : Array String
deriving DecidableEq, Inhabited, Repr

namespace StringTable

def size (table : StringTable) : Nat := table.strings.size

def toList (table : StringTable) : List String := table.strings.toList

/-- The string with an index; negative indices have none. -/
def get? (table : StringTable) (index : Int32) : Option String :=
  if 0 ≤ index.toInt then table.strings[index.toInt.toNat]? else none

/-- The string that a record refers to. -/
def resolve (table : StringTable) (index : Int32) : Except Error String :=
  match table.get? index with
  | some s => .ok s
  | none => .error (.corrupted (.stringIndex index))

end StringTable

/-- The text of string number `index`, from its bytes and the byte after them. -/
def decodeText (index : Nat) (content : List UInt8) (terminator : UInt8) : Except Error String :=
  if terminator ≠ 0 then .error (.invalidFormat (.unterminatedString index))
  else match String.fromUTF8? ⟨content.toArray⟩ with
    | some s => .ok s
    | none => .error (.invalidFormat (.notUtf8 index ((utf8Fault? content).getD (.invalid 1 0))))

/-- String number `index`, at `offset`, and the offset after it. -/
def readString (buf : Buffer) (index offset : Nat) : Except Error (String × Nat) := do
  let length ← buf.readInt32 offset
  if length.toInt < 0 then throw (.invalidFormat (.negativeStringLength length index))
  let n := length.toInt.toNat
  let bytes ← buf.slice (offset + 4) (n + 1)
  let s ← decodeText index (bytes.take n) (bytes.getD n 0)
  return (s, offset + 4 + n + 1)

/-- `count` strings from number `index` on, at `offset`, and the offset after them. -/
def readStringsFrom (buf : Buffer) : (count index offset : Nat) → Except Error (List String × Nat)
  | 0, _, offset => .ok ([], offset)
  | count + 1, index, offset => do
    let (s, next) ← readString buf index offset
    let (ss, stop) ← readStringsFrom buf count (index + 1) next
    return (s :: ss, stop)

/-- The string table at `offset`, and the offset after it. -/
def StringTable.read (buf : Buffer) (offset : Nat) : Except Error (StringTable × Nat) := do
  let count ← buf.readInt32 offset
  if count.toInt < 0 then throw (.invalidFormat (.negativeStringCount count))
  let (ss, stop) ← readStringsFrom buf count.toInt.toNat 0 (offset + 4)
  return (⟨ss.toArray⟩, stop)

end Gazetteer
