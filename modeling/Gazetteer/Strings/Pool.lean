import Gazetteer.Bytes.Buffer
import Std.Data.HashMap

/-!
# The string pool

While a file is built, its strings are collected in a pool that keeps one copy of each, in the order
of first occurrence. Records refer to strings by their index in the pool. The pool is written as a
count, followed for each string by its length in bytes, its UTF-8 bytes and a zero.

| here | operation |
| --- | --- |
| `StringPool.add` | `add_string` |
| `StringPool.indexOf?`, `StringPool.require` | `index_of`, `require` |
| `encodeStrings` | `write` |
-/

namespace Gazetteer

/-- Distinct strings in the order of their first occurrence, with the index of each. -/
structure StringPool where
  strings : Array String
  indices : Std.HashMap String Nat

namespace StringPool

def empty : StringPool := ⟨#[], ∅⟩

instance : EmptyCollection StringPool := ⟨empty⟩

def size (pool : StringPool) : Nat := pool.strings.size

/-- The strings, in the order of their first occurrence. -/
def toList (pool : StringPool) : List String := pool.strings.toList

def indexOf? (pool : StringPool) (s : String) : Option Nat := pool.indices[s]?

def contains (pool : StringPool) (s : String) : Bool := pool.indices.contains s

/-- Adds a string, unless the pool has it. -/
def insert (pool : StringPool) (s : String) : StringPool :=
  if pool.contains s then pool
  else ⟨pool.strings.push s, pool.indices.insert s pool.strings.size⟩

/-- Adds strings in order. -/
def insertMany (pool : StringPool) (ss : List String) : StringPool := ss.foldl insert pool

/-- Adds a string, and tells whether it is new. -/
def add (pool : StringPool) (s : String) : Bool × StringPool := (!pool.contains s, pool.insert s)

/-- Adds strings in order, and tells of each whether it was new. -/
def addMany (pool : StringPool) : List String → List Bool × StringPool
  | [] => ([], pool)
  | s :: ss =>
    let (isNew, next) := pool.add s
    let (answers, last) := next.addMany ss
    (isNew :: answers, last)

/-- The index of a string that a record refers to. -/
def require (pool : StringPool) (s : String) : Except Error Int32 :=
  match pool.indexOf? s with
  | some i => .ok (Int32.ofNat i)
  | none => .error (.invalidInput (.unknownString s))

end StringPool

/-- The UTF-8 bytes of a string. -/
def utf8Bytes (s : String) : List UInt8 := s.toUTF8.data.toList

/-- One string of the file: length, bytes, zero. -/
def encodeString (s : String) : Except Error (List UInt8) := do
  let length ← toInt32 (utf8Bytes s).length "string length"
  return int32Bytes length ++ utf8Bytes s ++ [0]

/-- The strings of the file: count, then each string. -/
def encodeStrings (ss : List String) : Except Error (List UInt8) := do
  let count ← toInt32 ss.length "string count"
  let entries ← ss.mapM encodeString
  return int32Bytes count ++ entries.flatten

end Gazetteer
