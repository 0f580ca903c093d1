import Gazetteer.Bytes.Buffer

/-!
# Geometry of the name table

Names are found through a table of record offsets, indexed by a hash of the name. Collisions are
resolved by double hashing: from the slot of the hash onwards in steps that depend on the hash too.
A table is twice as long as it has items, and its length is a prime, so that the steps reach every
slot.

| here | operation |
| --- | --- |
| `nameHash` | `name_hash` |
| `TableGeometry.forItems` | `for_items` |
| `TableGeometry.read` | `read_params` |
| `Probe.start`, `Probe.next` | `probe`, `next` |
-/

namespace Gazetteer

/-- The 32-bit FNV-1a hash of the bytes of a name. -/
def nameHash (name : String) : Int32 :=
  (name.toUTF8.data.toList.foldl (fun (h : UInt32) b => (h ^^^ b.toUInt32) * 0x01000193)
    0x811c9dc5).toInt32

/-- Length of the slot array, and the number whose remainders make the steps. -/
structure TableGeometry where
  length : Nat
  rehash : Nat
deriving DecidableEq, Inhabited, Repr

namespace TableGeometry

/-- Numbers of items, each with the table for up to that many: the length is a prime above twice the
number, and the rehash is the prime two below the length. -/
def choices : List (Nat × TableGeometry) := [
  (8, ⟨19, 17⟩), (16, ⟨43, 41⟩), (32, ⟨73, 71⟩), (64, ⟨139, 137⟩), (128, ⟨271, 269⟩),
  (256, ⟨523, 521⟩), (512, ⟨1033, 1031⟩), (1024, ⟨2083, 2081⟩), (2048, ⟨4129, 4127⟩),
  (4096, ⟨8221, 8219⟩), (8192, ⟨16453, 16451⟩), (16384, ⟨32803, 32801⟩), (32768, ⟨65539, 65537⟩),
  (65536, ⟨131113, 131111⟩), (131072, ⟨262153, 262151⟩), (262144, ⟨524353, 524351⟩),
  (524288, ⟨1048891, 1048889⟩), (1048576, ⟨2097259, 2097257⟩), (2097152, ⟨4194583, 4194581⟩),
  (4194304, ⟨8388619, 8388617⟩), (8388608, ⟨16777291, 16777289⟩),
  (16777216, ⟨33554503, 33554501⟩), (33554432, ⟨67109323, 67109321⟩)]

/-- The smallest table for a number of items. -/
def forItems (count : Nat) : Except Error TableGeometry :=
  match choices.find? fun (most, _) => count ≤ most with
  | some (_, geometry) => .ok geometry
  | none => .error (.tooLarge (.itemCount count))

/-- The size of a table in bytes: two words of geometry and one for each slot. -/
def byteSize (g : TableGeometry) : Nat := 8 + 4 * g.length

/-- The geometry as it stands before the slots. -/
def encode (g : TableGeometry) : Except Error (List UInt8) := do
  let length ← toInt32 g.length "map length"
  let rehash ← toInt32 g.rehash "map rehash"
  return int32Bytes length ++ int32Bytes rehash

/-- The geometry at an offset. The rehash has to be positive and below the length. -/
def read (buf : Buffer) (offset : Nat) : Except Error TableGeometry := do
  let length ← buf.readInt32 offset
  let rehash ← buf.readInt32 (offset + 4)
  if length.toInt ≤ 0 ∨ rehash.toInt ≤ 0 ∨ length.toInt ≤ rehash.toInt then
    throw (.invalidFormat (.tableGeometry length rehash))
  return ⟨length.toInt.toNat, rehash.toInt.toNat⟩

end TableGeometry

/-! ## Probes -/

/-- The sequence of slots that a hash visits: where it is, how far it steps, and the length of the
table it runs around in. -/
structure Probe where
  slot : Nat
  step : Nat
  length : Nat
deriving DecidableEq, Inhabited, Repr

namespace Probe

/-- The probe of a hash. A table without slots or without a rehash has none. -/
def start (hash : Int32) (g : TableGeometry) : Except Error Probe :=
  if g.length = 0 ∨ g.rehash = 0 then .error (.aborted .emptyTable)
  else
    let h := hash.toUInt32.toNat
    .ok ⟨h % g.length, 1 + h % g.rehash, g.length⟩

/-- One step on, around the end of the table. -/
def next (p : Probe) : Probe := { p with slot := (p.slot + p.step) % p.length }

/-- The first `n` slots. -/
def take : (n : Nat) → Probe → List Nat
  | 0, _ => []
  | n + 1, p => p.slot :: take n p.next

@[simp] theorem length_take (n : Nat) (p : Probe) : (take n p).length = n := by
  induction n generalizing p with
  | zero => rfl
  | succ n ih => simp [take, ih]

end Probe
end Gazetteer
