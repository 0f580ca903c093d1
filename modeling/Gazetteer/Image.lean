import Gazetteer.Draft.Basic
import Gazetteer.Event
import Gazetteer.NameTable.Slots

/-!
# Packing a draft

The items of a draft become the bytes of a file, section by section: header, strings, records, name
table, spatial tree. The bytes depend on the items, their order and the date, and on nothing else.

| here | operation |
| --- | --- |
| `Draft.pack` | `to_bytes` |
-/

namespace Gazetteer

/-- A packed file: its bytes, where the sections lie, and the number of levels of the tree. -/
structure Image where
  bytes : List UInt8
  layout : Layout
  depth : Nat
deriving DecidableEq, Inhabited, Repr

namespace Draft

variable {α : Type} [Schema α]

/-- The strings that the file of a draft holds, in the order of their first use: the name of the
schema, then for each item its name and the texts of its payload. -/
def usedStrings (d : Draft α) : List String :=
  Schema.schemaName α :: d.toList.flatMap fun i => Schema.itemName i :: Schema.strings i

def pool (d : Draft α) : StringPool := (∅ : StringPool).insertMany d.usedStrings

/-- The header, the strings, and the two words before the records. -/
def encodeFront (d : Draft α) (date : Int64) : Except Error (List UInt8) := do
  let strings ← encodeStrings d.pool.toList
  let count ← toInt32 d.size "item count"
  let size ← toInt32 (Schema.recordSize α) "item size"
  return Header.reserved date ++ strings ++ int32Bytes count ++ int32Bytes size

/-- The records. -/
def encodeRecords (d : Draft α) : Except Error (List UInt8) := do
  let records ← d.toList.mapM (Schema.encodeItem d.pool)
  return records.flatten

/-- The entries of the name table: the hash of each item, with the place of its record. -/
def slotEntries (d : Draft α) (l : Layout) : List SlotEntry :=
  d.toList.zipWith (fun i place => ⟨(Schema.base i).hash, place⟩) l.itemPlaces

/-- The name table. -/
def encodeNames (d : Draft α) (l : Layout) : Except Error (List UInt8) := do
  let slots ← buildSlots l.geometry (d.slotEntries l)
  encodeSlots l.geometry slots

/-- The spatial tree of the items. -/
def tree (d : Draft α) : Tree := Tree.ofPoints d.points.toList

/-- The bytes of a file whose front is written and whose layout is known. -/
def packBehind (d : Draft α) (front : List UInt8) (l : Layout) : Except Error Image := do
  let records ← d.encodeRecords
  let names ← d.encodeNames l
  let nodes ← l.plan.encodeNodes d.tree.nodes
  let bytes := front ++ (records ++ (names ++ nodes))
  let _ ← toInt32 bytes.length "database length"
  return ⟨← sealHeader bytes, l, d.tree.height⟩

/-- The bytes of a file, and where its sections lie. -/
def pack (d : Draft α) (date : Int64) : Except Error Image := do
  if d.items.isEmpty then throw .noItems
  let geometry ← TableGeometry.forItems d.size
  let front ← d.encodeFront date
  d.packBehind front ⟨front.length, Schema.recordSize α, d.size, geometry⟩

/-- The log of a packing. -/
def packLog (α : Type) [Schema α] (r : Except Error Image) : Logged Image :=
  match r with
  | .ok image => ⟨[.packed (Schema.schemaName α) image.layout image.depth], r⟩
  | .error _ => ⟨[], r⟩

end Draft
end Gazetteer
