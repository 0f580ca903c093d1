import Gazetteer.Geodesy.Ellipsoid
import Gazetteer.Json.Printer
import Gazetteer.NameTable.Geometry
import Gazetteer.Strings.Table

/-!
# Items and schemas

An item has a name, the hash of the name, a geodetic position and the same position in earth-centred
coordinates. What else it carries depends on its schema. In a file an item is a record of fixed
size: the common fields, then the payload of the schema. Texts are stored as indices of strings.

| here | operation |
| --- | --- |
| `ItemBase.ofPosition` | `from_pos` |
| `Schema.writeItem` | `write_item` |
| `Schema.readItem` | `read_item` |
| `nameMatches` | `name_matches` |
-/

namespace Gazetteer

/-- The fields that all items have. -/
structure ItemBase where
  name : String
  hash : Int32
  pos : Position
  ecef : Ecef
deriving DecidableEq, Inhabited, Repr

/-- The common fields of an item with a name and a position. -/
def ItemBase.ofPosition [Trig] (name : String) (pos : Position) : ItemBase :=
  ⟨name, nameHash name, pos, pos.toEcef⟩

/-- A field of a record. -/
inductive RecordField where
  | int32 (v : Int32)
  | real64 (v : Binary64)
  | real32 (v : Binary32)
  /-- A text, stored as its index in the string pool. -/
  | text (s : String)
  | raw (bytes : List UInt8)
deriving DecidableEq, Repr

namespace RecordField

/-- The bytes of a field. Only a text that the pool lacks has none. -/
def encode (pool : StringPool) : RecordField → Except Error (List UInt8)
  | .int32 v => .ok (int32Bytes v)
  | .real64 v => .ok (real64Bytes v)
  | .real32 v => .ok (real32Bytes v)
  | .text s => (pool.require s).map int32Bytes
  | .raw bytes => .ok bytes

end RecordField

/-- Bytes written, and how the writing ended. Writing that fails keeps what was written before. -/
structure Written where
  bytes : List UInt8
  outcome : Except Error Unit

/-- Writes fields in order, up to the first one that cannot be written. -/
def writeFields (pool : StringPool) : List RecordField → Written
  | [] => ⟨[], .ok ()⟩
  | f :: fs =>
    match f.encode pool with
    | .error e => ⟨[], .error e⟩
    | .ok bytes =>
      let rest := writeFields pool fs
      ⟨bytes ++ rest.bytes, rest.outcome⟩

/-- A kind of item that a file can hold. -/
class Schema (α : Type) where
  /-- The name of the schema, which is the first string of a file. -/
  schemaName : String
  /-- The number of bytes after the common fields. -/
  payloadSize : Nat
  base : α → ItemBase
  /-- The texts of the payload, in the order in which they enter the string pool. -/
  strings : α → List String
  /-- The fields of the payload. -/
  payload : α → List RecordField
  /-- The item with given common fields and payload bytes. -/
  ofPayload : ItemBase → List UInt8 → StringTable → Except Error α

/-- The size of the common fields of a record. -/
def baseSize : Nat := 56

/-- The place of the index of the name in a record. -/
def nameIndexOffset : Nat := 52

namespace Schema

variable {α : Type} [Schema α]

variable (α) in
/-- The size of a record. -/
def recordSize : Nat := baseSize + payloadSize α

def itemName (item : α) : String := (base item).name

/-- The fields of a record. -/
def fields (item : α) : List RecordField :=
  let b := base item
  [.int32 b.hash, .real64 b.ecef.x, .real64 b.ecef.y, .real64 b.ecef.z,
    .real64 b.pos.lat, .real64 b.pos.lon, .real64 b.pos.alt, .text b.name] ++ payload item

/-- Writes an item as a record, which has to come out at the size of its schema. -/
def writeItem (pool : StringPool) (item : α) : Written :=
  let w := writeFields pool (fields item)
  match w.outcome with
  | .error _ => w
  | .ok () =>
    if w.bytes.length = recordSize α then w
    else ⟨w.bytes, .error (.invalidInput
      (.recordSize (schemaName α) (itemName item) w.bytes.length (recordSize α)))⟩

/-- The bytes of a record. -/
def encodeItem (pool : StringPool) (item : α) : Except Error (List UInt8) :=
  let w := writeItem pool item
  w.outcome.map fun _ => w.bytes

end Schema

/-- The 32-bit word at a place in a record. -/
def int32At (bytes : List UInt8) (offset : Nat) : Int32 := int32OfBytes ((bytes.drop offset).take 4)

/-- The binary64 number at a place in a record. -/
def real64At (bytes : List UInt8) (offset : Nat) : Binary64 :=
  real64OfBytes ((bytes.drop offset).take 8)

/-- The common fields of a record. -/
def ItemBase.decode (table : StringTable) (bytes : List UInt8) : Except Error ItemBase := do
  let name ← table.resolve (int32At bytes nameIndexOffset)
  return {
    name
    hash := int32At bytes 0
    ecef := ⟨real64At bytes 4, real64At bytes 12, real64At bytes 20⟩
    pos := ⟨real64At bytes 28, real64At bytes 36, real64At bytes 44⟩ }

namespace Schema

/-- The item whose record stands at an offset. -/
def readItem (α : Type) [Schema α] (buf : Buffer) (table : StringTable) (offset : Nat) :
    Except Error α := do
  let bytes ← buf.slice offset (recordSize α)
  let base ← ItemBase.decode table bytes
  ofPayload base (bytes.drop baseSize) table

end Schema

/-- Whether the record at an offset has a name with a hash. The stored hash is compared first, and
the name is looked at only if it agrees. -/
def nameMatches (buf : Buffer) (table : StringTable) (hash : Int32) (key : String) (offset : Nat) :
    Except Error Bool := do
  let stored ← buf.readInt32 offset
  if stored ≠ hash then return false
  let name ← table.resolve (← buf.readInt32 (offset + nameIndexOffset))
  return name == key

/-! ## JSON form -/

instance : JsonFields Position :=
  ⟨fun p => [("lat", .real64 p.lat), ("lon", .real64 p.lon), ("alt", .real64 p.alt)]⟩

instance : JsonFields Ecef :=
  ⟨fun p => [("x", .real64 p.x), ("y", .real64 p.y), ("z", .real64 p.z)]⟩

instance : JsonFields ItemBase :=
  ⟨fun b => [("name", .str b.name), ("hash", .int b.hash.toInt), ("pos", toJson b.pos),
    ("ecef", toJson b.ecef)]⟩

end Gazetteer
