import Gazetteer.Event
import Gazetteer.Geodesy.Metric
import Gazetteer.Item.Schema
import Gazetteer.Settings.Basic

/-!
# Opening a database

A buffer is accepted as a database if its header describes it, its first string names the schema,
and its sections end where the buffer ends. What stands in the records, in the name table and in the
tree is looked at only when it is needed.

| here | operation |
| --- | --- |
| `Database.ofBuffer` | `from_backing` |
-/

namespace Gazetteer

/-- An opened database of items of type `α`. -/
structure Database (α : Type) where
  buf : Buffer
  header : Header
  strings : StringTable
  layout : Layout
  metric : Metric

/-- Refuses a buffer that its header does not describe. The check value is compared
only on demand. -/
def Header.check (h : Header) (verifyChecksum : Bool) (buf : Buffer) : Except Error Unit := do
  if h.magic ≠ headerMagic then throw (.invalidFormat (.badMagic h.magic))
  if h.totalLength.toInt ≠ buf.size then
    throw (.invalidFormat (.lengthMismatch h.totalLength buf.size))
  if verifyChecksum then
    let computed := contentCrc buf.bytes
    if computed ≠ h.crc then throw (.invalidFormat (.checksumMismatch h.crc computed))

section
variable (α : Type) [Schema α]

/-- Refuses strings that do not start with the name of the schema. -/
def checkSchema (strings : StringTable) : Except Error Unit :=
  let found := (strings.get? 0).getD ""
  if found = Schema.schemaName α then .ok ()
  else .error (.schemaMismatch (Schema.schemaName α) found)

/-- The layout of a buffer whose strings end at an offset. -/
def readLayout (buf : Buffer) (offset : Nat) : Except Error Layout := do
  let count ← buf.readInt32 offset
  let size ← buf.readInt32 (offset + 4)
  if count.toInt < 0 then throw (.invalidFormat (.negativeItemCount count))
  let expected := Schema.recordSize α
  if size.toInt ≠ expected then
    throw (.invalidFormat (.itemSize size (Schema.schemaName α) expected))
  let itemsAt := offset + 8
  let n := count.toInt.toNat
  let geometry ← TableGeometry.read buf (itemsAt + n * expected)
  let layout : Layout := ⟨itemsAt, expected, n, geometry⟩
  if layout.stop ≠ buf.size then throw (.invalidFormat (.sectionsEnd layout.stop buf.size))
  return layout

namespace Database

/-- Opens a buffer. -/
def ofBuffer (settings : Settings) (buf : Buffer) : Except Error (Database α) := do
  settings.check.mapError .settings
  let header ← Header.read buf
  header.check settings.verifyChecksum buf
  let (strings, stop) ← StringTable.read buf headerSize
  checkSchema α strings
  let layout ← readLayout α buf stop
  return ⟨buf, header, strings, layout, ⟨settings.longRangeThreshold⟩⟩

end Database
end

namespace Database

variable {α : Type}

/-- The number of items. -/
def size (db : Database α) : Nat := db.layout.count

/-- The time of building, in milliseconds since 1970. -/
def buildDate (db : Database α) : Int64 := db.header.date

/-- The spatial tree. -/
def tree (db : Database α) : StoredTree :=
  ⟨db.buf, if db.size = 0 then none else some db.layout.nodesAt, db.size⟩

variable [Schema α]

/-- The log of opening a buffer. -/
def openLog (r : Except Error (Database α)) : Logged (Database α) :=
  match r with
  | .ok db => ⟨[.sections (Schema.schemaName α) db.strings.size db.layout], r⟩
  | .error (.invalidFormat (.checksumMismatch stored computed)) =>
    ⟨[.checksumMismatch stored computed], r⟩
  | .error _ => ⟨[], r⟩

end Database
end Gazetteer
