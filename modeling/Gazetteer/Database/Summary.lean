import Gazetteer.Database.Basic

/-!
# Summary of a database

The numbers that describe a file. Its tree is walked once for the number of levels, so a damaged
tree has no summary.

| here | operation |
| --- | --- |
| `Database.summary` | `info` |
-/

namespace Gazetteer

/-- The structure of a file in numbers. -/
structure Summary where
  schema : String
  size : Nat
  buildDate : Int64
  crc : UInt32
  strings : Nat
  layout : Layout
  depth : Nat
deriving DecidableEq, Inhabited, Repr

instance : JsonFields Summary :=
  ⟨fun s => [
    ("schema", .str s.schema),
    ("byte_length", .int s.size),
    ("build_date", .int s.buildDate.toInt),
    ("crc32", .int s.crc.toNat),
    ("n_strings", .int s.strings),
    ("n_items", .int s.layout.count),
    ("item_size", .int s.layout.itemSize),
    ("map_length", .int s.layout.geometry.length),
    ("map_rehash", .int s.layout.geometry.rehash),
    ("kdtree_depth", .int s.depth),
    ("items_offset", .int s.layout.itemsAt),
    ("keymap_offset", .int s.layout.mapAt),
    ("kdtree_offset", .int s.layout.nodesAt)]⟩

/-- The summary of a database. -/
def Database.summary {α : Type} [Schema α] (db : Database α) : Except Error Summary := do
  let depth ← db.tree.depth
  return {
    schema := Schema.schemaName α
    size := db.buf.size
    buildDate := db.buildDate
    crc := db.header.crc.toUInt32
    strings := db.strings.size
    layout := db.layout
    depth }

end Gazetteer
