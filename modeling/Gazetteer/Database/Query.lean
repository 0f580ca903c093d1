import Gazetteer.Database.Basic
import Gazetteer.Geodesy.Validity
import Gazetteer.NameTable.Slots
import Gazetteer.SpatialTree.Search

/-!
# Questions to a database

Items are found by name through the name table, and by place through the spatial tree. An answer is
always the item of a record of the file; a file that is damaged where an answer needs it gives an
error.

| here | operation |
| --- | --- |
| `Database.items`, `Database.get?` | `items`, `get_item` |
| `Database.nearest?` | `get_nearest_item` |
| `Database.kNearest` | `get_n_nearest_items` |
| `Database.within` | `get_items_within` |
-/

namespace Gazetteer

/-- An item, and its distance in metres from where the question was asked. -/
structure Neighbor (α : Type) where
  item : α
  distance : Binary64
deriving DecidableEq, Repr

instance {α : Type} [JsonFields α] : JsonFields (Neighbor α) :=
  ⟨fun n => ("distance_m", .real64 n.distance) :: JsonFields.jsonFields n.item⟩

namespace Database

variable {α : Type} [Schema α]

/-- The item whose record stands at an offset. -/
def read (db : Database α) (offset : Nat) : Except Error α :=
  Schema.readItem α db.buf db.strings offset

/-- All items in the order of the file, with an error in the place of each damaged one. -/
def items (db : Database α) : List (Except Error α) := db.layout.itemPlaces.map db.read

/-! ## By name -/

/-- The search for a name in the name table. -/
def searchName (db : Database α) (name : String) : SlotSearch :=
  let hash := nameHash name
  lookupSlots db.buf db.layout.slotsAt db.layout.geometry db.size hash
    (nameMatches db.buf db.strings hash name)

/-- The item with a name. -/
def get? (db : Database α) (name : String) : Except Error (Option α) := do
  match ← (db.searchName name).result with
  | none => return none
  | some offset => return some (← db.read offset)

/-! ## By place -/

section
variable [Trig]

/-- What a selection makes of the items, seen from a position. -/
def search {σ : Type} [Selection σ] (db : Database α) (pos : Position) (s : σ) :
    Except Error σ := do
  unlessInput pos.isFinite (.queryNotFinite pos)
  let r := db.tree.search db.metric pos.toEcef s
  r.outcome
  return r.selection

/-- The items of hits. -/
def resolve (db : Database α) (hits : List Hit) : Except Error (List (Neighbor α)) :=
  hits.mapM fun h => do return ⟨← db.read h.offset, h.distance⟩

/-- The nearest item; there is none in an empty database only. -/
def nearest? (db : Database α) (pos : Position) : Except Error (Option (Neighbor α)) := do
  let s ← db.search pos Nearest.empty
  return (← db.resolve s.hits).head?

/-- The `k` nearest items, nearest first. -/
def kNearest (db : Database α) (pos : Position) (k : Nat) : Except Error (List (Neighbor α)) := do
  let s ← db.search pos (KNearest.empty k)
  db.resolve s.hits

/-- The items within a distance, nearest first. -/
def within (db : Database α) (pos : Position) (distance : Binary64) :
    Except Error (List (Neighbor α)) := do
  unlessInput (!distance.isNaN) .distanceNaN
  let s ← db.search pos (Within.empty distance)
  db.resolve s.hits

end
end Database
end Gazetteer
