import Gazetteer.Header
import Gazetteer.NameTable.Geometry
import Gazetteer.SpatialTree.Stored

/-!
# The sections of a file

The header is followed by the strings, the number of items and the size of a record, the records,
the name table, and the nodes of the spatial tree. Once it is known where the records start, how
many they are and which geometry the name table has, the other places follow.
-/

namespace Gazetteer

/-- Where the sections of a file lie. -/
structure Layout where
  itemsAt : Nat
  itemSize : Nat
  count : Nat
  geometry : TableGeometry
deriving DecidableEq, Inhabited, Repr

namespace Layout

/-- The place of the record of an item. -/
def itemAt (l : Layout) (i : Nat) : Nat := l.itemsAt + i * l.itemSize

/-- The place of the name table. -/
def mapAt (l : Layout) : Nat := l.itemAt l.count

/-- The place of the slots, after the two words of geometry. -/
def slotsAt (l : Layout) : Nat := l.mapAt + 8

/-- The place of the nodes of the spatial tree. -/
def nodesAt (l : Layout) : Nat := l.mapAt + l.geometry.byteSize

/-- The places that the nodes of the spatial tree refer to. -/
def plan (l : Layout) : TreePlan := ⟨l.nodesAt, l.itemsAt, l.itemSize⟩

/-- The size of the file. -/
def stop (l : Layout) : Nat := l.nodesAt + l.count * nodeSize

/-- The places of all records, in order. -/
def itemPlaces (l : Layout) : List Nat := (List.range l.count).map l.itemAt

/-- The places by section, as shown in a log line. -/
def inspect (l : Layout) : String :=
  s!"items@{l.itemsAt} map@{l.mapAt} (length={l.geometry.length} rehash={l.geometry.rehash}) " ++
  s!"kdtree@{l.nodesAt}"

/-! ## Lemmas -/

theorem itemAt_succ (l : Layout) (i : Nat) : l.itemAt (i + 1) = l.itemAt i + l.itemSize := by
  simp [itemAt, Nat.add_mul, Nat.add_assoc]

theorem nodesAt_eq (l : Layout) : l.nodesAt = l.slotsAt + 4 * l.geometry.length := by
  simp [nodesAt, slotsAt, TableGeometry.byteSize, Nat.add_assoc]

@[simp] theorem length_itemPlaces (l : Layout) : l.itemPlaces.length = l.count := by
  simp [itemPlaces]

end Layout
end Gazetteer
