import Gazetteer.Geodesy.Metric
import Gazetteer.SpatialTree.Selection
import Gazetteer.SpatialTree.Stored

/-!
# Searching a stored tree

A search walks from the root into the half that holds the target first. It carries the box that the
rest of the tree is known to lie in, and leaves out the other half when the selection admits nothing
from the point of its box nearest to the target. The tree may come from a damaged file: every read
is checked, and the walk is cut off at twice the levels that a balanced tree needs.

| here | operation |
| --- | --- |
| `StoredTree.search` | `search` |
| `searchFrom` | `search_node` |
| `maxLevels` | `max_search_depth` |
| `admitsBox` | `prune` |
| `readEcef` | `read_ecef` |
-/

namespace Gazetteer

/-! ## Boxes -/

/-- An axis-aligned box, given by its lowest and highest coordinates. -/
structure Box where
  low : Ecef
  high : Ecef
deriving DecidableEq, Inhabited, Repr

namespace Box

/-- The whole of space. -/
def unbounded : Box :=
  ⟨⟨.negInfinity, .negInfinity, .negInfinity⟩, ⟨.infinity, .infinity, .infinity⟩⟩

/-- The part of a box above a plane. -/
def above (b : Box) (axis : Axis) (v : Binary64) : Box := { b with low := b.low.setCoord axis v }

/-- The part of a box below a plane. -/
def below (b : Box) (axis : Axis) (v : Binary64) : Box := { b with high := b.high.setCoord axis v }

/-- Moves one coordinate of a point into a box, which must have room on that axis. -/
def clampCoord (b : Box) (axis : Axis) (p : Ecef) : Except Error Ecef :=
  if b.low.coord axis ≤ b.high.coord axis then
    .ok (p.setCoord axis ((p.coord axis).clamp (b.low.coord axis) (b.high.coord axis)))
  else .error (.aborted .contradictoryBox)

/-- The point of a box nearest to a target. -/
def closest (b : Box) (target : Ecef) : Except Error Ecef := do
  let p ← b.clampCoord .x target
  let p ← b.clampCoord .y p
  b.clampCoord .z p

end Box

/-! ## Nodes -/

/-- The place of the earth-centred position in a record. -/
def ecefOffset : Nat := 4

/-- The earth-centred position of the record at an offset. -/
def readEcef (buf : Buffer) (item : Nat) : Except Error Ecef := do
  return {
    x := ← buf.readReal64 (item + ecefOffset)
    y := ← buf.readReal64 (item + ecefOffset + 8)
    z := ← buf.readReal64 (item + ecefOffset + 16) }

/-- A node as a search meets it: its item, its children, and the position of the item. -/
structure Visit where
  item : Nat
  left : Option Nat
  right : Option Nat
  pivot : Ecef
deriving DecidableEq, Inhabited, Repr

/-- Reads the node at an offset. It has to have an item with a finite position. -/
def readVisit (buf : Buffer) (node : Nat) : Except Error Visit := do
  match ← buf.readOffset node with
  | none => throw (.corrupted (.nodeWithoutItem node))
  | some item =>
    let left ← buf.readOffset (node + 4)
    let right ← buf.readOffset (node + 8)
    let pivot ← readEcef buf item
    if pivot.isFinite then return ⟨item, left, right, pivot⟩
    else throw (.corrupted (.itemNotFinite item))

/-! ## The walk -/

/-- A selection after a search, and how the search ended. A search that fails keeps what it had
selected. -/
structure SearchResult (σ : Type) where
  selection : σ
  outcome : Except Error Unit

/-- The number of binary digits of a number; zero has none. -/
def bitLength (n : Nat) : Nat := if n = 0 then 0 else n.log2 + 1

/-- A balanced tree of `n` nodes has `bitLength n` levels; a tree of more than twice as many is not
followed. -/
def maxLevels (n : Nat) : Nat := 2 * bitLength n

section
variable [Trig] {σ : Type} [Selection σ]

/-- Whether a selection admits anything from a box: it does if it admits the point nearest to the
target. -/
def admitsBox (metric : Metric) (target : Ecef) (box : Box) (s : σ) : Except Error Bool := do
  let p ← box.closest target
  return Selection.admits s (metric.distance p target)

/-- The half of a box that a child lies in, for a plane through the pivot. -/
structure Half where
  child : Option Nat
  box : Box

/-- The halves of a node, the one that holds the target first. -/
def halves (v : Visit) (axis : Axis) (target : Ecef) (box : Box) : Half × Half :=
  let split := v.pivot.coord axis
  let below : Half := ⟨v.left, box.below axis split⟩
  let above : Half := ⟨v.right, box.above axis split⟩
  if target.coord axis < split then (below, above) else (above, below)

/-- Searches below the node at an offset. `levels` counts the levels still allowed; `tooDeep` is the
error when there is none left. -/
def searchFrom (buf : Buffer) (metric : Metric) (target : Ecef) (tooDeep : Error) :
    (levels : Nat) → (depth node : Nat) → Box → σ → SearchResult σ
  | 0, _, _, _, s => ⟨s, .error tooDeep⟩
  | levels + 1, depth, node, box, s =>
    match readVisit buf node with
    | .error e => ⟨s, .error e⟩
    | .ok v =>
      let s := Selection.offer s ⟨metric.distance v.pivot target, v.item⟩
      let (near, far) := halves v (Axis.ofDepth depth) target box
      let first : SearchResult σ := match near.child with
        | none => ⟨s, .ok ()⟩
        | some c => searchFrom buf metric target tooDeep levels (depth + 1) c near.box s
      match first.outcome with
      | .error _ => first
      | .ok () =>
        match far.child with
        | none => ⟨first.selection, .ok ()⟩
        | some c =>
          match admitsBox metric target far.box first.selection with
          | .error e => ⟨first.selection, .error e⟩
          | .ok false => ⟨first.selection, .ok ()⟩
          | .ok true =>
            searchFrom buf metric target tooDeep levels (depth + 1) c far.box first.selection

/-- Searches a stored tree from a target. -/
def StoredTree.search (t : StoredTree) (metric : Metric) (target : Ecef) (s : σ) : SearchResult σ :=
  match t.root with
  | none => ⟨s, .ok ()⟩
  | some root =>
    searchFrom t.buf metric target (.corrupted (.tooDeep t.count (maxLevels t.count)))
      (maxLevels t.count) 0 root .unbounded s

end
end Gazetteer
