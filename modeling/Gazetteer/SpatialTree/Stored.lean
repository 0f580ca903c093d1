import Gazetteer.Bytes.Buffer
import Gazetteer.SpatialTree.Tree

/-!
# Stored trees

In a file every node takes three words: the offset of its item and the offsets of its two children.
The depth of a stored tree is found by a walk that gives up once it has met more nodes than the tree
is said to hold, so it ends on any bytes.

| here | operation |
| --- | --- |
| `TreePlan.encodeNodes` | `write_nodes` |
| `StoredTree.depth` | `depth` |
-/

namespace Gazetteer

/-- The size of a stored node. -/
def nodeSize : Nat := 12

/-- Where the items and the nodes of a tree lie. -/
structure TreePlan where
  nodesAt : Nat
  itemsAt : Nat
  itemSize : Nat
deriving DecidableEq, Inhabited, Repr

namespace TreePlan

/-- The offset of a child as it is stored. -/
def childOffset (plan : TreePlan) : Option Nat → Except Error Int32
  | none => .ok emptyOffset
  | some i => toInt32 (plan.nodesAt + i * nodeSize) "node offset"

def encodeNode (plan : TreePlan) (n : TreeNode) : Except Error (List UInt8) := do
  let item ← toInt32 (plan.itemsAt + n.item * plan.itemSize) "item offset"
  let left ← plan.childOffset n.left
  let right ← plan.childOffset n.right
  return int32Bytes item ++ int32Bytes left ++ int32Bytes right

def encodeNodes (plan : TreePlan) (nodes : List TreeNode) : Except Error (List UInt8) :=
  (nodes.mapM plan.encodeNode).map List.flatten

end TreePlan

/-- A tree in a buffer: where its root lies, and how many nodes it is said to hold. -/
structure StoredTree where
  buf : Buffer
  root : Option Nat
  count : Nat

namespace StoredTree

/-- Children still to be visited, each with its level, after those of one more node. -/
def pushChildren (level : Nat) (left right : Option Nat) (pending : List (Nat × Nat)) :
    List (Nat × Nat) :=
  let push (child : Option Nat) (rest : List (Nat × Nat)) :=
    match child with
    | none => rest
    | some c => (c, level + 1) :: rest
  push right (push left pending)

/-- Walks the pending nodes, at most `budget` of them, and returns the deepest level met. -/
def walk (buf : Buffer) : (budget : Nat) → (pending : List (Nat × Nat)) → (deepest : Nat) →
    Except Error Nat
  | _, [], deepest => .ok deepest
  | 0, _ :: _, _ => .error (.corrupted .tooManyNodes)
  | budget + 1, (node, level) :: pending, deepest => do
    let left ← buf.readOffset (node + 4)
    let right ← buf.readOffset (node + 8)
    walk buf budget (pushChildren level left right pending) (max deepest level)

/-- The number of levels of a stored tree. -/
def depth (t : StoredTree) : Except Error Nat :=
  walk t.buf t.count (t.root.toList.map fun r => (r, 1)) 0

end StoredTree
end Gazetteer
