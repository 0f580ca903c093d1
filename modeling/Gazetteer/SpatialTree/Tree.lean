import Gazetteer.Geodesy.Position
import Gazetteer.Error

/-!
# Median-split trees

A spatial tree is built by sorting the sites along one axis, taking the middle one as the root, and
building the halves along the next axis. Sites with equal coordinates are ordered by their index, so
the tree is determined by the sites alone. In a file the tree is a list of nodes in pre-order, each
naming its children by their place in the list.

| here | operation |
| --- | --- |
| `Tree.ofPoints`, `Tree.build` | `build`, `build_range` |
| `nodesDepth` | `depth` |
-/

namespace Gazetteer

/-- An item to be placed in a tree: its index and its position. -/
structure Site where
  index : Nat
  point : Ecef
deriving DecidableEq, Inhabited, Repr

namespace Site

/-- The order of sites along an axis: by coordinate, in the total order of words, then by index. -/
def compareAlong (axis : Axis) (a b : Site) : Ordering :=
  ((a.point.coord axis).totalCompare (b.point.coord axis)).then (compare a.index b.index)

def leAlong (axis : Axis) (a b : Site) : Bool := (compareAlong axis a b).isLE

end Site

/-- A binary tree of item indices. -/
inductive Tree where
  | empty
  | node (item : Nat) (lower upper : Tree)
deriving DecidableEq, Inhabited, Repr

namespace Tree

/-- The tree of sites below a level. The site at half the number of sites becomes the root. -/
def build (depth : Nat) (sites : List Site) : Tree :=
  let sorted := sites.mergeSort (Site.leAlong (Axis.ofDepth depth))
  match _h : sorted.drop (sites.length / 2) with
  | [] => .empty
  | middle :: upper =>
    .node middle.index
      (build (depth + 1) (sorted.take (sites.length / 2)))
      (build (depth + 1) upper)
termination_by sites.length
decreasing_by
  all_goals
    have hl := congrArg List.length _h
    simp [sorted] at hl ⊢
    omega

/-- The tree of a list of points, indexed from zero. -/
def ofPoints (points : List Ecef) : Tree :=
  build 0 (points.mapIdx fun i p => ⟨i, p⟩)

def size : Tree → Nat
  | .empty => 0
  | .node _ lower upper => 1 + lower.size + upper.size

/-- The number of levels. -/
def height : Tree → Nat
  | .empty => 0
  | .node _ lower upper => 1 + max lower.height upper.height

/-- The place of the root of a tree laid out from `start` on. -/
def rootAt : Tree → (start : Nat) → Option Nat
  | .empty, _ => none
  | .node .., start => some start

end Tree

/-- A node of a tree in a list: an item, and the places of the children. -/
structure TreeNode where
  item : Nat
  left : Option Nat
  right : Option Nat
deriving DecidableEq, Inhabited, Repr

namespace Tree

/-- The nodes in pre-order, when the root stands at place `start`. -/
def layout : Tree → (start : Nat) → List TreeNode
  | .empty, _ => []
  | .node item lower upper, start =>
    ⟨item, lower.rootAt (start + 1), upper.rootAt (start + 1 + lower.size)⟩ ::
      (lower.layout (start + 1) ++ upper.layout (start + 1 + lower.size))

/-- The nodes in pre-order, the root first. -/
def nodes (t : Tree) : List TreeNode := t.layout 0

@[simp] theorem length_layout (t : Tree) (start : Nat) : (t.layout start).length = t.size := by
  induction t generalizing start with
  | empty => rfl
  | node item lower upper ihl ihu => simp [layout, size, ihl, ihu]; omega

end Tree

/-- The number of levels below a place in a list of nodes. `fuel` bounds the levels: a list that
exceeds it, or that names a place outside itself, is no tree. -/
def levelsFrom (nodes : Array TreeNode) : (fuel : Nat) → Option Nat → Except Error Nat
  | _, none => .ok 0
  | 0, some _ => .error (.aborted .outsideTree)
  | fuel + 1, some i =>
    match nodes[i]? with
    | none => .error (.aborted .outsideTree)
    | some n => do
      let l ← levelsFrom nodes fuel n.left
      let r ← levelsFrom nodes fuel n.right
      return 1 + max l r

/-- The number of levels of a list of nodes whose root comes first. -/
def nodesDepth (nodes : List TreeNode) : Except Error Nat :=
  levelsFrom nodes.toArray nodes.length (if nodes.isEmpty then none else some 0)

end Gazetteer
