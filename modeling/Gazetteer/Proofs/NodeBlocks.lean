import Mathlib.Data.Nat.Size
import Gazetteer.Proofs.Splitting
import Gazetteer.Proofs.Steps

/-!
# Blocks of nodes

In pre-order each half of a node is a block of consecutive nodes, and how long it is follows from
the length of the block that it halves. So the list of the nodes of a tree may be described without
the tree: by its blocks, each with its root in front, its lower half next and its upper half last.
-/

namespace Gazetteer
namespace Tree

/-! ## Trees in a list of nodes -/

/-- A tree stands in a list of nodes as it is laid out from a place on. -/
def LaidAt (nodes : List TreeNode) (t : Tree) (start : Nat) : Prop :=
  ∀ k < t.size, nodes[start + k]? = (t.layout start)[k]?

theorem laidAt_nodes (t : Tree) : LaidAt t.nodes t 0 := fun k _ => by rw [Nat.zero_add, nodes]

namespace LaidAt

variable {nodes : List TreeNode} {t l u : Tree} {start item : Nat}

theorem root (h : LaidAt nodes (node item l u) start) :
    nodes[start]? = some ⟨item, l.rootAt (start + 1), u.rootAt (start + 1 + l.size)⟩ :=
  h 0 (by rw [size]; omega)

theorem lower (h : LaidAt nodes (node item l u) start) : LaidAt nodes l (start + 1) := by
  intro k hk
  have hlen : k < (l.layout (start + 1)).length := by rwa [length_layout]
  rw [Nat.add_assoc, Nat.add_comm 1 k, h (k + 1) (by rw [size]; omega), layout,
    List.getElem?_cons_succ, List.getElem?_append_left hlen]

theorem upper (h : LaidAt nodes (node item l u) start) : LaidAt nodes u (start + 1 + l.size) := by
  intro k hk
  have hlen : (l.layout (start + 1)).length = l.size := length_layout l _
  have hplace : start + 1 + l.size + k = start + (l.size + k + 1) := by omega
  rw [hplace, h (l.size + k + 1) (by rw [size]; omega), layout, List.getElem?_cons_succ,
    List.getElem?_append_right (by omega), hlen, Nat.add_sub_cancel_left]

/-- The nodes of the place where a tree stands have its items. -/
theorem item_mem (h : LaidAt nodes t start) {k : Nat} {v : TreeNode} (hstart : start ≤ k)
    (hstop : k < start + t.size) (hv : nodes[k]? = some v) : v.item ∈ t.items := by
  obtain ⟨i, rfl⟩ := Nat.exists_eq_add_of_le hstart
  rw [h i (by omega)] at hv
  exact (mem_layout (List.mem_of_getElem? hv)).1

end LaidAt

theorem map_item_layout (t : Tree) (start : Nat) :
    (t.layout start).map TreeNode.item = t.items := by
  induction t generalizing start with
  | empty => rfl
  | node item lower upper ihl ihu =>
    rw [layout, items, List.map_cons, List.map_append, ihl, ihu]

/-! ## Levels -/

theorem height_le_size (t : Tree) : t.height ≤ t.size := by
  induction t with
  | empty => exact Nat.le_refl 0
  | node item lower upper ihl ihu =>
    rw [height, size]
    omega

/-- The levels below a place where a tree stands are those of the tree. -/
theorem LaidAt.levelsFrom_eq {nodes : List TreeNode} {t : Tree} {start fuel : Nat}
    (h : LaidAt nodes t start) (hfuel : t.height ≤ fuel) :
    levelsFrom nodes.toArray fuel (t.rootAt start) = .ok t.height := by
  induction t generalizing start fuel with
  | empty => cases fuel <;> rfl
  | node item lower upper ihl ihu =>
    rw [height] at hfuel
    obtain ⟨fuel, rfl⟩ : ∃ f, fuel = f + 1 := ⟨fuel - 1, by omega⟩
    rw [rootAt, levelsFrom, List.getElem?_toArray, h.root]
    dsimp only
    rw [ihl h.lower (by omega), ok_bind, ihu h.upper (by omega), ok_bind, height, pure_eq]

/-- **The levels counted in the nodes of a tree are its levels.** -/
theorem nodesDepth_nodes (t : Tree) : nodesDepth t.nodes = .ok t.height := by
  have hroot : (if t.nodes.isEmpty then none else some 0) = t.rootAt 0 := by cases t <;> rfl
  have hlen : t.nodes.length = t.size := length_layout t 0
  rw [nodesDepth, hroot, hlen]
  exact t.laidAt_nodes.levelsFrom_eq t.height_le_size

/-- The number of digits is the size of the number in binary. -/
theorem bitLength_eq_size (n : Nat) : bitLength n = n.size := by
  rcases Nat.eq_zero_or_pos n with rfl | hn
  · rfl
  · rw [bitLength, if_neg (by omega)]
    refine Nat.le_antisymm ?_ ?_
    · rw [Nat.succ_le_iff, Nat.lt_size]
      exact Nat.log2_self_le (by omega)
    · rw [Nat.size_le]
      exact Nat.lt_log2_self

/-! ## Halves -/

/-- Each lower half has half of the nodes, rounded down, and each upper half the rest. -/
def Halved : Tree → Prop
  | .empty => True
  | .node _ lower upper =>
    lower.size = (1 + lower.size + upper.size) / 2 ∧ lower.Halved ∧ upper.Halved

theorem size_build (depth : Nat) (sites : List Site) : (build depth sites).size = sites.length := by
  rw [size_eq_length_items, (items_build depth sites).length_eq, List.length_map]

/-- The tree of some sites is halved on every level. -/
theorem halved_build (depth : Nat) (sites : List Site) : (build depth sites).Halved := by
  induction depth, sites using build_induction with
  | empty => trivial
  | node depth sites lower middle upper hp _ hl ihl ihu =>
    have hlen := hp.length_eq
    rw [List.length_append, List.length_cons] at hlen
    refine ⟨?_, ihl, ihu⟩
    rw [size_build, size_build]
    omega

/-- The blocks of the nodes of `n` sites, with their depths: all nodes from place 0 on, and each
half of a block that has nodes. -/
inductive Block (n : Nat) : (depth start count : Nat) → Prop
  | whole : Block n 0 0 n
  | lower {depth start count : Nat} (h : Block n depth start count) (pos : 0 < count) :
      Block n (depth + 1) (start + 1) (count / 2)
  | upper {depth start count : Nat} (h : Block n depth start count) (pos : 0 < count) :
      Block n (depth + 1) (start + 1 + count / 2) (count - 1 - count / 2)

/-- In each block of the nodes of a halved tree stands a tree of the same kind. -/
theorem Block.exists_laidAt {place : Nat → Ecef} {t : Tree} {depth start count : Nat}
    (h : Block t.size depth start count) (hhalved : t.Halved) (hordered : t.Ordered place 0) :
    ∃ s : Tree, s.size = count ∧ s.Halved ∧ s.Ordered place depth ∧ LaidAt t.nodes s start := by
  induction h with
  | whole => exact ⟨t, rfl, hhalved, hordered, t.laidAt_nodes⟩
  | lower _ pos ih =>
    obtain ⟨s, rfl, hh, ho, hlaid⟩ := ih
    cases s with
    | empty => cases pos
    | node item lower upper => exact ⟨lower, hh.1, hh.2.1, ho.2.2.1, hlaid.lower⟩
  | upper _ pos ih =>
    obtain ⟨s, rfl, hh, ho, hlaid⟩ := ih
    cases s with
    | empty => cases pos
    | node item lower upper =>
      have hl := hh.1
      refine ⟨upper, ?_, hh.2.2, ho.2.2.2, ?_⟩
      · rw [size, ← hl]
        omega
      · rw [size, ← hl]
        exact hlaid.upper

/-- The root of a block: its first node, if it has one. -/
def blockRoot (start count : Nat) : Option Nat := if 0 < count then some start else none

theorem rootAt_eq_blockRoot (t : Tree) (start : Nat) : t.rootAt start = blockRoot start t.size := by
  cases t with
  | empty => rfl
  | node item lower upper =>
    rw [blockRoot, if_pos (by rw [size]; omega)]
    rfl

/-- The place of the first node, if there is one. -/
theorem map_rootAt_zero (t : Tree) (base size : Nat) :
    (t.rootAt 0).map (fun i => base + i * size) = if t.size = 0 then none else some base := by
  cases t with
  | empty => rfl
  | node item lower upper =>
    rw [if_neg (by rw [Tree.size]; omega), rootAt, Option.map_some, Nat.zero_mul, Nat.add_zero]

/-- Of two points of a list, the first comes before the other along an axis. -/
def Precedes (points : List Ecef) (axis : Axis) (i j : Nat) : Prop :=
  ∃ p q, points[i]? = some p ∧ points[j]? = some q ∧ Site.compareAlong axis ⟨i, p⟩ ⟨j, q⟩ = .lt

/-- A node is the root of a block: it names the roots of the halves as its children, and its item
lies between those of the halves along the axis of the block. -/
structure RootOf (points : List Ecef) (nodes : List TreeNode) (depth start count : Nat)
    (v : TreeNode) : Prop where
  left : v.left = blockRoot (start + 1) (count / 2)
  right : v.right = blockRoot (start + 1 + count / 2) (count - 1 - count / 2)
  lower : ∀ k w, start < k → k < start + 1 + count / 2 → nodes[k]? = some w →
    Precedes points (Axis.ofDepth depth) w.item v.item
  upper : ∀ k w, start + 1 + count / 2 ≤ k → k < start + count → nodes[k]? = some w →
    Precedes points (Axis.ofDepth depth) v.item w.item

/-- **Each block of the nodes of some points has its root in front**, between the halves in the
order of the axis. -/
theorem Block.exists_root {points : List Ecef} {depth start count : Nat}
    (h : Block points.length depth start count) (pos : 0 < count) :
    ∃ v, (ofPoints points).nodes[start]? = some v ∧
      RootOf points (ofPoints points).nodes depth start count v := by
  have hplace (i : Nat) (p : Ecef) (hp : points[i]? = some p) : points.getD i default = p := by
    rw [List.getD_eq_getElem?_getD, hp]
    rfl
  have hpoint {i : Nat} {v : TreeNode} (hv : (ofPoints points).nodes[i]? = some v) :
      points[v.item]? = some (points.getD v.item default) := by
    have hitem := (mem_layout (List.mem_of_getElem? hv)).1
    rw [(items_ofPoints points).mem_iff, List.mem_range] at hitem
    rw [List.getD_eq_getElem?_getD, List.getElem?_eq_getElem hitem]
    rfl
  rw [← size_ofPoints] at h
  obtain ⟨s, rfl, hhalved, hordered, hlaid⟩ :=
    h.exists_laidAt (halved_build 0 _) (ordered_ofPoints hplace)
  cases s with
  | empty => cases pos
  | node item lower upper =>
    have hsize : (node item lower upper).size = 1 + lower.size + upper.size := rfl
    have hl : (node item lower upper).size / 2 = lower.size := hhalved.1.symm
    have hu : (node item lower upper).size - 1 - lower.size = upper.size := by omega
    refine ⟨_, hlaid.root, ?_, ?_, fun k w hstart hstop hw => ?_, fun k w hstart hstop hw => ?_⟩
    · rw [hl, ← rootAt_eq_blockRoot]
    · rw [hl, hu, ← rootAt_eq_blockRoot]
    · have hitem := hlaid.lower.item_mem (by omega) (by omega) hw
      exact ⟨_, _, hpoint hw, hpoint hlaid.root, hordered.1 _ hitem⟩
    · have hitem := hlaid.upper.item_mem (by omega) (by omega) hw
      exact ⟨_, _, hpoint hlaid.root, hpoint hw, hordered.2.1 _ hitem⟩

end Tree
end Gazetteer
