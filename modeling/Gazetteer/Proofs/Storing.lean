import Gazetteer.Proofs.NodeBlocks
import Gazetteer.Proofs.Opening

/-!
# How a tree stands in a file

`Tree.StoredAt` follows a tree from its root through the file: every node is read with the item of
the tree and with the places of its two halves, and the halves stand there. The tree of the items of
a database stands in its file that way, so a search may be reasoned about on the tree alone.
-/

namespace Gazetteer

/-- A tree stands at a place of a file, or nowhere if it is empty. `itemAt` gives the places of the
records, `point` the positions in them. -/
inductive Tree.StoredAt (buf : Buffer) (itemAt : Nat → Nat) (point : Nat → Ecef) :
    Tree → Option Nat → Prop
  | empty : StoredAt buf itemAt point .empty none
  | node {item place : Nat} {lower upper : Tree} {left right : Option Nat}
      (read : readVisit buf place = .ok ⟨itemAt item, left, right, point item⟩)
      (lower_at : StoredAt buf itemAt point lower left)
      (upper_at : StoredAt buf itemAt point upper right) :
      StoredAt buf itemAt point (.node item lower upper) (some place)

variable {buf : Buffer} {itemAt : Nat → Nat} {point : Nat → Ecef}

/-- A tree that stands nowhere is empty. -/
theorem Tree.StoredAt.eq_empty {t : Tree} (h : t.StoredAt buf itemAt point none) : t = .empty := by
  cases h
  rfl

/-- Something stands where a tree stands. -/
theorem Tree.StoredAt.items_ne_nil {t : Tree} {place : Nat}
    (h : t.StoredAt buf itemAt point (some place)) : t.items ≠ [] := by
  cases h
  simp [items]

/-- A tree stands where its root was laid out, if each node is read as it was laid out. -/
theorem Tree.LaidAt.storedAt {nodes : List TreeNode} {nodeAt : Nat → Nat} {t : Tree} {start : Nat}
    (h : LaidAt nodes t start) (hread : ∀ i n, nodes[i]? = some n → readVisit buf (nodeAt i) =
      .ok ⟨itemAt n.item, n.left.map nodeAt, n.right.map nodeAt, point n.item⟩) :
    t.StoredAt buf itemAt point ((t.rootAt start).map nodeAt) := by
  induction t generalizing start with
  | empty => exact .empty
  | node item lower upper ihl ihu =>
    exact .node (hread start _ h.root) (ihl h.lower) (ihu h.upper)

/-! ## Nodes -/

/-- A node is read just if its three words are, with an item, and the position of the item is
finite. -/
theorem readVisit_eq_ok {node : Nat} {v : Visit} : readVisit buf node = .ok v ↔
    buf.readOffset node = .ok (some v.item) ∧ buf.readOffset (node + 4) = .ok v.left ∧
      buf.readOffset (node + 8) = .ok v.right ∧ readEcef buf v.item = .ok v.pivot ∧
        v.pivot.isFinite = true := by
  constructor
  · intro h
    obtain ⟨item?, hitem, h⟩ := bind_eq_ok.1 h
    cases item? with
    | none => cases h
    | some item =>
      obtain ⟨left, hleft, h⟩ := bind_eq_ok.1 h
      obtain ⟨right, hright, h⟩ := bind_eq_ok.1 h
      obtain ⟨pivot, hpivot, h⟩ := bind_eq_ok.1 h
      split at h
      · rename_i hfin
        cases h
        exact ⟨hitem, hleft, hright, hpivot, hfin⟩
      · cases h
  · rintro ⟨hitem, hleft, hright, hpivot, hfin⟩
    rw [readVisit, hitem, ok_bind]
    simp only [hleft, hright, hpivot, ok_bind, hfin, if_true]
    rfl

/-- The place of a child is read as it was written. -/
theorem TreePlan.readOffset_of_childOffset {plan : TreePlan} {child : Option Nat} {v : Int32}
    {offset : Nat} (hv : plan.childOffset child = .ok v)
    (h : HasAt buf.bytes offset (int32Bytes v)) :
    buf.readOffset offset = .ok (child.map fun i => plan.nodesAt + i * nodeSize) := by
  cases child with
  | none =>
    cases hv
    exact Buffer.readOffset_of_hasAt_empty h
  | some i =>
    obtain ⟨hlt, rfl⟩ := toInt32_eq_ok.1 hv
    exact Buffer.readOffset_of_hasAt hlt h

/-- The words of a node are read as they were written. -/
theorem TreePlan.readOffset_of_encodeNode {plan : TreePlan} {n : TreeNode} {bytes : List UInt8}
    {offset : Nat} (hn : plan.encodeNode n = .ok bytes) (h : HasAt buf.bytes offset bytes) :
    buf.readOffset offset = .ok (some (plan.itemsAt + n.item * plan.itemSize)) ∧
      buf.readOffset (offset + 4) = .ok (n.left.map fun i => plan.nodesAt + i * nodeSize) ∧
      buf.readOffset (offset + 8) = .ok (n.right.map fun i => plan.nodesAt + i * nodeSize) := by
  obtain ⟨item, hitem, hn⟩ := bind_eq_ok.1 hn
  obtain ⟨left, hleft, hn⟩ := bind_eq_ok.1 hn
  obtain ⟨right, hright, hn⟩ := bind_eq_ok.1 hn
  cases hn
  obtain ⟨hlt, rfl⟩ := toInt32_eq_ok.1 hitem
  rw [List.append_assoc] at h
  have hl := h.after (offset + 4) (by rw [length_int32Bytes])
  have hr := hl.after (offset + 8) (by rw [length_int32Bytes])
  exact ⟨Buffer.readOffset_of_hasAt hlt h.left, readOffset_of_childOffset hleft hl.left,
    readOffset_of_childOffset hright hr⟩

/-- A node is read as it was written, if the record of its item has a finite position. -/
theorem TreePlan.readVisit_of_encodeNode {plan : TreePlan} {n : TreeNode} {bytes : List UInt8}
    {offset : Nat} {p : Ecef} (hn : plan.encodeNode n = .ok bytes)
    (h : HasAt buf.bytes offset bytes)
    (hp : readEcef buf (plan.itemsAt + n.item * plan.itemSize) = .ok p)
    (hfin : p.isFinite = true) :
    readVisit buf offset = .ok ⟨plan.itemsAt + n.item * plan.itemSize,
      n.left.map fun i => plan.nodesAt + i * nodeSize,
      n.right.map fun i => plan.nodesAt + i * nodeSize, p⟩ := by
  obtain ⟨hitem, hleft, hright⟩ := readOffset_of_encodeNode hn h
  exact readVisit_eq_ok.2 ⟨hitem, hleft, hright, hp, hfin⟩

/-! ## The tree of a database -/

variable {α : Type} [Schema α] {db : Database α} {items : List α}

/-- The position of an item, by its index. -/
def pointAt (items : List α) (i : Nat) : Ecef :=
  (items[i]?.map fun x => (Schema.base x).ecef).getD default

theorem pointAt_of_getElem? {i : Nat} {x : α} (h : items[i]? = some x) :
    pointAt items i = (Schema.base x).ecef := by
  simp [pointAt, h]

/-- The tree of some items, by their positions. -/
def treeOf (items : List α) : Tree := .ofPoints (items.map fun x => (Schema.base x).ecef)

/-- The indices in the tree of some items are those of the items. -/
theorem mem_items_treeOf {i : Nat} : i ∈ (treeOf items).items ↔ i < items.length := by
  rw [treeOf, (Tree.items_ofPoints _).mem_iff, List.mem_range, List.length_map]

theorem ordered_treeOf (items : List α) : (treeOf items).Ordered (pointAt items) 0 := by
  refine Tree.ordered_ofPoints fun i p hp => ?_
  obtain ⟨x, hx, rfl⟩ := Option.map_eq_some_iff.1 (List.getElem?_map ▸ hp)
  exact pointAt_of_getElem? hx

theorem height_treeOf (items : List α) : (treeOf items).height = bitLength items.length := by
  rw [treeOf, Tree.height_ofPoints, List.length_map]

namespace Database.Holds

/-- Every node of the tree of a database is read with its item and its children. -/
theorem readVisit_layout (h : db.Holds items)
    (hfin : ∀ x ∈ items, (Schema.base x).ecef.isFinite = true) {i : Nat} {n : TreeNode}
    (hn : (treeOf items).nodes[i]? = some n) :
    readVisit db.buf (db.layout.nodesAt + i * nodeSize) = .ok ⟨db.layout.itemAt n.item,
      n.left.map fun j => db.layout.nodesAt + j * nodeSize,
      n.right.map fun j => db.layout.nodesAt + j * nodeSize, pointAt items n.item⟩ := by
  obtain ⟨pieces, hpieces, hat⟩ := h.nodes_at
  have hsize (p : List UInt8) (hp : p ∈ pieces) : p.length = nodeSize := by
    obtain ⟨m, -, hm⟩ := mem_of_mapM_eq_ok hpieces hp
    exact length_encodeNode hm
  obtain ⟨bytes, hbytes, hencode⟩ := getElem?_of_mapM_eq_ok hpieces hn
  have hlt := mem_items_treeOf.1 (Tree.mem_layout (List.mem_of_getElem? hn)).1
  have hx : items[n.item]? = some items[n.item] := List.getElem?_eq_getElem hlt
  obtain ⟨v, -, hrecord⟩ := h.base_at n.item _ hx
  rw [pointAt_of_getElem? hx]
  exact TreePlan.readVisit_of_encodeNode hencode (hat.flatten hsize hbytes)
    (readEcef_of_hasAt hrecord) (hfin _ (List.getElem_mem hlt))

/-- The root of the tree of a database is its first node. -/
theorem root_eq (h : db.Holds items) :
    db.tree.root = ((treeOf items).rootAt 0).map fun i => db.layout.nodesAt + i * nodeSize := by
  have hsize : (treeOf items).size = db.size := by
    rw [treeOf, Tree.size_ofPoints, List.length_map]
    exact h.count_eq.symm
  rw [Tree.map_rootAt_zero, hsize]
  rfl

/-- **The tree of the items of a database stands in its file.** -/
theorem storedAt (h : db.Holds items)
    (hfin : ∀ x ∈ items, (Schema.base x).ecef.isFinite = true) :
    (treeOf items).StoredAt db.buf db.layout.itemAt (pointAt items) db.tree.root := by
  rw [h.root_eq]
  exact (treeOf items).laidAt_nodes.storedAt fun _ _ hn => h.readVisit_layout hfin hn

end Database.Holds
end Gazetteer
