import Gazetteer.Proofs.NodeBlocks
import Gazetteer.Proofs.Traversal

/-!
# The depth of a stored tree

The levels of a stored tree are counted by a walk that keeps the nodes still to come in a list, and
that meets no more nodes than the tree is said to hold. Where a tree hangs at the root, the walk
meets each of its nodes once and finds its height. A search that has that many levels left is never
cut off. Both hold of every tree that was written, since it is balanced.
-/

namespace Gazetteer

/-- A tree hangs at a place of a file, or nowhere if it is empty: the last two words of each node
lead to its halves. What the first word leads to is left open. -/
inductive Tree.HangsAt (buf : Buffer) : Tree → Option Nat → Prop
  | empty : HangsAt buf .empty none
  | node {item place : Nat} {lower upper : Tree} {left right : Option Nat}
      (left_read : buf.readOffset (place + 4) = .ok left)
      (right_read : buf.readOffset (place + 8) = .ok right)
      (lower_at : HangsAt buf lower left)
      (upper_at : HangsAt buf upper right) :
      HangsAt buf (.node item lower upper) (some place)

variable {buf : Buffer} {t : Tree}

/-! ## The walk -/

/-- A child that is still to come, with its level. -/
def StoredTree.pendingChild (level : Nat) (child : Option Nat) : List (Nat × Nat) :=
  child.toList.map fun c => (c, level)

theorem StoredTree.pushChildren_eq (level : Nat) (left right : Option Nat)
    (pending : List (Nat × Nat)) : pushChildren level left right pending =
      pendingChild (level + 1) right ++ (pendingChild (level + 1) left ++ pending) := by
  cases left <;> cases right <;> rfl

/-- **A walk meets each node of a tree once**, and goes on with what was pending behind it. -/
theorem Tree.HangsAt.walk_eq {root : Option Nat} (h : t.HangsAt buf root) {budget level deepest : Nat}
    {pending : List (Nat × Nat)} (hlevel : level ≤ deepest) :
    StoredTree.walk buf (t.size + budget)
        (StoredTree.pendingChild (level + 1) root ++ pending) deepest =
      StoredTree.walk buf budget pending (max deepest (level + t.height)) := by
  induction h generalizing budget level deepest pending with
  | empty =>
    rw [Tree.size, Tree.height, Nat.zero_add, Nat.add_zero level, Nat.max_eq_left hlevel]
    rfl
  | @node item place lower upper left right hleft hright _ _ ihl ihu =>
    have hbudget : (Tree.node item lower upper).size + budget =
        upper.size + (lower.size + budget) + 1 := by
      rw [Tree.size]
      omega
    have hdeepest : max (max (max deepest (level + 1)) (level + 1 + upper.height))
        (level + 1 + lower.height) = max deepest (level + (Tree.node item lower upper).height) := by
      rw [Tree.height]
      omega
    rw [hbudget]
    show StoredTree.walk buf (_ + 1) ((place, level + 1) :: pending) deepest = _
    rw [StoredTree.walk, hleft, ok_bind, hright, ok_bind, StoredTree.pushChildren_eq,
      ihu (by omega), ihl (by omega), hdeepest]

/-- **The depth of a stored tree is the height of the tree that hangs at its root**, if that has no
more nodes than the tree is said to hold. -/
theorem StoredTree.depth_eq {s : StoredTree} (h : t.HangsAt s.buf s.root) (hcount : t.size ≤ s.count) :
    s.depth = .ok t.height := by
  obtain ⟨rest, hrest⟩ := Nat.exists_eq_add_of_le hcount
  have hwalk : StoredTree.walk s.buf (t.size + rest) (StoredTree.pendingChild (0 + 1) s.root ++ []) 0 =
      StoredTree.walk s.buf rest [] (max 0 (0 + t.height)) := h.walk_eq (Nat.le_refl 0)
  rw [List.append_nil, ← hrest, Nat.zero_add, Nat.zero_max, Nat.zero_add] at hwalk
  rw [depth]
  refine hwalk.trans ?_
  cases rest <;> rfl

/-! ## The guard of a search -/

/-- **A search that has a level for each of the tree is not cut off**: how many more it has, and with
which error it would be cut off, makes no difference. -/
theorem Tree.HangsAt.searchFrom_eq [Trig] {σ : Type} [Selection σ] {metric : Metric} {target : Ecef}
    {tooDeep tooDeep' : Error} {levels levels' depth place : Nat} {box : Box} {s : σ}
    (h : t.HangsAt buf (some place)) (hlevels : t.height ≤ levels) (hlevels' : t.height ≤ levels') :
    searchFrom buf metric target tooDeep' levels' depth place box s =
      searchFrom buf metric target tooDeep levels depth place box s := by
  induction t generalizing levels levels' depth place box s with
  | empty => cases h
  | node item lower upper ihl ihu =>
    rw [height] at hlevels hlevels'
    obtain ⟨levels, rfl⟩ : ∃ n, levels = n + 1 := ⟨levels - 1, by omega⟩
    obtain ⟨levels', rfl⟩ : ∃ n, levels' = n + 1 := ⟨levels' - 1, by omega⟩
    cases h with
    | @node _ _ _ _ left right hleft hright hlower hupper =>
      rw [searchFrom_succ, searchFrom_succ]
      cases hv : readVisit buf place with
      | error e => rfl
      | ok v =>
        obtain ⟨-, hl, hr, -⟩ := readVisit_eq_ok.1 hv
        rw [hleft, Except.ok.injEq] at hl
        rw [hright, Except.ok.injEq] at hr
        subst hl hr
        have hbelow (c : Nat) (hc : v.left = some c) (box : Box) (s : σ) :
            searchFrom buf metric target tooDeep' levels' (depth + 1) c box s =
              searchFrom buf metric target tooDeep levels (depth + 1) c box s :=
          ihl (hc ▸ hlower) (by omega) (by omega)
        have habove (c : Nat) (hc : v.right = some c) (box : Box) (s : σ) :
            searchFrom buf metric target tooDeep' levels' (depth + 1) c box s =
              searchFrom buf metric target tooDeep levels (depth + 1) c box s :=
          ihu (hc ▸ hupper) (by omega) (by omega)
        dsimp only
        rcases halves_cases v (Axis.ofDepth depth) target box with heq | heq
        · rw [heq, searchNear_congr hbelow]
          split
          · rfl
          · exact searchFar_congr habove
        · rw [heq, searchNear_congr habove]
          split
          · rfl
          · exact searchFar_congr hbelow

/-- The guard of a search makes no difference if the tree has no more levels than may be followed. -/
theorem StoredTree.search_eq_searchFrom [Trig] {σ : Type} [Selection σ] {stored : StoredTree}
    {metric : Metric} {target : Ecef} {s : σ} {tooDeep : Error} {levels root : Nat}
    (h : t.HangsAt stored.buf stored.root) (hroot : stored.root = some root)
    (hmax : t.height ≤ maxLevels stored.count) (hlevels : t.height ≤ levels) :
    stored.search metric target s =
      searchFrom stored.buf metric target tooDeep levels 0 root .unbounded s := by
  rw [hroot] at h
  rw [search, hroot]
  exact h.searchFrom_eq hlevels hmax

/-! ## Written trees -/

/-- A tree that is laid out in nodes hangs at the place of its root, if the children of each node
are read as they were laid out. -/
theorem Tree.LaidAt.hangsAt {nodes : List TreeNode} {nodeAt : Nat → Nat} {start : Nat}
    (h : LaidAt nodes t start) (hread : ∀ i n, nodes[i]? = some n →
      buf.readOffset (nodeAt i + 4) = .ok (n.left.map nodeAt) ∧
        buf.readOffset (nodeAt i + 8) = .ok (n.right.map nodeAt)) :
    t.HangsAt buf ((t.rootAt start).map nodeAt) := by
  induction t generalizing start with
  | empty => exact .empty
  | node item lower upper ihl ihu =>
    obtain ⟨hleft, hright⟩ := hread start _ h.root
    exact .node hleft hright (ihl h.lower) (ihu h.upper)

/-- **A tree that is written behind other bytes hangs there.** -/
theorem TreePlan.hangsAt_of_encodeNodes {plan : TreePlan} {front bytes : List UInt8}
    (hplan : plan.nodesAt = front.length) (hbytes : plan.encodeNodes t.nodes = .ok bytes) :
    t.HangsAt (.ofList (front ++ bytes)) (if t.size = 0 then none else some front.length) := by
  obtain ⟨pieces, hpieces, rfl⟩ := map_eq_ok.1 hbytes
  have hsize (piece : List UInt8) (hp : piece ∈ pieces) : piece.length = nodeSize := by
    obtain ⟨n, -, hn⟩ := mem_of_mapM_eq_ok hpieces hp
    exact length_encodeNode hn
  have hat : HasAt (Buffer.ofList (front ++ pieces.flatten)).bytes plan.nodesAt pieces.flatten :=
    (hasAt_self _).after plan.nodesAt (by rw [hplan, Nat.zero_add])
  rw [← Tree.map_rootAt_zero t front.length nodeSize, ← hplan]
  refine t.laidAt_nodes.hangsAt fun i n hn => ?_
  obtain ⟨piece, hp, hencode⟩ := getElem?_of_mapM_eq_ok hpieces hn
  exact (readOffset_of_encodeNode hencode (hat.flatten hsize hp)).2

/-- **What the tree of some points is, in a list of nodes and in a file.** There is one node for each
point. Every block of nodes has its root in front and its halves behind it, in the order of the axis.
The list has as many levels as the number of points has binary digits. Written behind other bytes,
the tree is found to have that many levels, which is no more than a search may follow: with at least
that many, the guard of a search makes no difference. -/
theorem Tree.nodes_ofPoints [Trig] (points : List Ecef) :
    let nodes := (ofPoints points).nodes
    let n := points.length
    nodes.length = n ∧ (nodes.map TreeNode.item).Perm (List.range n) ∧
    (∀ depth start count, Block n depth start count → 0 < count →
      ∃ v, nodes[start]? = some v ∧ RootOf points nodes depth start count v) ∧
    nodesDepth nodes = .ok n.size ∧
    ∀ (plan : TreePlan) (front bytes : List UInt8), plan.nodesAt = front.length →
      plan.encodeNodes nodes = .ok bytes →
      let stored : StoredTree :=
        ⟨.ofList (front ++ bytes), if n = 0 then none else some front.length, n⟩
      stored.depth = .ok n.size ∧ n.size ≤ maxLevels n ∧
      ∀ {σ : Type} [Selection σ] (metric : Metric) (target : Ecef) (s : σ) (tooDeep : Error)
        (levels : Nat), n.size ≤ levels → ∀ root, stored.root = some root →
        stored.search metric target s =
          searchFrom stored.buf metric target tooDeep levels 0 root .unbounded s := by
  intro nodes n
  have hsize : (ofPoints points).size = n := size_ofPoints points
  have hheight : (ofPoints points).height = n.size := by
    rw [height_ofPoints, bitLength_eq_size]
  have hmax : n.size ≤ maxLevels n := by
    rw [maxLevels, bitLength_eq_size]
    omega
  refine ⟨?_, ?_, fun depth start count h pos => h.exists_root pos, ?_, ?_⟩
  · exact (length_layout _ 0).trans hsize
  · have hitems : nodes.map TreeNode.item = (ofPoints points).items := map_item_layout _ 0
    exact hitems ▸ items_ofPoints points
  · exact hheight ▸ nodesDepth_nodes (ofPoints points)
  · intro plan front bytes hplan hbytes stored
    have hhangs : (ofPoints points).HangsAt stored.buf stored.root := by
      have h := TreePlan.hangsAt_of_encodeNodes hplan hbytes
      rwa [hsize] at h
    refine ⟨?_, hmax, ?_⟩
    · rw [StoredTree.depth_eq hhangs (Nat.le_of_eq hsize), hheight]
    · intro σ _ metric target s tooDeep levels hlevels root hroot
      rw [← hheight] at hmax hlevels
      exact StoredTree.search_eq_searchFrom hhangs hroot hmax hlevels

end Gazetteer
