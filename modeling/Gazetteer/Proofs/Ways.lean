import Mathlib.Data.Set.Card
import Gazetteer.Proofs.AnyFile
import Gazetteer.Proofs.StoredDepth

/-!
# The ways down a stored tree

Nothing keeps the nodes of a file from sharing their children, or from leading back to themselves.
What a walk from the root meets is the tree that they unfold to: a node with two ways to it is met
twice, and a circle has ways of any length. So a *way*, the list of the sides that are taken from
the root on, stands for a node of that tree. The levels of a stored tree can be counted just if
there are no more ways than the tree is said to hold nodes and every child on a way can be read, and
then there are as many levels as the longest way has nodes.
-/

namespace Gazetteer

/-- The side of a node that a child is on. -/
inductive Side where
  | left
  | right
deriving DecidableEq, Repr

/-- Where a node names its child on a side. -/
def Side.wordAt (node : Nat) : Side → Nat
  | .left => node + 4
  | .right => node + 8

/-- The node at the end of a way, if the way leads to one. -/
def wayEnd (buf : Buffer) : Option Nat → List Side → Option Nat
  | none, _ => none
  | some node, [] => some node
  | some node, side :: way =>
    match buf.readOffset (side.wordAt node) with
    | .ok child => wayEnd buf child way
    | .error _ => none

/-- The ways from a node, each to a node. -/
def waysFrom (buf : Buffer) (root : Option Nat) : Set (List Side) :=
  {way | ∃ node, wayEnd buf root way = some node}

/-- On all ways from a node, the words that name children are in the file and at least `-1`. -/
def Legible (buf : Buffer) (root : Option Nat) : Prop :=
  ∀ way node, wayEnd buf root way = some node → ∀ side : Side,
    ∃ v : Int32, buf.readInt32 (side.wordAt node) = .ok v ∧ -1 ≤ v.toInt

section
variable {buf : Buffer} {node : Nat} {root child left right : Option Nat} {side : Side}
  {way : List Side}

/-! ## Ways -/

@[simp] theorem wayEnd_nil (root : Option Nat) : wayEnd buf root [] = root := by
  cases root <;> rfl

@[simp] theorem wayEnd_none (way : List Side) : wayEnd buf none way = none := by
  cases way <;> rfl

@[simp] theorem waysFrom_none : waysFrom buf none = ∅ := by
  simp [waysFrom]

theorem wayEnd_cons (side : Side) (h : buf.readOffset (side.wordAt node) = .ok child)
    (way : List Side) : wayEnd buf (some node) (side :: way) = wayEnd buf child way := by
  rw [wayEnd, h]

theorem nil_mem_waysFrom : [] ∈ waysFrom buf (some node) := ⟨node, rfl⟩

theorem cons_mem_waysFrom (side : Side) (h : buf.readOffset (side.wordAt node) = .ok child) :
    side :: way ∈ waysFrom buf (some node) ↔ way ∈ waysFrom buf child := by
  simp only [waysFrom, Set.mem_ofPred_eq, wayEnd_cons side h]

/-- A way from a node ends there, or goes on to one side. -/
theorem waysFrom_some (hl : buf.readOffset (node + 4) = .ok left)
    (hr : buf.readOffset (node + 8) = .ok right) :
    waysFrom buf (some node) = insert []
      ((Side.left :: ·) '' waysFrom buf left ∪ (Side.right :: ·) '' waysFrom buf right) := by
  ext way
  cases way with
  | nil => simp [nil_mem_waysFrom]
  | cons side way =>
    cases side with
    | left => simp [cons_mem_waysFrom .left hl]
    | right => simp [cons_mem_waysFrom .right hr]

/-! ## Words -/

/-- A word is read as an offset just if it is at least `-1`. -/
theorem Buffer.exists_readOffset_iff {offset : Nat} : (∃ child, buf.readOffset offset = .ok child) ↔
    ∃ v : Int32, buf.readInt32 offset = .ok v ∧ -1 ≤ v.toInt := by
  have hempty : emptyOffset.toInt = -1 := by decide
  unfold readOffset
  cases buf.readInt32 offset with
  | error e => simp
  | ok v =>
    simp only [ok_bind, Except.ok.injEq, exists_eq_left']
    by_cases hv : v = emptyOffset
    · subst hv
      simp [hempty]
    · have hne : v.toInt ≠ -1 := fun h => hv (Int32.toInt_inj.1 (h.trans hempty.symm))
      rw [if_neg hv]
      by_cases hpos : 0 ≤ v.toInt
      · simp only [if_pos hpos, pure_eq, Except.ok.injEq, exists_eq', true_iff]
        omega
      · simp only [if_neg hpos, throw_eq, reduceCtorEq, exists_false, false_iff]
        omega

theorem Legible.exists_child (h : Legible buf (some node)) (side : Side) :
    ∃ child, buf.readOffset (side.wordAt node) = .ok child ∧ Legible buf child := by
  obtain ⟨child, hchild⟩ := Buffer.exists_readOffset_iff.2 (h [] node rfl side)
  exact ⟨child, hchild, fun way n hn => h (side :: way) n ((wayEnd_cons side hchild way).trans hn)⟩

/-! ## The tree of the ways -/

namespace Tree.HangsAt

variable {t : Tree}

/-- Where a tree hangs, every child on a way can be read. -/
theorem legible (h : t.HangsAt buf root) : Legible buf root := by
  induction h with
  | empty =>
    intro way node hway
    rw [wayEnd_none] at hway
    cases hway
  | @node item place lower upper left right hleft hright _ _ ihl ihu =>
    intro way node hway side
    cases way with
    | nil =>
      cases hway
      refine Buffer.exists_readOffset_iff.1 ?_
      cases side with
      | left => exact ⟨left, hleft⟩
      | right => exact ⟨right, hright⟩
    | cons first way =>
      cases first with
      | left => exact ihl way node ((wayEnd_cons .left hleft way).symm.trans hway) side
      | right => exact ihu way node ((wayEnd_cons .right hright way).symm.trans hway) side

/-- **There is a way to each node of a tree.** -/
theorem encard_waysFrom (h : t.HangsAt buf root) : (waysFrom buf root).encard = t.size := by
  induction h with
  | empty => simp [size]
  | @node item place lower upper left right hleft hright _ _ ihl ihu =>
    have hnil : ([] : List Side) ∉
        (Side.left :: ·) '' waysFrom buf left ∪ (Side.right :: ·) '' waysFrom buf right := by
      simp
    have hdisjoint : Disjoint ((Side.left :: ·) '' waysFrom buf left)
        ((Side.right :: ·) '' waysFrom buf right) := by
      rw [Set.disjoint_left]
      rintro _ ⟨w, -, rfl⟩ ⟨w', -, hw⟩
      cases hw
    rw [waysFrom_some hleft hright, Set.encard_insert_of_notMem hnil,
      Set.encard_union_eq hdisjoint, (List.cons_injective.injOn).encard_image,
      (List.cons_injective.injOn).encard_image, ihl, ihu, size]
    rw [Nat.cast_add, Nat.cast_add, Nat.cast_one, add_comm, add_assoc]

/-- The ways down a tree have all lengths below its height. -/
theorem exists_way_iff (h : t.HangsAt buf root) (n : Nat) :
    (∃ way ∈ waysFrom buf root, way.length = n) ↔ n < t.height := by
  induction h generalizing n with
  | empty => simp [height]
  | @node item place lower upper left right hleft hright _ _ ihl ihu =>
    rw [waysFrom_some hleft hright, height]
    cases n with
    | zero => simp
    | succ n =>
      rw [Nat.add_comm 1, Nat.succ_lt_succ_iff, lt_max_iff, ← ihl, ← ihu]
      simp [or_and_right, exists_or]

end Tree.HangsAt

/-- **Where there are so many ways and no more, a tree hangs**, if every child can be read. -/
theorem Legible.exists_hangsAt {n : Nat} (h : Legible buf root)
    (hways : (waysFrom buf root).encard ≤ n) : ∃ t : Tree, t.HangsAt buf root := by
  induction n generalizing root with
  | zero =>
    cases root with
    | none => exact ⟨.empty, .empty⟩
    | some node =>
      have hempty := Set.encard_eq_zero.1 (nonpos_iff_eq_zero.1 hways)
      exact absurd (hempty ▸ nil_mem_waysFrom) (Set.notMem_empty _)
  | succ n ih =>
    cases root with
    | none => exact ⟨.empty, .empty⟩
    | some node =>
      have hbelow (side : Side) : ∃ child, ∃ t : Tree,
          buf.readOffset (side.wordAt node) = .ok child ∧ t.HangsAt buf child := by
        obtain ⟨child, hchild, hlegible⟩ := h.exists_child side
        -- the way that ends here is none of those that go on to a side
        have hsub : insert [] ((side :: ·) '' waysFrom buf child) ⊆ waysFrom buf (some node) := by
          rintro _ (rfl | ⟨way, hway, rfl⟩)
          · exact nil_mem_waysFrom
          · exact (cons_mem_waysFrom side hchild).2 hway
        have hcard := (Set.encard_le_encard hsub).trans hways
        rw [Set.encard_insert_of_notMem (by simp), (List.cons_injective.injOn).encard_image,
          Nat.cast_add, Nat.cast_one] at hcard
        obtain ⟨t, ht⟩ := ih hlegible ((ENat.add_le_add_iff_right ENat.one_ne_top).1 hcard)
        exact ⟨child, t, hchild, ht⟩
      obtain ⟨_, lower, hleft, hlower⟩ := hbelow .left
      obtain ⟨_, upper, hright, hupper⟩ := hbelow .right
      exact ⟨.node 0 lower upper, .node hleft hright hlower hupper⟩

end

/-! ## The walk -/

namespace StoredTree

/-- Trees hang at the pending nodes, with no more nodes together than there is budget. -/
inductive Hanging (buf : Buffer) : (budget : Nat) → (pending : List (Nat × Nat)) → Prop
  | nil (budget : Nat) : Hanging buf budget []
  | cons {budget node level : Nat} {pending : List (Nat × Nat)} {t : Tree}
      (first : t.HangsAt buf (some node)) (rest : Hanging buf budget pending) :
      Hanging buf (t.size + budget) ((node, level) :: pending)

variable {buf : Buffer}

/-- A tree hangs at a pending child, which may be none, and the rest is within the rest of the
budget. -/
theorem Hanging.exists_child {budget level : Nat} {child : Option Nat} {pending : List (Nat × Nat)}
    (h : Hanging buf budget (pendingChild level child ++ pending)) :
    ∃ (t : Tree) (rest : Nat), t.HangsAt buf child ∧ budget = t.size + rest ∧
      Hanging buf rest pending := by
  cases child with
  | none => exact ⟨.empty, budget, .empty, (Nat.zero_add budget).symm, h⟩
  | some c =>
    cases h with
    | cons first rest => exact ⟨_, _, first, rfl, rest⟩

/-- **A walk comes to its end only where trees hang** that its budget is enough for. -/
theorem hanging_of_walk {budget deepest d : Nat} {pending : List (Nat × Nat)}
    (h : walk buf budget pending deepest = .ok d) : Hanging buf budget pending := by
  induction budget generalizing pending deepest with
  | zero =>
    cases pending with
    | nil => exact .nil 0
    | cons p pending => cases h
  | succ budget ih =>
    cases pending with
    | nil => exact .nil _
    | cons p pending =>
      obtain ⟨node, level⟩ := p
      obtain ⟨left, hleft, h⟩ := bind_eq_ok.1 h
      obtain ⟨right, hright, h⟩ := bind_eq_ok.1 h
      have hall := ih h
      rw [pushChildren_eq] at hall
      obtain ⟨upper, _, hupper, rfl, hbelow⟩ := hall.exists_child
      obtain ⟨lower, rest, hlower, rfl, hrest⟩ := hbelow.exists_child
      have hsize : upper.size + (lower.size + rest) + 1 = (Tree.node 0 lower upper).size + rest := by
        rw [Tree.size]
        omega
      rw [hsize]
      exact .cons (.node hleft hright hlower hupper) hrest

variable {t : StoredTree}

/-- The levels of a stored tree are counted just if a tree hangs at its root that has no more nodes
than the stored tree is said to hold. -/
theorem exists_depth_iff :
    (∃ d, t.depth = .ok d) ↔ ∃ u : Tree, u.HangsAt t.buf t.root ∧ u.size ≤ t.count := by
  constructor
  · rintro ⟨d, h⟩
    have hall : Hanging t.buf t.count (pendingChild 1 t.root ++ []) := by
      rw [List.append_nil]
      exact hanging_of_walk h
    obtain ⟨u, rest, hu, hcount, -⟩ := hall.exists_child
    exact ⟨u, hu, by omega⟩
  · rintro ⟨u, hu, hsize⟩
    exact ⟨u.height, depth_eq hu hsize⟩

theorem depth_damage : FailsWith Error.IsDamage t.depth := walk_damage

/-! ## With machine words -/

open Checked

/-- The number of levels of a stored tree. The count of the nodes met goes one beyond the number
that the tree is said to hold. -/
def depthChecked (t : StoredTree) : Checked Nat := do
  let _ ← word (t.count + 1)
  walkChecked t.buf t.count (pendingChild 1 t.root) 0

theorem yields_depthChecked (hroot : ∀ r, t.root = some r → r < 0x8000000000000000)
    (hcount : t.count + 1 < 0x10000000000000000) : t.depthChecked.Yields t.depth := by
  apply Yields.word hcount
  refine yields_walkChecked fun p hp => ?_
  obtain ⟨r, hr, rfl⟩ := List.mem_map.1 hp
  have := hroot r (Option.mem_toList.1 hr)
  dsimp only
  omega

/-! ## Levels -/

/-- The ways from the root of a stored tree. -/
def ways (t : StoredTree) : Set (List Side) := waysFrom t.buf t.root

/-- The ways from the root have so many lengths: those below a number, and no others. -/
def HasHeight (t : StoredTree) (d : Nat) : Prop :=
  ∀ n, (∃ way ∈ t.ways, way.length = n) ↔ n < d

/-- **When the levels of a stored tree can be counted.** There have to be no more ways from the root
than the tree is said to hold nodes, and every word that names a child on one of them has to be in
the file and at least `-1`. Then the levels are counted right; otherwise damage is reported. No sum
on the way is too large for a machine. -/
theorem depth_eq_ok_iff (t : StoredTree) :
    ((∃ d, t.depth = .ok d) ↔ t.ways.encard ≤ t.count ∧ Legible t.buf t.root) ∧
    (∀ d, t.depth = .ok d → t.HasHeight d) ∧
    (¬ (t.ways.encard ≤ t.count ∧ Legible t.buf t.root) →
      ∃ cause, t.depth = .error (.corrupted cause)) ∧
    ((∀ r, t.root = some r → r < 0x8000000000000000) → t.count + 1 < 0x10000000000000000 →
      t.depthChecked.Yields t.depth) := by
  have hiff : (∃ d, t.depth = .ok d) ↔ t.ways.encard ≤ t.count ∧ Legible t.buf t.root := by
    rw [exists_depth_iff]
    constructor
    · rintro ⟨u, hu, hsize⟩
      rw [ways, hu.encard_waysFrom]
      exact ⟨Nat.cast_le.2 hsize, hu.legible⟩
    · rintro ⟨hways, hlegible⟩
      obtain ⟨u, hu⟩ := hlegible.exists_hangsAt hways
      rw [ways, hu.encard_waysFrom] at hways
      exact ⟨u, hu, Nat.cast_le.1 hways⟩
  refine ⟨hiff, fun d hd => ?_, fun hnot => ?_, yields_depthChecked⟩
  · obtain ⟨u, hu, hsize⟩ := exists_depth_iff.1 ⟨d, hd⟩
    rw [depth_eq hu hsize] at hd
    cases hd
    exact hu.exists_way_iff
  · cases hd : t.depth with
    | ok d => exact absurd (hiff.1 ⟨d, hd⟩) hnot
    | error e =>
      obtain ⟨cause, rfl⟩ := depth_damage e hd
      exact ⟨cause, rfl⟩

end StoredTree
end Gazetteer
