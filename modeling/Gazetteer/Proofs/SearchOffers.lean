import Gazetteer.Proofs.Walking
import Gazetteer.Proofs.Ways

/-!
# How many offers a search makes

A search guards the levels that it goes down, not the nodes that it meets. So it makes an offer at
most for each way that is no longer than its levels, and a node that several ways lead to may be
offered once for each. Where the levels of the stored tree can be counted, there are no more ways
than the tree is said to hold nodes, and so no more offers.
-/

namespace Gazetteer

/-! ## Items on ways -/

/-- The item of the node at the end of a way, if there is one. -/
def itemOn (buf : Buffer) (root : Option Nat) (way : List Side) : Option Nat :=
  match wayEnd buf root way with
  | none => none
  | some node =>
    match buf.readOffset node with
    | .ok item => item
    | .error _ => none

/-- The ways from a root to the nodes of an item. -/
def waysTo (buf : Buffer) (root : Option Nat) (item : Nat) : Set (List Side) :=
  {way | itemOn buf root way = some item}

/-- The child of a node that was read. -/
def Visit.child (v : Visit) : Side → Option Nat
  | .left => v.left
  | .right => v.right

section
variable {buf : Buffer} {node item levels : Nat} {root child child' : Option Nat}
  {side near far : Side} {way : List Side} {items items' : List Nat}
  {met met' : List (List Side)} {v : Visit}

theorem itemOn_cons (h : buf.readOffset (side.wordAt node) = .ok child) (way : List Side) :
    itemOn buf (some node) (side :: way) = itemOn buf child way := by
  rw [itemOn, wayEnd_cons side h, itemOn]

theorem waysTo_subset : waysTo buf root item ⊆ waysFrom buf root := by
  intro way hway
  rw [waysTo, Set.mem_ofPred_eq, itemOn] at hway
  cases hend : wayEnd buf root way with
  | none =>
    rw [hend] at hway
    cases hway
  | some node => exact ⟨node, hend⟩

theorem readOffset_child (h : readVisit buf node = .ok v) (side : Side) :
    buf.readOffset (side.wordAt node) = .ok (v.child side) := by
  obtain ⟨-, hleft, hright, -⟩ := readVisit_eq_ok.1 h
  cases side with
  | left => exact hleft
  | right => exact hright

/-- The halves of a node are those of its two children. -/
theorem exists_sides (v : Visit) (axis : Axis) (target : Ecef) (box : Box) :
    ∃ near far : Side, near ≠ far ∧ (halves v axis target box).1.child = v.child near ∧
      (halves v axis target box).2.child = v.child far := by
  rcases halves_cases v axis target box with heq | heq
  · exact ⟨.left, .right, by decide, by rw [heq]; rfl, by rw [heq]; rfl⟩
  · exact ⟨.right, .left, by decide, by rw [heq]; rfl, by rw [heq]; rfl⟩

/-! ## Items that are met -/

/-- Some items are those at the ends of different ways, all of them shorter than a number of
levels. -/
structure MetOn (buf : Buffer) (levels : Nat) (root : Option Nat) (items : List Nat)
    (met : List (List Side)) : Prop where
  nodup : met.Nodup
  short : ∀ way ∈ met, way.length < levels
  items_eq : met.map (itemOn buf root) = items.map some
  few : items.length < 2 ^ levels

theorem MetOn.nil (buf : Buffer) (levels : Nat) (root : Option Nat) : MetOn buf levels root [] [] :=
  ⟨.nil, by simp, rfl, Nat.two_pow_pos levels⟩

/-- The items that are met below a node are its own and those below its children. -/
theorem MetOn.of_children (hne : near ≠ far) (hitem : buf.readOffset node = .ok (some item))
    (hnear : buf.readOffset (near.wordAt node) = .ok child)
    (hfar : buf.readOffset (far.wordAt node) = .ok child')
    (h : MetOn buf levels child items met) (h' : MetOn buf levels child' items' met') :
    MetOn buf (levels + 1) (some node) (item :: (items ++ items'))
      ([] :: (met.map (near :: ·) ++ met'.map (far :: ·))) where
  nodup := by
    rw [List.nodup_cons, List.nodup_append]
    refine ⟨by simp, h.nodup.map List.cons_injective, h'.nodup.map List.cons_injective, ?_⟩
    intro way hway way' hway' heq
    obtain ⟨w, -, rfl⟩ := List.mem_map.1 hway
    obtain ⟨w', -, rfl⟩ := List.mem_map.1 hway'
    exact hne (List.cons.inj heq).1
  short way hway := by
    rcases List.mem_cons.1 hway with rfl | hway
    · exact Nat.succ_pos levels
    · rcases List.mem_append.1 hway with hway | hway
      · obtain ⟨w, hw, rfl⟩ := List.mem_map.1 hway
        exact Nat.succ_lt_succ (h.short w hw)
      · obtain ⟨w, hw, rfl⟩ := List.mem_map.1 hway
        exact Nat.succ_lt_succ (h'.short w hw)
  items_eq := by
    have hnil : itemOn buf (some node) [] = some item := by
      rw [itemOn, wayEnd_nil]
      dsimp only
      rw [hitem]
    have hdown : itemOn buf (some node) ∘ (near :: ·) = itemOn buf child :=
      funext fun way => itemOn_cons hnear way
    have hdown' : itemOn buf (some node) ∘ (far :: ·) = itemOn buf child' :=
      funext fun way => itemOn_cons hfar way
    rw [List.map_cons, List.map_append, List.map_map, List.map_map, hnil, hdown, hdown', h.items_eq,
      h'.items_eq, List.map_cons, List.map_append]
  few := by
    have := h.few
    have := h'.few
    rw [List.length_cons, List.length_append, Nat.pow_succ]
    omega

theorem length_le_encard {l : List (List Side)} {s : Set (List Side)} (hl : l.Nodup)
    (h : ∀ way ∈ l, way ∈ s) : (l.length : ℕ∞) ≤ s.encard := by
  have hsub : (l.toFinset : Set (List Side)) ⊆ s := fun way hway => h way (by simpa using hway)
  have hle := Set.encard_le_encard hsub
  rwa [Set.encard_coe_eq_coe_finsetCard, List.toFinset_card_of_nodup hl] at hle

namespace MetOn

variable (h : MetOn buf levels root items met)
include h

/-- **No more items are met than there are ways.** -/
theorem length_le : (items.length : ℕ∞) ≤ (waysFrom buf root).encard := by
  have hlength : met.length = items.length := by
    rw [← List.length_map (itemOn buf root), h.items_eq, List.length_map]
  rw [← hlength]
  refine length_le_encard h.nodup fun way hway => ?_
  have hitem : itemOn buf root way ∈ items.map some := h.items_eq ▸ List.mem_map_of_mem hway
  obtain ⟨item, -, hitem⟩ := List.mem_map.1 hitem
  exact waysTo_subset hitem.symm

/-- **An item is met no more often than there are ways to its nodes.** -/
theorem count_le (item : Nat) : (items.count item : ℕ∞) ≤ (waysTo buf root item).encard := by
  have hcount : (met.filter fun way => itemOn buf root way = some item).length =
      items.count item := by
    have hmap := congrArg (List.count (some item)) h.items_eq
    rw [List.count_map_of_injective _ _ (Option.some_injective _), List.count_eq_countP,
      List.countP_map] at hmap
    rw [← hmap, List.countP_eq_length_filter]
    congr 2
    funext way
    simp [beq_eq_decide]
  rw [← hcount]
  refine length_le_encard (h.nodup.filter _) fun way hway => ?_
  have hitem := (List.mem_filter.1 hway).2
  rwa [decide_eq_true_eq] at hitem

end MetOn
end

/-! ## The walk -/

section
variable {σ : Type} {buf : Buffer} {levels depth node : Nat} {half : Half} {box : Box} {s : Traced σ}

/-- A search was offered, beyond what it was offered before, items that are met below a root. -/
def Meets (buf : Buffer) (levels : Nat) (root : Option Nat) (s found : Traced σ) : Prop :=
  ∃ items met, found.visited = s.visited ++ items ∧ MetOn buf levels root items met

theorem meets_self (buf : Buffer) (levels : Nat) (root : Option Nat) (s : Traced σ) :
    Meets buf levels root s s :=
  ⟨[], [], (List.append_nil _).symm, .nil buf levels root⟩

variable [Selection σ]

theorem Traced.visited_offer (s : Traced σ) (h : Hit) :
    (Selection.offer s h).visited = s.visited ++ [h.offset] := by
  simp [Selection.offer, visited]

variable [Trig] {metric : Metric} {target : Ecef} {tooDeep : Error}

theorem searchNear_meets
    (ih : ∀ c box (s : Traced σ), Meets buf levels (some c) s
      (searchFrom buf metric target tooDeep levels depth c box s).selection)
    (half : Half) (s : Traced σ) : Meets buf levels half.child s
      (searchNear buf metric target tooDeep levels depth half s).selection := by
  unfold searchNear
  cases half.child with
  | none => exact meets_self buf levels none s
  | some c => exact ih c half.box s

theorem searchFar_meets
    (ih : ∀ c box (s : Traced σ), Meets buf levels (some c) s
      (searchFrom buf metric target tooDeep levels depth c box s).selection)
    (half : Half) (s : Traced σ) : Meets buf levels half.child s
      (searchFar buf metric target tooDeep levels depth half s).selection := by
  unfold searchFar
  cases half.child with
  | none => exact meets_self buf levels none s
  | some c =>
    dsimp only
    split
    · exact meets_self buf levels (some c) s
    · exact meets_self buf levels (some c) s
    · exact ih c half.box s

/-- **A search offers only what it meets on different ways**, however it ends. -/
theorem searchFrom_meets : Meets buf levels (some node) s
    (searchFrom buf metric target tooDeep levels depth node box s).selection := by
  induction levels generalizing depth node box s with
  | zero => exact meets_self buf 0 (some node) s
  | succ levels ih =>
    rw [searchFrom_succ]
    cases hv : readVisit buf node with
    | error e => exact meets_self buf (levels + 1) (some node) s
    | ok v =>
      obtain ⟨near, far, hne, hnear, hfar⟩ := exists_sides v (Axis.ofDepth depth) target box
      have hjoin {items items' : List Nat} {met met' : List (List Side)}
          (h : MetOn buf levels (v.child near) items met)
          (h' : MetOn buf levels (v.child far) items' met') :=
        MetOn.of_children hne (readVisit_eq_ok.1 hv).1 (readOffset_child hv near)
          (readOffset_child hv far) h h'
      have hbelow (c : Nat) (box : Box) (s : Traced σ) : Meets buf levels (some c) s
          (searchFrom buf metric target tooDeep levels (depth + 1) c box s).selection := ih
      dsimp only
      obtain ⟨items, met, hitems, hmet⟩ := searchNear_meets hbelow
        (halves v (Axis.ofDepth depth) target box).1
        (Selection.offer s ⟨metric.distance v.pivot target, v.item⟩)
      rw [hnear] at hmet
      rw [Traced.visited_offer] at hitems
      split
      · -- the other half is not searched, so nothing is met there
        refine ⟨_, _, ?_, hjoin hmet (.nil buf levels _)⟩
        rw [hitems]
        simp
      · obtain ⟨items', met', hitems', hmet'⟩ := searchFar_meets hbelow
          (halves v (Axis.ofDepth depth) target box).2 _
        rw [hfar] at hmet'
        refine ⟨_, _, ?_, hjoin hmet hmet'⟩
        rw [hitems', hitems]
        simp

/-! ## The record of the offers -/

/-- What a search gives, without the record of its offers. -/
def SearchResult.untraced (r : SearchResult (Traced σ)) : SearchResult σ :=
  ⟨r.selection.selection, r.outcome⟩

theorem searchNear_untraced
    (ih : ∀ c box (s : Traced σ),
      searchFrom buf metric target tooDeep levels depth c box s.selection =
        (searchFrom buf metric target tooDeep levels depth c box s).untraced)
    (half : Half) (s : Traced σ) :
    searchNear buf metric target tooDeep levels depth half s.selection =
      (searchNear buf metric target tooDeep levels depth half s).untraced := by
  unfold searchNear
  cases half.child with
  | none => rfl
  | some c => exact ih c half.box s

theorem searchFar_untraced
    (ih : ∀ c box (s : Traced σ),
      searchFrom buf metric target tooDeep levels depth c box s.selection =
        (searchFrom buf metric target tooDeep levels depth c box s).untraced)
    (half : Half) (s : Traced σ) :
    searchFar buf metric target tooDeep levels depth half s.selection =
      (searchFar buf metric target tooDeep levels depth half s).untraced := by
  have hadmits : admitsBox metric target half.box s.selection =
      admitsBox metric target half.box s := rfl
  unfold searchFar
  rw [hadmits]
  cases half.child with
  | none => rfl
  | some c =>
    dsimp only
    split
    · rfl
    · rfl
    · exact ih c half.box s

/-- **Keeping a record of the offers changes nothing else.** -/
theorem searchFrom_untraced :
    searchFrom buf metric target tooDeep levels depth node box s.selection =
      (searchFrom buf metric target tooDeep levels depth node box s).untraced := by
  induction levels generalizing depth node box s with
  | zero => rfl
  | succ levels ih =>
    have hbelow (c : Nat) (box : Box) (s : Traced σ) :
        searchFrom buf metric target tooDeep levels (depth + 1) c box s.selection =
          (searchFrom buf metric target tooDeep levels (depth + 1) c box s).untraced := ih
    rw [searchFrom_succ, searchFrom_succ]
    cases readVisit buf node with
    | error e => rfl
    | ok v =>
      dsimp only
      have hnear : searchNear buf metric target tooDeep levels (depth + 1)
          (halves v (Axis.ofDepth depth) target box).1
          (Selection.offer s.selection ⟨metric.distance v.pivot target, v.item⟩) = _ :=
        searchNear_untraced hbelow _ (Selection.offer s ⟨metric.distance v.pivot target, v.item⟩)
      rw [hnear]
      cases searchNear buf metric target tooDeep levels (depth + 1)
          (halves v (Axis.ofDepth depth) target box).1
          (Selection.offer s ⟨metric.distance v.pivot target, v.item⟩) with
      | mk found outcome =>
        cases outcome with
        | error e => rfl
        | ok _ => exact searchFar_untraced hbelow _ found

end

namespace StoredTree

variable [Trig] {σ : Type} [Selection σ] {t : StoredTree} {metric : Metric} {target : Ecef} {s : σ}

/-- The offsets of the items that a search offers, in order. -/
def visited (t : StoredTree) (metric : Metric) (target : Ecef) (s : σ) : List Nat :=
  (t.search metric target (Traced.empty s)).selection.visited

theorem search_untraced :
    t.search metric target s = (t.search metric target (Traced.empty s)).untraced := by
  unfold search
  cases t.root with
  | none => rfl
  | some root => exact searchFrom_untraced (s := Traced.empty s)

/-- A search offers what is met on different ways from the root. -/
theorem exists_metOn (t : StoredTree) (metric : Metric) (target : Ecef) (s : σ) :
    ∃ met, MetOn t.buf (maxLevels t.count) t.root (t.visited metric target s) met := by
  have hmeets : Meets t.buf (maxLevels t.count) t.root (Traced.empty s)
      (t.search metric target (Traced.empty s)).selection := by
    unfold search
    cases t.root with
    | none => exact meets_self ..
    | some root => exact searchFrom_meets
  obtain ⟨items, met, hitems, hmet⟩ := hmeets
  have hvisited : t.visited metric target s = items := hitems
  exact ⟨met, hvisited ▸ hmet⟩

/-- Where the levels can be counted, no more is offered than the tree is said to hold. -/
theorem length_visited_le {d : Nat} (h : t.depth = .ok d) :
    (t.visited metric target s).length ≤ t.count := by
  obtain ⟨u, hu, hsize⟩ := exists_depth_iff.1 ⟨d, h⟩
  obtain ⟨met, hmet⟩ := t.exists_metOn metric target s
  have hle := hmet.length_le
  rw [hu.encard_waysFrom] at hle
  exact (Nat.cast_le.1 hle).trans hsize

end StoredTree

/-- The ways that the guard lets pass are no more than the square of twice the number of nodes. -/
theorem two_pow_maxLevels_le {n : Nat} (hn : 0 < n) : 2 ^ maxLevels n ≤ 4 * n ^ 2 := by
  have hsize : 2 ^ n.size ≤ 2 * n := by
    obtain ⟨k, hk⟩ := Nat.exists_eq_succ_of_ne_zero (Nat.size_pos.2 hn).ne'
    have hle : 2 ^ k ≤ n := Nat.lt_size.1 (by omega)
    rw [hk, Nat.pow_succ]
    omega
  calc 2 ^ maxLevels n = (2 ^ n.size) ^ 2 := by
        rw [maxLevels, Tree.bitLength_eq_size, Nat.mul_comm, Nat.pow_mul]
    _ ≤ (2 * n) ^ 2 := Nat.pow_le_pow_left hsize 2
    _ = 4 * n ^ 2 := by rw [Nat.mul_pow]

end Gazetteer
