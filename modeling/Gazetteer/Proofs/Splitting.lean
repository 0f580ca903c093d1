import Gazetteer.Proofs.WordOrder
import Gazetteer.SpatialTree.Search

/-!
# How a median-split tree is ordered and how deep it is

The tree of a list of sites has each site once. At every level the items of the lower half precede
the root and those of the upper half follow it, along the axis of the level; and the halves are so
even that a tree of `n` nodes has as many levels as `n` has binary digits.
-/

namespace Gazetteer

namespace Site

variable {axis : Axis} {a b c : Site}

theorem leAlong_iff : leAlong axis a b = true ↔
    (a.point.coord axis).totalRank < (b.point.coord axis).totalRank ∨
      (a.point.coord axis).totalRank = (b.point.coord axis).totalRank ∧ a.index ≤ b.index := by
  rw [leAlong, compareAlong, Ordering.isLE_then_iff_or, Binary64.totalCompare, Int.compare_eq_lt,
    Int.compare_eq_eq, Nat.isLE_compare]

/-- Of two sites with different indices, one comes before the other. -/
theorem compareAlong_eq_lt (h : leAlong axis a b = true) (hne : a.index ≠ b.index) :
    compareAlong axis a b = .lt := by
  rw [leAlong_iff] at h
  rw [compareAlong, Ordering.then_eq_lt, Binary64.totalCompare, Int.compare_eq_lt,
    Int.compare_eq_eq, Nat.compare_eq_lt]
  omega

/-- A site that comes before another lies nowhere above it. -/
theorem totalRank_le_of_compareAlong (h : compareAlong axis a b = .lt) :
    (a.point.coord axis).totalRank ≤ (b.point.coord axis).totalRank := by
  have := leAlong_iff.1 (show leAlong axis a b = true by rw [leAlong, h]; rfl)
  omega

theorem leAlong_trans (h₁ : leAlong axis a b = true) (h₂ : leAlong axis b c = true) :
    leAlong axis a c = true := by
  rw [leAlong_iff] at *
  omega

theorem leAlong_total (axis : Axis) (a b : Site) :
    (leAlong axis a b || leAlong axis b a) = true := by
  rw [Bool.or_eq_true, leAlong_iff, leAlong_iff]
  omega

end Site

namespace Tree

/-- The items of a tree, in the order of its nodes. -/
def items : Tree → List Nat
  | .empty => []
  | .node item lower upper => item :: (lower.items ++ upper.items)

theorem pairwise_mergeSort_leAlong (axis : Axis) (sites : List Site) :
    (sites.mergeSort (Site.leAlong axis)).Pairwise fun a b => Site.leAlong axis a b = true := by
  apply List.pairwise_mergeSort
  · exact fun _ _ _ h₁ h₂ => Site.leAlong_trans h₁ h₂
  · exact Site.leAlong_total axis

/-- What a tree of sites is: nothing, or the site in the middle between the trees of the halves. -/
theorem build_cases (depth : Nat) (sites : List Site) :
    (sites = [] ∧ build depth sites = .empty) ∨ ∃ lower middle upper,
      (lower ++ middle :: upper).Perm sites ∧
      (lower ++ middle :: upper).Pairwise (fun a b => Site.leAlong (Axis.ofDepth depth) a b = true) ∧
      lower.length = sites.length / 2 ∧
      build depth sites =
        .node middle.index (build (depth + 1) lower) (build (depth + 1) upper) := by
  have hlen : (sites.mergeSort (Site.leAlong (Axis.ofDepth depth))).length = sites.length := by simp
  have hperm := List.mergeSort_perm sites (Site.leAlong (Axis.ofDepth depth))
  have hsorted := pairwise_mergeSort_leAlong (Axis.ofDepth depth) sites
  have hcut (middle : Site) (upper : List Site) (h : (sites.mergeSort
      (Site.leAlong (Axis.ofDepth depth))).drop (sites.length / 2) = middle :: upper) :
      (sites.mergeSort (Site.leAlong (Axis.ofDepth depth))).take (sites.length / 2) ++
        middle :: upper = sites.mergeSort (Site.leAlong (Axis.ofDepth depth)) := by
    rw [← h, List.take_append_drop]
  fun_cases build depth sites with
  | case1 sorted h =>
    rw [List.drop_eq_nil_iff, hlen] at h
    exact Or.inl ⟨List.eq_nil_of_length_eq_zero (by omega), rfl⟩
  | case2 sorted middle upper h =>
    refine Or.inr ⟨_, middle, upper, ?_, ?_, ?_, rfl⟩
    · exact (hcut middle upper h).symm ▸ hperm
    · exact (hcut middle upper h).symm ▸ hsorted
    · rw [List.length_take, hlen]
      omega

/-- Induction over the halves of a list of sites. -/
theorem build_induction {motive : Nat → List Site → Tree → Prop}
    (empty : ∀ depth, motive depth [] .empty)
    (node : ∀ depth sites lower middle upper, (lower ++ middle :: upper).Perm sites →
      (lower ++ middle :: upper).Pairwise (fun a b => Site.leAlong (Axis.ofDepth depth) a b = true) →
      lower.length = sites.length / 2 → motive (depth + 1) lower (build (depth + 1) lower) →
      motive (depth + 1) upper (build (depth + 1) upper) →
      motive depth sites
        (.node middle.index (build (depth + 1) lower) (build (depth + 1) upper)))
    (depth : Nat) (sites : List Site) : motive depth sites (build depth sites) := by
  induction hn : sites.length using Nat.strongRecOn generalizing depth sites with
  | _ n ih =>
    obtain ⟨rfl, h⟩ | ⟨lower, middle, upper, hp, hs, hl, h⟩ := build_cases depth sites
    · exact h ▸ empty depth
    · have hlen := hp.length_eq
      rw [List.length_append, List.length_cons] at hlen
      rw [h]
      exact node depth sites lower middle upper hp hs hl
        (ih lower.length (by omega) (depth + 1) lower rfl)
        (ih upper.length (by omega) (depth + 1) upper rfl)

/-- Each site is in the tree once. -/
theorem items_build (depth : Nat) (sites : List Site) :
    (build depth sites).items.Perm (sites.map Site.index) := by
  induction depth, sites using build_induction with
  | empty => exact .nil
  | node depth sites lower middle upper hp _ _ ihl ihu =>
    have hmap := hp.map Site.index
    rw [List.map_append, List.map_cons] at hmap
    exact ((ihl.append ihu).cons middle.index).trans (List.perm_middle.symm.trans hmap)

theorem size_eq_length_items (t : Tree) : t.size = t.items.length := by
  induction t with
  | empty => rfl
  | node item lower upper ihl ihu =>
    simp only [size, items, List.length_cons, List.length_append, ihl, ihu]
    omega

/-! ## Levels -/

theorem bitLength_eq {n : Nat} (h : 0 < n) : bitLength n = 1 + bitLength (n / 2) := by
  unfold bitLength
  rw [if_neg (by omega), Nat.log2_def]
  split <;> split <;> omega

theorem bitLength_mono {m n : Nat} (h : m ≤ n) : bitLength m ≤ bitLength n := by
  induction n using Nat.strongRecOn generalizing m with
  | _ n ih =>
    rcases Nat.eq_zero_or_pos m with rfl | hm
    · exact Nat.zero_le _
    · rw [bitLength_eq hm, bitLength_eq (by omega : 0 < n)]
      have := @ih (n / 2) (by omega) (m / 2) (by omega)
      omega

/-- **The tree of `n` sites is balanced**: it has `bitLength n` levels. -/
theorem height_build (depth : Nat) (sites : List Site) :
    (build depth sites).height = bitLength sites.length := by
  induction depth, sites using build_induction with
  | empty => rfl
  | node depth sites lower middle upper hp _ hl ihl ihu =>
    have hlen := hp.length_eq
    rw [List.length_append, List.length_cons] at hlen
    have hmono := bitLength_mono (m := upper.length) (n := sites.length / 2) (by omega)
    rw [height, ihl, ihu, hl, bitLength_eq (by omega : 0 < sites.length)]
    omega

/-! ## Order -/

/-- The items of each lower half precede the root and those of each upper half follow it, where
`place` tells where an item lies. -/
def Ordered (place : Nat → Ecef) : (depth : Nat) → Tree → Prop
  | _, .empty => True
  | depth, .node item lower upper =>
    (∀ i ∈ lower.items,
      Site.compareAlong (Axis.ofDepth depth) ⟨i, place i⟩ ⟨item, place item⟩ = .lt) ∧
    (∀ i ∈ upper.items,
      Site.compareAlong (Axis.ofDepth depth) ⟨item, place item⟩ ⟨i, place i⟩ = .lt) ∧
    lower.Ordered place (depth + 1) ∧ upper.Ordered place (depth + 1)

/-- **The tree of sites is ordered** on every level. -/
theorem ordered_build {place : Nat → Ecef} (depth : Nat) (sites : List Site)
    (hplace : ∀ s ∈ sites, s.point = place s.index) (hnodup : (sites.map Site.index).Nodup) :
    (build depth sites).Ordered place depth := by
  induction depth, sites using build_induction with
  | empty => trivial
  | node depth sites lower middle upper hp hs _ ihl ihu =>
    have hnodup' := (hp.map Site.index).nodup_iff.2 hnodup
    rw [List.map_append, List.map_cons] at hnodup'
    obtain ⟨hnl, hnu, hdisj⟩ := List.nodup_append.1 hnodup'
    obtain ⟨hmu, hnu⟩ := List.nodup_cons.1 hnu
    obtain ⟨-, hsu, hslm⟩ := List.pairwise_append.1 hs
    obtain ⟨hsmu, -⟩ := List.pairwise_cons.1 hsu
    have hplace' (s : Site) (hs : s ∈ lower ++ middle :: upper) : s.point = place s.index :=
      hplace s (hp.mem_iff.1 hs)
    have hmiddle : (⟨middle.index, place middle.index⟩ : Site) = middle := by
      rw [← hplace' middle (by simp)]
    refine ⟨fun i hi => ?_, fun i hi => ?_, ?_, ?_⟩
    · obtain ⟨s, hs, rfl⟩ := List.mem_map.1 ((items_build _ _).mem_iff.1 hi)
      rw [hmiddle, ← hplace' s (by simp [hs])]
      exact Site.compareAlong_eq_lt (hslm s hs middle (by simp))
        (hdisj _ (List.mem_map_of_mem hs) _ (by simp))
    · obtain ⟨s, hs, rfl⟩ := List.mem_map.1 ((items_build _ _).mem_iff.1 hi)
      rw [hmiddle, ← hplace' s (by simp [hs])]
      exact Site.compareAlong_eq_lt (hsmu s hs) fun he => hmu (he ▸ List.mem_map_of_mem hs)
    · exact ihl (fun s hs => hplace' s (by simp [hs])) hnl
    · exact ihu (fun s hs => hplace' s (by simp [hs])) hnu

/-! ## The tree of a list of points -/

variable {points : List Ecef}

/-- The sites of a list of points. -/
def sites (points : List Ecef) : List Site := points.mapIdx fun i p => ⟨i, p⟩

theorem map_index_sites (points : List Ecef) :
    (sites points).map Site.index = List.range points.length := by
  refine List.ext_getElem (by simp [sites]) fun i h₁ h₂ => ?_
  simp [sites]

/-- The items of the tree of some points are their indices. -/
theorem items_ofPoints (points : List Ecef) :
    (ofPoints points).items.Perm (List.range points.length) :=
  map_index_sites points ▸ items_build 0 (sites points)

theorem size_ofPoints (points : List Ecef) : (ofPoints points).size = points.length := by
  rw [size_eq_length_items, (items_ofPoints points).length_eq, List.length_range]

theorem height_ofPoints (points : List Ecef) :
    (ofPoints points).height = bitLength points.length := by
  rw [ofPoints, height_build, List.length_mapIdx]

theorem ordered_ofPoints {place : Nat → Ecef}
    (hplace : ∀ i p, points[i]? = some p → place i = p) :
    (ofPoints points).Ordered place 0 := by
  refine ordered_build 0 (sites points) (fun s hs => ?_) ?_
  · obtain ⟨i, hi, rfl⟩ := List.mem_mapIdx.1 hs
    exact (hplace i _ (List.getElem?_eq_getElem hi)).symm
  · exact map_index_sites points ▸ List.nodup_range

/-! ## The nodes of a tree -/

theorem rootAt_lt {t : Tree} {start i : Nat} (h : t.rootAt start = some i) :
    start ≤ i ∧ i < start + t.size := by
  cases t with
  | empty => cases h
  | node item lower upper =>
    cases h
    simp only [size]
    omega

/-- Every node has an item of the tree and names children inside the layout. -/
theorem mem_layout {t : Tree} {start : Nat} {n : TreeNode} (h : n ∈ t.layout start) :
    n.item ∈ t.items ∧ (∀ i, n.left = some i → i < start + t.size) ∧
      ∀ i, n.right = some i → i < start + t.size := by
  induction t generalizing start with
  | empty => cases h
  | node item lower upper ihl ihu =>
    simp only [layout, List.mem_cons, List.mem_append] at h
    simp only [items, List.mem_cons, List.mem_append, size]
    rcases h with rfl | h | h
    · refine ⟨Or.inl rfl, fun i hi => ?_, fun i hi => ?_⟩
      · have := rootAt_lt hi
        omega
      · have := rootAt_lt hi
        omega
    · obtain ⟨hitem, hl, hr⟩ := ihl h
      refine ⟨Or.inr (Or.inl hitem), fun i hi => ?_, fun i hi => ?_⟩
      · have := hl i hi
        omega
      · have := hr i hi
        omega
    · obtain ⟨hitem, hl, hr⟩ := ihu h
      refine ⟨Or.inr (Or.inr hitem), fun i hi => ?_, fun i hi => ?_⟩
      · have := hl i hi
        omega
      · have := hr i hi
        omega

end Tree
end Gazetteer
