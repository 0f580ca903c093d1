import Gazetteer.Proofs.Boxes
import Gazetteer.Proofs.Selecting
import Gazetteer.Proofs.Storing

/-!
# A search leaves out nothing that matters

A search of a stored tree ends as if it had offered every item below the root, each once. The walk
keeps the items that are still to come inside the box that it carries; a half is left out only when
the selection does not admit the point of its box nearest to the target, and then it would admit
none of the items of that half either.
-/

namespace Gazetteer

/-! ## The order of a walk -/

/-- The items of a tree in the order in which a search meets them if it leaves out none. -/
def Tree.nearFirst (point : Nat → Ecef) (target : Ecef) : (depth : Nat) → Tree → List Nat
  | _, .empty => []
  | depth, .node item lower upper =>
    if target.coord (Axis.ofDepth depth) < (point item).coord (Axis.ofDepth depth) then
      item :: (lower.nearFirst point target (depth + 1) ++ upper.nearFirst point target (depth + 1))
    else
      item :: (upper.nearFirst point target (depth + 1) ++ lower.nearFirst point target (depth + 1))

theorem Tree.perm_nearFirst (point : Nat → Ecef) (target : Ecef) (depth : Nat) (t : Tree) :
    (t.nearFirst point target depth).Perm t.items := by
  induction t generalizing depth with
  | empty => exact .nil
  | node item lower upper ihl ihu =>
    rw [nearFirst, items]
    split
    · exact ((ihl (depth + 1)).append (ihu (depth + 1))).cons item
    · exact (List.perm_append_comm.trans ((ihl (depth + 1)).append (ihu (depth + 1)))).cons item

/-! ## Points in boxes -/

/-- The points of a tree are finite and lie in a box. -/
def Tree.InBox (point : Nat → Ecef) (t : Tree) (box : Box) : Prop :=
  ∀ i ∈ t.items, (point i).isFinite = true ∧ box.Contains (point i)

section
variable {point : Nat → Ecef} {depth item : Nat} {lower upper : Tree} {box : Box}

/-- The points of the lower half lie below the plane. -/
theorem Tree.Ordered.inBox_below
    (ho : (Tree.node item lower upper).Ordered point depth)
    (hbox : (Tree.node item lower upper).InBox point box) :
    lower.InBox point (box.below (Axis.ofDepth depth) ((point item).coord (Axis.ofDepth depth))) := by
  intro i hi
  obtain ⟨hfin, hin⟩ := hbox i (by simp [Tree.items, hi])
  obtain ⟨hroot, -⟩ := hbox item (by simp [Tree.items])
  refine ⟨hfin, Box.contains_below hin ?_⟩
  exact Binary64.le_of_totalRank_le
    (Binary64.not_nan_of_isFinite (Ecef.isFinite_coord hfin _))
    (Binary64.not_nan_of_isFinite (Ecef.isFinite_coord hroot _))
    (Site.totalRank_le_of_compareAlong (ho.1 i hi))

/-- The points of the upper half lie above the plane. -/
theorem Tree.Ordered.inBox_above
    (ho : (Tree.node item lower upper).Ordered point depth)
    (hbox : (Tree.node item lower upper).InBox point box) :
    upper.InBox point (box.above (Axis.ofDepth depth) ((point item).coord (Axis.ofDepth depth))) := by
  intro i hi
  obtain ⟨hfin, hin⟩ := hbox i (by simp [Tree.items, hi])
  obtain ⟨hroot, -⟩ := hbox item (by simp [Tree.items])
  refine ⟨hfin, Box.contains_above hin ?_⟩
  exact Binary64.le_of_totalRank_le
    (Binary64.not_nan_of_isFinite (Ecef.isFinite_coord hroot _))
    (Binary64.not_nan_of_isFinite (Ecef.isFinite_coord hfin _))
    (Site.totalRank_le_of_compareAlong (ho.2.1 i hi))

end

/-! ## The walk -/

/-- The half with the target is the lower one or the upper one. -/
theorem halves_cases (v : Visit) (axis : Axis) (target : Ecef) (box : Box) :
    halves v axis target box = (⟨v.left, box.below axis (v.pivot.coord axis)⟩,
      ⟨v.right, box.above axis (v.pivot.coord axis)⟩) ∨
    halves v axis target box = (⟨v.right, box.above axis (v.pivot.coord axis)⟩,
      ⟨v.left, box.below axis (v.pivot.coord axis)⟩) := by
  by_cases hside : target.coord axis < v.pivot.coord axis
  · exact .inl (if_pos hside)
  · exact .inr (if_neg hside)

open LawfulSelection

section
variable [Trig] {σ : Type} [Selection σ] {buf : Buffer} {metric : Metric}
  {target : Ecef} {tooDeep : Error} {itemAt : Nat → Nat} {point : Nat → Ecef} {levels depth : Nat}
  {t : Tree} {box : Box} {s : σ}

/-- The offers of the items of a tree, in the order of a walk. -/
def Tree.offers (metric : Metric) (target : Ecef) (itemAt : Nat → Nat) (point : Nat → Ecef)
    (depth : Nat) (t : Tree) : List Hit :=
  (t.nearFirst point target depth).map fun i => ⟨metric.distance (point i) target, itemAt i⟩

/-- An offer of a tree is the distance of an item of the tree. -/
theorem Tree.mem_offers {h : Hit} (hh : h ∈ t.offers metric target itemAt point depth) :
    ∃ i ∈ t.items, h = ⟨metric.distance (point i) target, itemAt i⟩ := by
  obtain ⟨i, hi, rfl⟩ := List.mem_map.1 hh
  exact ⟨i, (perm_nearFirst point target depth t).mem_iff.1 hi, rfl⟩

/-- The search of the half with the target. -/
def searchNear (buf : Buffer) (metric : Metric) (target : Ecef) (tooDeep : Error)
    (levels depth : Nat) (half : Half) (s : σ) : SearchResult σ :=
  match half.child with
  | none => ⟨s, .ok ()⟩
  | some c => searchFrom buf metric target tooDeep levels depth c half.box s

/-- The search of the other half, which is left out unless the selection admits its box. -/
def searchFar (buf : Buffer) (metric : Metric) (target : Ecef) (tooDeep : Error)
    (levels depth : Nat) (half : Half) (s : σ) : SearchResult σ :=
  match half.child with
  | none => ⟨s, .ok ()⟩
  | some c =>
    match admitsBox metric target half.box s with
    | .error e => ⟨s, .error e⟩
    | .ok false => ⟨s, .ok ()⟩
    | .ok true => searchFrom buf metric target tooDeep levels depth c half.box s

/-- One level of a search. -/
theorem searchFrom_succ {place : Nat} :
    searchFrom buf metric target tooDeep (levels + 1) depth place box s =
      match readVisit buf place with
      | .error e => ⟨s, .error e⟩
      | .ok v =>
        let s := Selection.offer s ⟨metric.distance v.pivot target, v.item⟩
        let parts := halves v (Axis.ofDepth depth) target box
        let first := searchNear buf metric target tooDeep levels (depth + 1) parts.1 s
        match first.outcome with
        | .error _ => first
        | .ok () =>
          searchFar buf metric target tooDeep levels (depth + 1) parts.2 first.selection := by
  rfl

section
variable {buf' : Buffer} {tooDeep' : Error} {levels' : Nat} {half : Half}

/-- Two searches of a half are one if they are so below its child. -/
theorem searchNear_congr (h : ∀ c, half.child = some c → ∀ (box : Box) (s : σ),
      searchFrom buf' metric target tooDeep' levels' depth c box s =
        searchFrom buf metric target tooDeep levels depth c box s) :
    searchNear buf' metric target tooDeep' levels' depth half s =
      searchNear buf metric target tooDeep levels depth half s := by
  unfold searchNear
  cases hc : half.child with
  | none => rfl
  | some c => exact h c hc half.box s

theorem searchFar_congr (h : ∀ c, half.child = some c → ∀ (box : Box) (s : σ),
      searchFrom buf' metric target tooDeep' levels' depth c box s =
        searchFrom buf metric target tooDeep levels depth c box s) :
    searchFar buf' metric target tooDeep' levels' depth half s =
      searchFar buf metric target tooDeep levels depth half s := by
  unfold searchFar
  cases hc : half.child with
  | none => rfl
  | some c => simp only [h c hc half.box s]

end

/-- A search below a node offers its item, then searches the half with the target, and at last the
other half. -/
theorem searchFrom_of_halves {place : Nat} {v : Visit} {near far : Half} {s' : σ}
    (hread : readVisit buf place = .ok v)
    (hhalves : halves v (Axis.ofDepth depth) target box = (near, far))
    (hnear : searchNear buf metric target tooDeep levels (depth + 1) near
      (Selection.offer s ⟨metric.distance v.pivot target, v.item⟩) = ⟨s', .ok ()⟩) :
    searchFrom buf metric target tooDeep (levels + 1) depth place box s =
      searchFar buf metric target tooDeep levels (depth + 1) far s' := by
  rw [searchFrom_succ, hread]
  dsimp only
  rw [hhalves, hnear]

/-- A half in which a tree stands, with all its points in the box of the half. -/
structure Half.Has (half : Half) (buf : Buffer) (itemAt : Nat → Nat) (point : Nat → Ecef)
    (t : Tree) : Prop where
  stored : t.StoredAt buf itemAt point half.child
  inBox : t.InBox point half.box

variable [LawfulSelection σ]

theorem sound_offers (hm : metric.Sound) (ht : target.isFinite = true) (hbox : t.InBox point box)
    (hs : Sound s) : Sound (offerAll s (t.offers metric target itemAt point depth)) := by
  refine sound_offerAll hs fun h hh => ?_
  obtain ⟨i, hi, rfl⟩ := Tree.mem_offers hh
  exact hm.not_nan _ _ (hbox i hi).1 ht

/-- A search with so many levels left offers all items of the tree. -/
def Tree.Searched (σ : Type) [Selection σ] [LawfulSelection σ] (buf : Buffer) (metric : Metric)
    (target : Ecef) (tooDeep : Error) (itemAt : Nat → Nat) (point : Nat → Ecef)
    (levels depth : Nat) (t : Tree) : Prop :=
  ∀ (place : Nat) (box : Box) (s : σ), t.StoredAt buf itemAt point (some place) →
    t.InBox point box → Sound s → searchFrom buf metric target tooDeep levels depth place box s =
      ⟨offerAll s (t.offers metric target itemAt point depth), .ok ()⟩

/-- The half with the target is searched as a whole. -/
theorem searchNear_eq (hsearch : t.Searched σ buf metric target tooDeep itemAt point levels depth)
    {half : Half} (hhalf : half.Has buf itemAt point t) (hs : Sound s) :
    searchNear buf metric target tooDeep levels depth half s =
      ⟨offerAll s (t.offers metric target itemAt point depth), .ok ()⟩ := by
  obtain ⟨hst, hbox⟩ := hhalf
  unfold searchNear
  cases hc : half.child with
  | none =>
    rw [hc] at hst
    rw [hst.eq_empty]
    rfl
  | some c => exact hsearch c half.box s (hc ▸ hst) hbox hs

/-- The other half is searched, or none of its items would have changed the selection. -/
theorem searchFar_eq (hm : metric.Sound) (ht : target.isFinite = true)
    (hsearch : t.Searched σ buf metric target tooDeep itemAt point levels depth)
    {half : Half} (hhalf : half.Has buf itemAt point t) (hs : Sound s) :
    searchFar buf metric target tooDeep levels depth half s =
      ⟨offerAll s (t.offers metric target itemAt point depth), .ok ()⟩ := by
  obtain ⟨hst, hbox⟩ := hhalf
  unfold searchFar
  cases hc : half.child with
  | none =>
    rw [hc] at hst
    rw [hst.eq_empty]
    rfl
  | some c =>
    rw [hc] at hst
    obtain ⟨i, hi⟩ := List.exists_mem_of_ne_nil _ hst.items_ne_nil
    obtain ⟨q, hq⟩ := Box.exists_closest (hbox i hi).2 target
    have hadmits : admitsBox metric target half.box s =
        .ok (Selection.admits s (metric.distance q target)) := by
      rw [admitsBox, hq]
      rfl
    rw [hadmits]
    cases hd : Selection.admits s (metric.distance q target) with
    | true => exact hsearch c half.box s hst hbox hs
    | false =>
      have hle : ∀ h ∈ t.offers metric target itemAt point depth,
          metric.distance q target ≤ h.distance := by
        intro h hh
        obtain ⟨j, hj, rfl⟩ := Tree.mem_offers hh
        exact hm.closest_le half.box target _ q ht (hbox j hj).1 (hbox j hj).2 hq
      rw [offerAll_eq_self hs hd hle]

/-- **A search offers all items below a node**, as far as the selection can tell. -/
theorem Tree.Ordered.searched (hm : metric.Sound) (ht : target.isFinite = true)
    (ho : t.Ordered point depth) (hlevels : t.height ≤ levels) :
    t.Searched σ buf metric target tooDeep itemAt point levels depth := by
  induction t generalizing levels depth with
  | empty =>
    intro place box s hst
    cases hst
  | node item lower upper ihl ihu =>
    intro place box s hst hbox hs
    rw [Tree.height] at hlevels
    obtain ⟨levels, rfl⟩ : ∃ n, levels = n + 1 := ⟨levels - 1, by omega⟩
    have hsl : lower.Searched σ buf metric target tooDeep itemAt point levels (depth + 1) :=
      ihl ho.2.2.1 (by omega)
    have hsu : upper.Searched σ buf metric target tooDeep itemAt point levels (depth + 1) :=
      ihu ho.2.2.2 (by omega)
    have hroot : Sound (Selection.offer s ⟨metric.distance (point item) target, itemAt item⟩) := by
      refine sound_offer s _ hs ?_
      exact hm.not_nan _ _ (hbox item (by simp [Tree.items])).1 ht
    cases hst with
    | node hread hlower hupper =>
      have hbelow : Half.Has ⟨_, box.below _ _⟩ buf itemAt point lower :=
        ⟨hlower, ho.inBox_below hbox⟩
      have habove : Half.Has ⟨_, box.above _ _⟩ buf itemAt point upper :=
        ⟨hupper, ho.inBox_above hbox⟩
      rw [Tree.offers, Tree.nearFirst]
      by_cases hside : target.coord (Axis.ofDepth depth) < (point item).coord (Axis.ofDepth depth)
      · rw [if_pos hside, List.map_cons, List.map_append, offerAll_cons, offerAll_append]
        have hnear := searchNear_eq hsl hbelow hroot
        rw [searchFrom_of_halves hread (if_pos hside) hnear]
        exact searchFar_eq hm ht hsu habove (sound_offers hm ht hbelow.inBox hroot)
      · rw [if_neg hside, List.map_cons, List.map_append, offerAll_cons, offerAll_append]
        have hnear := searchNear_eq hsu habove hroot
        rw [searchFrom_of_halves hread (if_neg hside) hnear]
        exact searchFar_eq hm ht hsl hbelow (sound_offers hm ht habove.inBox hroot)

end
end Gazetteer
