import Gazetteer.Proofs.Steps
import Gazetteer.Proofs.WordOrder
import Gazetteer.SpatialTree.Search

/-!
# Points in boxes

The box of a search has room on every axis as long as there is a point in it, and then the target
can be moved into it. `Metric.Sound` is what a search relies on when it measures from there.
-/

namespace Gazetteer

theorem Ecef.isFinite_coord {p : Ecef} (h : p.isFinite = true) (axis : Axis) :
    (p.coord axis).isFinite = true := by
  simp only [Ecef.isFinite, Bool.and_eq_true] at h
  cases axis
  · exact h.1.1
  · exact h.1.2
  · exact h.2

namespace Box

variable {b : Box} {p : Ecef}

/-- A point lies in a box if each coordinate lies between the ends of the box. -/
def Contains (b : Box) (p : Ecef) : Prop :=
  ∀ axis, b.low.coord axis ≤ p.coord axis ∧ p.coord axis ≤ b.high.coord axis

theorem contains_unbounded (h : p.isFinite = true) : unbounded.Contains p := by
  intro axis
  have hnan := Binary64.not_nan_of_isFinite (Ecef.isFinite_coord h axis)
  cases axis
  · exact ⟨Binary64.negInfinity_le hnan, Binary64.le_infinity hnan⟩
  · exact ⟨Binary64.negInfinity_le hnan, Binary64.le_infinity hnan⟩
  · exact ⟨Binary64.negInfinity_le hnan, Binary64.le_infinity hnan⟩

/-- A point below a plane stays in the box that the plane cuts off. -/
theorem contains_below {axis : Axis} {v : Binary64} (h : b.Contains p) (hv : p.coord axis ≤ v) :
    (b.below axis v).Contains p := by
  intro a
  refine ⟨(h a).1, ?_⟩
  by_cases ha : a = axis
  · subst ha
    rw [below, Ecef.coord_setCoord_self]
    exact hv
  · rw [below, Ecef.coord_setCoord_ne _ _ ha]
    exact (h a).2

/-- A point above a plane stays in the box that the plane cuts off. -/
theorem contains_above {axis : Axis} {v : Binary64} (h : b.Contains p) (hv : v ≤ p.coord axis) :
    (b.above axis v).Contains p := by
  intro a
  refine ⟨?_, (h a).2⟩
  by_cases ha : a = axis
  · subst ha
    rw [above, Ecef.coord_setCoord_self]
    exact hv
  · rw [above, Ecef.coord_setCoord_ne _ _ ha]
    exact (h a).1

/-- The point of a box nearest to a target moves every coordinate into the box. -/
theorem closest_eq_ok {target : Ecef} (h : ∀ axis, b.low.coord axis ≤ b.high.coord axis) :
    b.closest target = .ok ⟨target.x.clamp b.low.x b.high.x, target.y.clamp b.low.y b.high.y,
      target.z.clamp b.low.z b.high.z⟩ := by
  have hx := h .x
  have hy := h .y
  have hz := h .z
  simp only [closest, clampCoord, hx, hy, hz, if_true, ok_bind]
  rfl

/-- A box with a point in it has a point nearest to a target: there is room on each axis. -/
theorem exists_closest (h : b.Contains p) (target : Ecef) : ∃ q, b.closest target = .ok q :=
  ⟨_, closest_eq_ok fun axis => Binary64.le_trans (h axis).1 (h axis).2⟩

end Box

/-- What a search needs of a metric: distances are numbers, and no point of a box is nearer to a
target than the point of the box that the target is moved to. -/
structure Metric.Sound [Trig] (m : Metric) : Prop where
  not_nan : ∀ a b : Ecef, a.isFinite = true → b.isFinite = true → (m.distance a b).isNaN = false
  closest_le : ∀ (box : Box) (target p q : Ecef), target.isFinite = true → p.isFinite = true →
    box.Contains p → box.closest target = .ok q → m.distance q target ≤ m.distance p target

end Gazetteer
