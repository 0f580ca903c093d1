import Gazetteer.Proofs.Boxes
import Gazetteer.Proofs.Quotients

/-!
# The straight line to a box

No point of a box is nearer to a target, along the straight line, than the point that the target is
moved to. Every operation on the way from the coordinates to the chord is rounded, and rounding keeps
the order, so this holds of the computed chords as it does of the exact ones.
-/

namespace Gazetteer
namespace Binary64

variable {x y z w : Binary64}

/-! ## The numeric order in units -/

theorem signedUnits_eq (x : Binary64) :
    x.signedUnits = if x.negative then -(units x.magnitude : ℝ) else units x.magnitude := by
  rw [signedUnits, signFactor, isMinus_sign]
  split <;> simp

theorem cast_units_le {m n : ℕ} : (units m : ℝ) ≤ units n ↔ m ≤ n := by
  rw [Nat.cast_le, units_le_units]

theorem cast_units_eq_zero {n : ℕ} : (units n : ℝ) = 0 ↔ n = 0 := by
  rw [Nat.cast_eq_zero]
  exact strictMono_units.injective.eq_iff' units_zero

theorem rank_le_rank_iff : x.rank ≤ y.rank ↔ x.signedUnits ≤ y.signedUnits := by
  have hx := Nat.cast_nonneg (α := ℝ) (units x.magnitude)
  have hy := Nat.cast_nonneg (α := ℝ) (units y.magnitude)
  rw [signedUnits_eq, signedUnits_eq, rank, rank]
  cases x.negative <;> cases y.negative <;> simp only [if_true, Bool.false_eq_true, if_false]
  · rw [Int.ofNat_le, cast_units_le]
  · constructor
    · intro h
      rw [cast_units_eq_zero.2 (by omega : x.magnitude = 0),
        cast_units_eq_zero.2 (by omega : y.magnitude = 0), neg_zero]
    · intro h
      have hx0 := cast_units_eq_zero.1 (by linarith : (units x.magnitude : ℝ) = 0)
      have hy0 := cast_units_eq_zero.1 (by linarith : (units y.magnitude : ℝ) = 0)
      omega
  · exact iff_of_true (by omega) (by linarith)
  · rw [neg_le_neg_iff, neg_le_neg_iff, Int.ofNat_le, cast_units_le]

/-- The numeric order is that of the numbers of units. -/
theorem le_iff_signedUnits : x ≤ y ↔
    x.isNaN = false ∧ y.isNaN = false ∧ x.signedUnits ≤ y.signedUnits := by
  rw [le_iff, rank_le_rank_iff]

theorem IsNonneg.signedUnits (h : x.IsNonneg) : x.signedUnits = units x.magnitude := by
  rw [signedUnits_eq, h.negative]
  rfl

/-- Numbers without a minus are ordered by their magnitudes. -/
theorem IsNonneg.le_iff (hx : x.IsNonneg) (hy : y.IsNonneg) : x ≤ y ↔ x.magnitude ≤ y.magnitude := by
  rw [le_iff_signedUnits, hx.signedUnits, hy.signedUnits, Nat.cast_le, units_le_units]
  simp [hx.not_nan, hy.not_nan]

theorem isFinite_iff_abs : x.isFinite = true ↔ |x.signedUnits| < units infiniteMagnitude := by
  rw [abs_signedUnits, Nat.cast_lt, strictMono_units.lt_iff_lt, isFinite, decide_eq_true_iff]

/-! ## Operations keep the order -/

/-- The nearer of two points to a third has the smaller difference. -/
theorem magnitude_sub_le (hx : x.isFinite = true) (hy : y.isFinite = true) (hz : z.isFinite = true)
    (h : |x.signedUnits - z.signedUnits| ≤ |y.signedUnits - z.signedUnits|) :
    (x - z).magnitude ≤ (y - z).magnitude := by
  rw [magnitude_sub hx hz, magnitude_sub hy hz]
  exact min_le_min_left _ (roundUnits_mono (abs_nonneg _) h)

theorem not_nan_sub (hx : x.isFinite = true) (hy : y.isFinite = true) :
    (x - y).isNaN = false := by
  refine decide_eq_false ?_
  rw [magnitude_sub hx hy]
  omega

theorem isNonneg_mul_self (hx : x.isNaN = false) : (x * x).IsNonneg :=
  ⟨(mul_self hx).2, (mul_self hx).1 ▸ min_le_left _ _⟩

theorem magnitude_mul_self_le (hx : x.isNaN = false) (hy : y.isNaN = false)
    (h : x.magnitude ≤ y.magnitude) : (x * x).magnitude ≤ (y * y).magnitude := by
  rw [(mul_self hx).1, (mul_self hy).1]
  have hle : (units x.magnitude : ℝ) ≤ units y.magnitude := cast_units_le.2 h
  refine min_le_min_left _ (roundUnits_mono (by positivity) ?_)
  gcongr

namespace IsNonneg

theorem add (hx : x.IsNonneg) (hy : y.IsNonneg) : (x + y).IsNonneg :=
  ⟨(add_of_isNonneg hx hy).2, (add_of_isNonneg hx hy).1 ▸ min_le_left _ _⟩

theorem magnitude_add_le (hx : x.IsNonneg) (hy : y.IsNonneg) (hz : z.IsNonneg) (hw : w.IsNonneg)
    (h : x.magnitude ≤ z.magnitude) (h' : y.magnitude ≤ w.magnitude) :
    (x + y).magnitude ≤ (z + w).magnitude := by
  rw [(add_of_isNonneg hx hy).1, (add_of_isNonneg hz hw).1]
  refine min_le_min_left _ (roundUnits_mono (by positivity) ?_)
  exact add_le_add (cast_units_le.2 h) (cast_units_le.2 h')

theorem sqrt (hx : x.IsNonneg) : x.sqrt.IsNonneg := by
  rcases hx.isFinite_or with h | h
  · exact ⟨(sqrt_of_isFinite hx h).2, (sqrt_of_isFinite hx h).1 ▸ min_le_left _ _⟩
  · exact ⟨(sqrt_infinity hx h).2, (sqrt_infinity hx h).1.le⟩

theorem magnitude_sqrt_le (hx : x.IsNonneg) (hy : y.IsNonneg) (h : x.magnitude ≤ y.magnitude) :
    x.sqrt.magnitude ≤ y.sqrt.magnitude := by
  rcases hy.isFinite_or with hyf | hyi
  · have hxf : x.isFinite = true := decide_eq_true (h.trans_lt (of_decide_eq_true hyf))
    rw [(sqrt_of_isFinite hx hxf).1, (sqrt_of_isFinite hy hyf).1]
    refine min_le_min_left _ (roundUnits_mono (Real.sqrt_nonneg _) ?_)
    exact Real.sqrt_le_sqrt (mul_le_mul_of_nonneg_right (cast_units_le.2 h) (by positivity))
  · rw [(sqrt_infinity hy hyi).1]
    exact hx.sqrt.le

/-- A root that is not zero is no less than the root of the unit. -/
theorem two_pow_le_units_sqrt (hx : x.IsNonneg) (h : x.sqrt.magnitude ≠ 0) :
    2 ^ 537 ≤ units x.sqrt.magnitude := by
  have hn : units (2 ^ 52 + 485 * 2 ^ 52) = 2 ^ 537 := by
    rw [units_add_mul (by norm_num) (Or.inr le_rfl), ← pow_add]
  rw [← hn, units_le_units]
  rcases hx.isFinite_or with hf | hi
  · have hsqrt := (sqrt_of_isFinite hx hf).1
    rw [hsqrt]
    refine le_min (by decide) (le_roundUnits ?_)
    have hpos : 0 < x.magnitude := by
      refine Nat.pos_of_ne_zero fun h0 => h ?_
      rw [hsqrt, h0]
      simp
    have hone : (1 : ℝ) ≤ units x.magnitude := by
      exact_mod_cast units_pos.2 hpos
    rw [hn, Nat.cast_pow, Nat.cast_ofNat, Real.le_sqrt' (pow_pos two_pos _), ← pow_mul, zpow_ofNat]
    exact le_mul_of_one_le_left (pow_pos two_pos _).le hone
  · rw [(sqrt_infinity hx hi).1]
    decide

end IsNonneg
end Binary64

/-! ## Chords -/

namespace Ecef

variable {a b t : Ecef}

/-- The squares of the coordinates of a difference, summed in the order of the axes. -/
theorem distance_eq (a b : Ecef) : a.distance b = ((a.x - b.x) * (a.x - b.x) +
    (a.y - b.y) * (a.y - b.y) + (a.z - b.z) * (a.z - b.z)).sqrt := rfl

theorem isNonneg_distanceSquared (ha : a.isFinite = true) (hb : b.isFinite = true) :
    (a.distanceSquared b).IsNonneg := by
  have hsquare (axis : Axis) :
      ((a.coord axis - b.coord axis) * (a.coord axis - b.coord axis)).IsNonneg :=
    Binary64.isNonneg_mul_self
      (Binary64.not_nan_sub (isFinite_coord ha axis) (isFinite_coord hb axis))
  exact ((hsquare .x).add (hsquare .y)).add (hsquare .z)

theorem isNonneg_distance (ha : a.isFinite = true) (hb : b.isFinite = true) :
    (a.distance b).IsNonneg := (isNonneg_distanceSquared ha hb).sqrt

/-- Chords of different points, as computed, are not arbitrarily short. -/
theorem two_pow_le_units_distance (ha : a.isFinite = true) (hb : b.isFinite = true)
    (h : (a.distance b).magnitude ≠ 0) : 2 ^ 537 ≤ units (a.distance b).magnitude :=
  (isNonneg_distanceSquared ha hb).two_pow_le_units_sqrt h

/-- A point that is nearer along each axis has the shorter chord. -/
theorem magnitude_distance_le (ha : a.isFinite = true) (hb : b.isFinite = true)
    (ht : t.isFinite = true) (h : ∀ axis, |(a.coord axis).signedUnits - (t.coord axis).signedUnits| ≤
      |(b.coord axis).signedUnits - (t.coord axis).signedUnits|) :
    (a.distance t).magnitude ≤ (b.distance t).magnitude := by
  have hsquare (p : Ecef) (hp : p.isFinite = true) (axis : Axis) :
      ((p.coord axis - t.coord axis) * (p.coord axis - t.coord axis)).IsNonneg :=
    Binary64.isNonneg_mul_self
      (Binary64.not_nan_sub (isFinite_coord hp axis) (isFinite_coord ht axis))
  have hle (axis : Axis) :
      ((a.coord axis - t.coord axis) * (a.coord axis - t.coord axis)).magnitude ≤
        ((b.coord axis - t.coord axis) * (b.coord axis - t.coord axis)).magnitude :=
    Binary64.magnitude_mul_self_le
      (Binary64.not_nan_sub (isFinite_coord ha axis) (isFinite_coord ht axis))
      (Binary64.not_nan_sub (isFinite_coord hb axis) (isFinite_coord ht axis))
      (Binary64.magnitude_sub_le (isFinite_coord ha axis) (isFinite_coord hb axis)
        (isFinite_coord ht axis) (h axis))
  have hxy := (hsquare a ha .x).magnitude_add_le (hsquare a ha .y) (hsquare b hb .x)
    (hsquare b hb .y) (hle .x) (hle .y)
  have hxyz := ((hsquare a ha .x).add (hsquare a ha .y)).magnitude_add_le (hsquare a ha .z)
    ((hsquare b hb .x).add (hsquare b hb .y)) (hsquare b hb .z) hxy (hle .z)
  rw [distance_eq, distance_eq]
  exact (((hsquare a ha .x).add (hsquare a ha .y)).add (hsquare a ha .z)).magnitude_sqrt_le
    (((hsquare b hb .x).add (hsquare b hb .y)).add (hsquare b hb .z)) hxyz

end Ecef

/-! ## The point of a box nearest to a target -/

namespace Binary64

variable {lo hi t p : Binary64}

/-- A coordinate moved between two ends is finite, and no farther from where it was than any finite
coordinate between them. -/
theorem clamp_nearest (ht : t.isFinite = true) (hp : p.isFinite = true) (hlo : lo ≤ p)
    (hhi : p ≤ hi) : (t.clamp lo hi).isFinite = true ∧
      |(t.clamp lo hi).signedUnits - t.signedUnits| ≤ |p.signedUnits - t.signedUnits| := by
  have hlo' := (le_iff_signedUnits.1 hlo).2.2
  have hhi' := (le_iff_signedUnits.1 hhi).2.2
  rw [isFinite_iff_abs, abs_lt] at ht hp
  unfold clamp
  split
  · rename_i h
    have hlt := (le_iff_signedUnits.1 (le_of_lt h)).2.2
    rw [isFinite_iff_abs, abs_lt, abs_of_nonneg (by linarith), abs_of_nonneg (by linarith)]
    exact ⟨⟨by linarith, by linarith⟩, by linarith⟩
  · split
    · rename_i h
      have hlt := (le_iff_signedUnits.1 (le_of_lt h)).2.2
      rw [isFinite_iff_abs, abs_lt, abs_of_nonpos (by linarith), abs_of_nonpos (by linarith)]
      exact ⟨⟨by linarith, by linarith⟩, by linarith⟩
    · rw [isFinite_iff_abs, abs_lt, sub_self, abs_zero]
      exact ⟨ht, abs_nonneg _⟩

end Binary64

namespace Box

variable {b : Box} {target p q : Ecef}

/-- **No point of a box has a shorter chord** to a target than the point that the target is moved
to. -/
theorem magnitude_distance_closest_le (ht : target.isFinite = true) (hp : p.isFinite = true)
    (h : b.Contains p) (hq : b.closest target = .ok q) : q.isFinite = true ∧
      (q.distance target).magnitude ≤ (p.distance target).magnitude := by
  rw [closest_eq_ok fun axis => Binary64.le_trans (h axis).1 (h axis).2] at hq
  obtain rfl := Except.ok.inj hq
  have hclamp (axis : Axis) := Binary64.clamp_nearest (Ecef.isFinite_coord ht axis)
    (Ecef.isFinite_coord hp axis) (h axis).1 (h axis).2
  have hfin : (⟨target.x.clamp b.low.x b.high.x, target.y.clamp b.low.y b.high.y,
      target.z.clamp b.low.z b.high.z⟩ : Ecef).isFinite = true := by
    simp only [Ecef.isFinite, Bool.and_eq_true]
    exact ⟨⟨(hclamp .x).1, (hclamp .y).1⟩, (hclamp .z).1⟩
  refine ⟨hfin, Ecef.magnitude_distance_le hfin hp ht fun axis => ?_⟩
  cases axis
  · exact (hclamp .x).2
  · exact (hclamp .y).2
  · exact (hclamp .z).2

end Box
end Gazetteer
