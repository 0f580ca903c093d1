import Mathlib.Analysis.Real.Pi.Bounds
import Mathlib.Analysis.SpecialFunctions.Complex.Arg
import Mathlib.Analysis.SpecialFunctions.Trigonometric.Inverse
import Gazetteer.Proofs.Arcs

/-!
# Elementary functions without error

A library gives approximations of the elementary functions; the best one gives the number nearest to
the exact value. Its arcsine is lawful.
-/

namespace Gazetteer

namespace Binary64

variable {x y : Binary64} {r s : ℝ}

/-- The real number that a finite word stands for. -/
noncomputable def toReal (x : Binary64) : ℝ := x.signedUnits / 2 ^ 1074

/-- The number nearest to a real number. -/
noncomputable def nearest (r : ℝ) : Binary64 :=
  .ofMagnitude (decide (r < 0)) (min infiniteMagnitude (roundUnits (|r| * 2 ^ 1074)))

theorem nearest_fields (h : 0 ≤ r) :
    (nearest r).magnitude = min infiniteMagnitude (roundUnits (r * 2 ^ 1074)) ∧
      (nearest r).IsNonneg := by
  have hbound : infiniteMagnitude < 0x8000000000000000 := by decide
  have hlt : min infiniteMagnitude (roundUnits (|r| * 2 ^ 1074)) < 0x8000000000000000 := by omega
  obtain ⟨hm, hn⟩ := ofMagnitude_fields (n := decide (r < 0)) hlt
  rw [abs_of_nonneg h] at hm hn
  have hmag : (nearest r).magnitude = min infiniteMagnitude (roundUnits (r * 2 ^ 1074)) := by
    rw [nearest, abs_of_nonneg h]
    exact hm
  have hneg : (nearest r).negative = false := by
    rw [nearest, abs_of_nonneg h, hn]
    exact decide_eq_false h.not_gt
  exact ⟨hmag, hneg, hmag ▸ min_le_left _ _⟩

/-- The nearest numbers are in the order of what they are near to. -/
theorem nearest_le_nearest (h : 0 ≤ r) (hrs : r ≤ s) : nearest r ≤ nearest s := by
  obtain ⟨hr, hrn⟩ := nearest_fields h
  obtain ⟨hs, hsn⟩ := nearest_fields (h.trans hrs)
  rw [hrn.le_iff hsn, hr, hs]
  have hP : (0 : ℝ) ≤ 2 ^ 1074 := (pow_pos two_pos _).le
  exact min_le_min_left _
    (roundUnits_mono (mul_nonneg h hP) (mul_le_mul_of_nonneg_right hrs hP))

/-- A number is no greater than the number nearest to something greater. -/
theorem le_nearest (hx : x.isNaN = false) (h : 0 ≤ r) (hxr : x.toReal ≤ r) : x ≤ nearest r := by
  obtain ⟨hm, hn⟩ := nearest_fields h
  rw [le_iff_signedUnits, hn.signedUnits]
  refine ⟨hx, hn.not_nan, ?_⟩
  rw [toReal, div_le_iff₀ (pow_pos two_pos _)] at hxr
  rw [signedUnits_eq] at hxr ⊢
  split
  · exact (neg_nonpos.2 (Nat.cast_nonneg _)).trans (Nat.cast_nonneg _)
  · rename_i hneg
    rw [if_neg hneg] at hxr
    rw [cast_units_le, hm]
    exact le_min (Nat.not_lt.1 (of_decide_eq_false hx)) (le_roundUnits hxr)

theorem toReal_le_toReal (h : x ≤ y) : x.toReal ≤ y.toReal :=
  div_le_div_of_nonneg_right (le_iff_signedUnits.1 h).2.2 (pow_pos two_pos _).le

theorem toReal_zero : Binary64.zero.toReal = 0 := by
  rw [toReal, signedUnits_of_magnitude_eq_zero (by decide), zero_div]

theorem units_one : units (1 : Binary64).magnitude = 2 ^ 1074 := by
  have hm : (1 : Binary64).magnitude = 2 ^ 52 + 1022 * 2 ^ 52 := by
    rw [one_eq]
    decide
  rw [hm, units_add_mul (by norm_num) (Or.inr le_rfl), ← pow_add]

theorem toReal_one : (1 : Binary64).toReal = 1 := by
  rw [toReal, isNonneg_one.signedUnits, units_one, Nat.cast_pow, Nat.cast_ofNat,
    div_self (pow_pos two_pos _).ne']

/-- A quarter of a turn, as precise as a word can hold it. -/
theorem nearest_half_pi : nearest (Real.pi / 2) = 1.5707963267948966 := by
  have hword : (1.5707963267948966 : Binary64) = ⟨0x3ff921fb54442d18⟩ := by decide +kernel
  have hlo := Real.pi_gt_d20
  have hhi := Real.pi_lt_d20
  have hpos : 0 ≤ Real.pi / 2 := by linarith
  have hP : (2 : ℝ) ^ 1074 = 2 ^ 52 * 2 ^ 1022 := by rw [← pow_add]
  have hQ : (0 : ℝ) < 2 ^ 1022 := pow_pos two_pos _
  have hshift : ShiftOf 1022 (Real.pi / 2 * 2 ^ 1074) := by
    refine ⟨mul_nonneg hpos (pow_pos two_pos _).le, Or.inr ?_, ?_⟩
    · rw [hP, ← mul_assoc]
      exact mul_le_mul_of_nonneg_right (by linarith) hQ.le
    · rw [hP, ← mul_assoc]
      exact mul_lt_mul_of_pos_right (by linarith) hQ
  have hquot : Real.pi / 2 * 2 ^ 1074 / 2 ^ 1022 = Real.pi / 2 * 2 ^ 52 := by
    rw [hP, ← mul_assoc, mul_div_cancel_right₀ _ hQ.ne']
  have heven : nearestEven (Real.pi / 2 * 2 ^ 52) = 0x1921fb54442d18 := by
    refine nearestEven_eq ?_ ?_
    · norm_num
      linarith
    · norm_num
      linarith
  obtain ⟨hm, hn⟩ := nearest_fields hpos
  rw [hshift.roundUnits_eq, hquot, heven] at hm
  rw [hword]
  exact ext_magnitude (hn.negative.trans (by decide)) (hm.trans (by decide))

end Binary64

open Binary64 Classical

/-- A function on real numbers as a function on words: what is not finite, or not in the domain,
gives no number. -/
noncomputable def onReal (domain : Set ℝ) (f : ℝ → ℝ) (x : Binary64) : Binary64 :=
  if x.isFinite = true ∧ x.toReal ∈ domain then nearest (f x.toReal) else .nan

/-- The elementary functions without error. -/
@[reducible] noncomputable def nearestTrig : Trig where
  sin := onReal Set.univ Real.sin
  cos := onReal Set.univ Real.cos
  asin := onReal (Set.Icc (-1) 1) Real.arcsin
  acos := onReal (Set.Icc (-1) 1) Real.arccos
  atan2 y x :=
    if y.isFinite ∧ x.isFinite then nearest (Complex.arg ⟨x.toReal, y.toReal⟩) else .nan

/-- Numbers from 0 to 1 are finite, and so are the real numbers that they stand for. -/
theorem toReal_mem {x : Binary64} (h0 : .zero ≤ x) (h1 : x ≤ 1) :
    x.isFinite = true ∧ 0 ≤ x.toReal ∧ x.toReal ≤ 1 := by
  have hlo := toReal_le_toReal h0
  have hhi := toReal_le_toReal h1
  rw [toReal_zero] at hlo
  rw [toReal_one] at hhi
  refine ⟨?_, hlo, hhi⟩
  have hu0 := (le_iff_signedUnits.1 h0).2.2
  have hu1 := (le_iff_signedUnits.1 h1).2.2
  rw [signedUnits_of_magnitude_eq_zero (x := .zero) (by decide)] at hu0
  rw [isNonneg_one.signedUnits] at hu1
  have hone : (1 : Binary64).magnitude < infiniteMagnitude := by
    rw [one_eq]
    decide
  rw [isFinite_iff_abs, abs_of_nonneg hu0]
  exact hu1.trans_lt (Nat.cast_lt.2 (strictMono_units hone))

theorem asin_nearestTrig {x : Binary64} (h0 : .zero ≤ x) (h1 : x ≤ 1) :
    nearestTrig.asin x = nearest (Real.arcsin x.toReal) := by
  obtain ⟨hfin, hlo, hhi⟩ := toReal_mem h0 h1
  exact if_pos ⟨hfin, by linarith, hhi⟩

/-- **The arcsine without error is lawful.** -/
theorem lawfulArcsine_nearestTrig : @LawfulArcsine nearestTrig := by
  refine @LawfulArcsine.mk nearestTrig (fun x y h0 hxy h1 => ?_) (fun x h0 h1 => ?_) ?_
  · have hx1 := le_trans hxy h1
    have hy0 := le_trans h0 hxy
    rw [asin_nearestTrig h0 hx1, asin_nearestTrig hy0 h1]
    exact nearest_le_nearest (Real.arcsin_nonneg.2 (toReal_mem h0 hx1).2.1)
      (Real.monotone_arcsin (toReal_le_toReal hxy))
  · obtain ⟨hfin, hlo, hhi⟩ := toReal_mem h0 h1
    rw [asin_nearestTrig h0 h1]
    have hpi := Real.pi_gt_three
    exact le_nearest (not_nan_of_isFinite hfin) (Real.arcsin_nonneg.2 hlo)
      ((Real.le_arcsin_iff_sin_le ⟨by linarith, by linarith⟩ ⟨by linarith, hhi⟩).2
        (Real.sin_le hlo))
  · have hself : (1 : Binary64) ≤ 1 := le_refl_of_not_nan isNonneg_one.not_nan
    rw [asin_nearestTrig ((isNonneg_zero.le_iff isNonneg_one).2 (Nat.zero_le _)) hself, toReal_one,
      Real.arcsin_one, nearest_half_pi]

/-! ## The middle of the map -/

theorem nearest_zero : nearest 0 = .zero := by
  obtain ⟨hm, hn⟩ := nearest_fields le_rfl
  rw [zero_mul, roundUnits_zero] at hm
  exact ext_magnitude hn.negative hm

theorem nearest_one : nearest 1 = 1 := by
  obtain ⟨hm, hn⟩ := nearest_fields zero_le_one
  have hunits : (1 : ℝ) * 2 ^ 1074 = units (1 : Binary64).magnitude := by
    rw [units_one, one_mul, Nat.cast_pow, Nat.cast_ofNat]
  rw [hunits, roundUnits_units, min_eq_right isNonneg_one.le] at hm
  exact ext_magnitude (hn.negative.trans isNonneg_one.negative.symm) hm

theorem sin_nearestTrig_zero : nearestTrig.sin .zero = .zero := by
  have happly : nearestTrig.sin .zero = nearest (Real.sin Binary64.zero.toReal) :=
    if_pos ⟨by decide, trivial⟩
  rw [happly, toReal_zero, Real.sin_zero, nearest_zero]

theorem cos_nearestTrig_zero : nearestTrig.cos .zero = 1 := by
  have happly : nearestTrig.cos .zero = nearest (Real.cos Binary64.zero.toReal) :=
    if_pos ⟨by decide, trivial⟩
  rw [happly, toReal_zero, Real.cos_zero, nearest_one]

theorem semiMajorAxis_eq : Ellipsoid.semiMajorAxis = ⟨0x415854a640000000⟩ := by
  decide +kernel

/-- The middle of the map lies on the first axis, a semi-major axis from the middle of the earth. -/
theorem toEcef_nearestTrig_zero : @Position.toEcef nearestTrig ⟨.zero, .zero, .zero⟩ =
    ⟨Ellipsoid.semiMajorAxis, .zero, .zero⟩ := by
  have hradians : toRadians .zero = .zero := by
    have hpi : (3.141592653589793 : Binary64) = ⟨0x400921fb54442d18⟩ := by decide +kernel
    have hturn : (180 : Binary64) = ⟨0x4066800000000000⟩ := by decide +kernel
    rw [toRadians, pi, hpi, hturn]
    decide +kernel
  have hecc : Ellipsoid.eccentricitySquared = ⟨0x3f7b6b90f1fe94f1⟩ := by decide +kernel
  unfold Position.toEcef
  dsimp only
  rw [hradians, sin_nearestTrig_zero, cos_nearestTrig_zero, semiMajorAxis_eq, hecc, one_eq]
  decide +kernel

end Gazetteer
