import Gazetteer.Proofs.Chord

/-!
# Chords and arcs

A chord above the threshold of a metric is replaced by an arc, and no arc is longer than half a great
circle. Arcs keep the order of chords, and a chord is no longer than the arc of any longer chord, as
long as it is no longer than the longest arc. So up to there distances keep the order of chords.
-/

namespace Gazetteer

open Binary64

/-! ## The constants -/

theorem one_eq : (1 : Binary64) = ⟨0x3ff0000000000000⟩ := by
  decide +kernel

theorem earthDiameter_eq : earthDiameter = ⟨0x41684dae00000000⟩ := by
  have htwo : (2 : Binary64) = ⟨0x4000000000000000⟩ := by decide +kernel
  have hradius : (6371000 : Binary64) = ⟨0x41584dae00000000⟩ := by decide +kernel
  rw [earthDiameter, htwo, hradius]
  decide +kernel

/-- Half a great circle: the arc of a chord as long as the diameter. -/
def longestArc : Binary64 := earthDiameter * 1.5707963267948966

theorem longestArc_eq : longestArc = ⟨0x4173167eecbc8011⟩ := by
  have hquarter : (1.5707963267948966 : Binary64) = ⟨0x3ff921fb54442d18⟩ := by decide +kernel
  rw [longestArc, earthDiameter_eq, hquarter]
  decide +kernel

theorem isNonneg_one : (1 : Binary64).IsNonneg := by
  rw [one_eq]
  exact ⟨by decide, by decide⟩

theorem isFinite_earthDiameter : earthDiameter.isFinite = true := by
  rw [earthDiameter_eq]
  decide

theorem isNonneg_earthDiameter : earthDiameter.IsNonneg := by
  rw [earthDiameter_eq]
  exact ⟨by decide, by decide⟩

/-- What is relied on of the arcsine: from 0 to 1 it keeps the order and is nowhere below its
argument, and at 1 it is the number nearest to a quarter of a turn. -/
structure LawfulArcsine [Trig] : Prop where
  asin_le_asin : ∀ x y : Binary64, .zero ≤ x → x ≤ y → y ≤ 1 → Trig.asin x ≤ Trig.asin y
  le_asin : ∀ x : Binary64, .zero ≤ x → x ≤ 1 → x ≤ Trig.asin x
  asin_one : Trig.asin 1 = 1.5707963267948966

/-! ## The ratio of a chord to the diameter -/

variable {c d : Binary64}

theorem magnitude_earthDiameter_ne_zero : earthDiameter.magnitude ≠ 0 := by
  rw [earthDiameter_eq]
  decide

theorem units_earthDiameter_le : units earthDiameter.magnitude ≤ 2 ^ 1098 := by
  have hbinade : units (2 ^ 52 + 1046 * 2 ^ 52) = 2 ^ 1098 := by
    rw [units_add_mul (by norm_num) (Or.inr le_rfl), ← pow_add]
  rw [← hbinade, units_le_units, earthDiameter_eq]
  decide

theorem isNonneg_ratio (hc : c.IsNonneg) : (c / earthDiameter).IsNonneg := by
  rcases hc.isFinite_or with h | h
  · have hdiv := div_of_isFinite h isFinite_earthDiameter magnitude_earthDiameter_ne_zero
    rw [hc.negative, isNonneg_earthDiameter.negative] at hdiv
    exact ⟨hdiv.2, hdiv.1 ▸ min_le_left _ _⟩
  · have hdiv := infinity_div hc h isFinite_earthDiameter
    exact ⟨hdiv.2.trans isNonneg_earthDiameter.negative, hdiv.1.le⟩

theorem magnitude_ratio_le (hc : c.IsNonneg) (hd : d.IsNonneg) (h : c.magnitude ≤ d.magnitude) :
    (c / earthDiameter).magnitude ≤ (d / earthDiameter).magnitude := by
  rcases hd.isFinite_or with hdf | hdi
  · have hcf : c.isFinite = true := decide_eq_true (h.trans_lt (of_decide_eq_true hdf))
    rw [(div_of_isFinite hcf isFinite_earthDiameter magnitude_earthDiameter_ne_zero).1,
      (div_of_isFinite hdf isFinite_earthDiameter magnitude_earthDiameter_ne_zero).1]
    refine min_le_min_left _ (roundUnits_mono (by positivity) ?_)
    have hle : (units c.magnitude : ℝ) ≤ units d.magnitude := cast_units_le.2 h
    gcongr
  · rw [(infinity_div hd hdi isFinite_earthDiameter).1]
    exact (isNonneg_ratio hc).le

/-- The lesser of a number without a minus and one. -/
theorem least_one (hc : c.IsNonneg) : (c.least 1).IsNonneg ∧
    (c.least 1).magnitude = min c.magnitude (1 : Binary64).magnitude := by
  rw [least, hc.not_nan, isNonneg_one.not_nan, if_neg (by decide), if_neg (by decide)]
  split
  · rename_i h
    have hle := (isNonneg_one.le_iff hc).1 (le_of_lt h)
    exact ⟨isNonneg_one, (min_eq_right hle).symm⟩
  · rename_i h
    have hle := (hc.le_iff isNonneg_one).1
      ((lt_or_le_of_not_nan isNonneg_one.not_nan hc.not_nan).resolve_left h)
    exact ⟨hc, (min_eq_left hle).symm⟩

/-! ## Arcs -/

/-- A multiple of the diameter is rounded to the nearest magnitude. -/
theorem signedUnits_mul (hd : d.isFinite = true) (h0 : 0 ≤ d.signedUnits) :
    (earthDiameter * d).isNaN = false ∧ (earthDiameter * d).signedUnits =
      units (min infiniteMagnitude
        (roundUnits (units earthDiameter.magnitude * d.signedUnits * 2 ^ (-1074 : ℤ)))) := by
  obtain ⟨hm, hn⟩ := mul_of_isFinite isFinite_earthDiameter hd
  rw [← abs_signedUnits d, abs_of_nonneg h0] at hm
  refine ⟨decide_eq_false ?_, ?_⟩
  · rw [hm]
    omega
  · rw [signedUnits_eq, hn, isNonneg_earthDiameter.negative, hm]
    cases hneg : d.negative with
    | false => rfl
    | true =>
      have hzero : d.signedUnits = 0 := by
        refine le_antisymm ?_ h0
        rw [signedUnits_eq, hneg, if_pos rfl]
        exact neg_nonpos.2 (Nat.cast_nonneg _)
      simp [hzero]

/-- Multiples of the diameter are ordered as their factors. -/
theorem earthDiameter_mul_le (hc : c.isFinite = true) (hd : d.isFinite = true)
    (h0 : 0 ≤ c.signedUnits) (h : c.signedUnits ≤ d.signedUnits) :
    earthDiameter * c ≤ earthDiameter * d := by
  obtain ⟨hcn, hcv⟩ := signedUnits_mul hc h0
  obtain ⟨hdn, hdv⟩ := signedUnits_mul hd (h0.trans h)
  rw [le_iff_signedUnits, hcv, hdv, cast_units_le]
  refine ⟨hcn, hdn, min_le_min_left _ (roundUnits_mono (by positivity) ?_)⟩
  gcongr

/-- The ratio of a chord to the diameter, multiplied by the diameter, gives at least the number below
the chord: the two roundings lose less than a step. -/
theorem pred_le_roundUnits_mul {k : ℕ} (hpos : 0 < k) (hfar : 2 ^ 537 ≤ units k) :
    k - 1 ≤ roundUnits (units earthDiameter.magnitude *
      units (roundUnits (units k / units earthDiameter.magnitude * 2 ^ (1074 : ℤ))) *
      2 ^ (-1074 : ℤ)) := by
  have hD : (0 : ℝ) < units earthDiameter.magnitude :=
    Nat.cast_pos.2 (units_pos.2 (Nat.pos_of_ne_zero magnitude_earthDiameter_ne_zero))
  have hP : (0 : ℝ) < 2 ^ (1074 : ℤ) := zpow_pos two_pos _
  have hx : (2 : ℝ) ^ 52 ≤ units k / units earthDiameter.magnitude * 2 ^ (1074 : ℤ) := by
    have hDle : (units earthDiameter.magnitude : ℝ) ≤ 2 ^ 1098 := by
      exact_mod_cast units_earthDiameter_le
    have hk : (2 : ℝ) ^ 537 ≤ units k := by exact_mod_cast hfar
    rw [div_mul_eq_mul_div, le_div_iff₀ hD, zpow_ofNat]
    calc (2 : ℝ) ^ 52 * units earthDiameter.magnitude ≤ 2 ^ 52 * 2 ^ 1098 :=
          mul_le_mul_of_nonneg_left hDle (by positivity)
      _ ≤ 2 ^ 537 * 2 ^ 1074 := by
          rw [← pow_add, ← pow_add]
          exact pow_le_pow_right₀ one_le_two (by norm_num)
      _ ≤ units k * 2 ^ 1074 := mul_le_mul_of_nonneg_right hk (pow_pos two_pos _).le
  have hround := le_units_roundUnits hx
  have hstep : (units k : ℝ) ≤ 2 ^ 53 * (units k - units (k - 1)) := by
    have hsucc := units_succ_le (k - 1)
    have hmono : units (k - 1) ≤ units k := units_le_units.2 (Nat.sub_le k 1)
    rw [Nat.sub_add_cancel hpos] at hsucc
    rw [← Nat.cast_sub hmono]
    exact_mod_cast hsucc
  refine le_roundUnits ?_
  rw [zpow_neg, ← div_eq_mul_inv, le_div_iff₀ hP]
  generalize (2 : ℝ) ^ (1074 : ℤ) = P at *
  have hDx : units earthDiameter.magnitude * (units k / units earthDiameter.magnitude * P) =
      units k * P := by
    field_simp
  calc (units (k - 1) : ℝ) * P ≤ (units k - units k / 2 ^ 53) * P :=
        mul_le_mul_of_nonneg_right (by linarith) hP.le
    _ = units earthDiameter.magnitude * (units k / units earthDiameter.magnitude * P -
          units k / units earthDiameter.magnitude * P / 2 ^ 53) := by
        rw [mul_sub, mul_div_assoc', hDx]
        ring
    _ ≤ _ := mul_le_mul_of_nonneg_left hround hD.le

section
variable [Trig]

/-- The arc of a chord. -/
def arc (chord : Binary64) : Binary64 :=
  earthDiameter * Trig.asin ((chord / earthDiameter).least 1)

theorem correctedDistance_eq (chord threshold : Binary64) :
    correctedDistance chord threshold = if chord ≤ threshold then chord else arc chord := rfl

variable (ha : LawfulArcsine)
include ha

/-- The arcsine of a number from 0 to 1 is a number from there to a quarter of a turn. -/
theorem LawfulArcsine.asin_spec (hc : c.IsNonneg) (h1 : c.magnitude ≤ (1 : Binary64).magnitude) :
    (Trig.asin c).isFinite = true ∧ c.signedUnits ≤ (Trig.asin c).signedUnits ∧
      Trig.asin c ≤ Trig.asin 1 := by
  have hone : c ≤ 1 := (hc.le_iff isNonneg_one).2 h1
  have hzero : Binary64.zero ≤ c :=
    (isNonneg_zero.le_iff hc).2 (Nat.zero_le _)
  have hlo := ha.le_asin c hzero hone
  have hhi := ha.asin_le_asin c 1 hzero hone (le_refl_of_not_nan isNonneg_one.not_nan)
  have hlo' := (le_iff_signedUnits.1 hlo).2.2
  have hhi' := (le_iff_signedUnits.1 hhi).2.2
  have hc0 : (0 : ℝ) ≤ c.signedUnits := hc.signedUnits ▸ Nat.cast_nonneg _
  have hquarter : |(Trig.asin 1).signedUnits| < units infiniteMagnitude := by
    rw [← isFinite_iff_abs, ha.asin_one]
    decide +kernel
  refine ⟨?_, hlo', hhi⟩
  rw [isFinite_iff_abs, abs_of_nonneg (by linarith)]
  exact hhi'.trans_lt ((le_abs_self _).trans_lt hquarter)

/-- **Arcs keep the order of chords.** -/
theorem arc_le_arc (hc : c.IsNonneg) (hd : d.IsNonneg) (h : c.magnitude ≤ d.magnitude) :
    arc c ≤ arc d := by
  obtain ⟨hcl, hcm⟩ := least_one (isNonneg_ratio hc)
  obtain ⟨hdl, hdm⟩ := least_one (isNonneg_ratio hd)
  have hle : ((c / earthDiameter).least 1).magnitude ≤ ((d / earthDiameter).least 1).magnitude := by
    rw [hcm, hdm]
    exact min_le_min_right _ (magnitude_ratio_le hc hd h)
  obtain ⟨hcf, hcs, -⟩ := ha.asin_spec hcl (hcm ▸ min_le_right _ _)
  obtain ⟨hdf, -, -⟩ := ha.asin_spec hdl (hdm ▸ min_le_right _ _)
  have hc0 : (0 : ℝ) ≤ ((c / earthDiameter).least 1).signedUnits :=
    hcl.signedUnits ▸ Nat.cast_nonneg _
  have hasin := ha.asin_le_asin _ _
    ((isNonneg_zero.le_iff hcl).2 (Nat.zero_le _)) ((hcl.le_iff hdl).2 hle)
    ((hdl.le_iff isNonneg_one).2 (hdm ▸ min_le_right _ _))
  exact earthDiameter_mul_le hcf hdf (hc0.trans hcs) (le_iff_signedUnits.1 hasin).2.2

/-- The arc of a chord that is no shorter than the diameter is half a great circle. -/
theorem arc_eq_longestArc (hc : c.IsNonneg)
    (h : (1 : Binary64).magnitude ≤ (c / earthDiameter).magnitude) : arc c = longestArc := by
  obtain ⟨hcl, hcm⟩ := least_one (isNonneg_ratio hc)
  have hone : (c / earthDiameter).least 1 = 1 := by
    refine ext_magnitude (hcl.negative.trans isNonneg_one.negative.symm) ?_
    rw [hcm, min_eq_right h]
  rw [arc, hone, ha.asin_one, longestArc]

/-- **A chord is no longer than the arc of any longer chord**, as long as it is no longer than half
a great circle. -/
theorem le_arc (hc : c.IsNonneg) (hd : d.IsNonneg) (hfar : 2 ^ 537 ≤ units d.magnitude)
    (h : c.magnitude < d.magnitude) (hlong : c ≤ longestArc) : c ≤ arc d := by
  rcases le_or_gt (1 : Binary64).magnitude (d / earthDiameter).magnitude with hone | hone
  · rw [arc_eq_longestArc ha hd hone]
    exact hlong
  · obtain ⟨hl, hlm⟩ := least_one (isNonneg_ratio hd)
    have hleast : (d / earthDiameter).least 1 = d / earthDiameter := by
      refine ext_magnitude (hl.negative.trans (isNonneg_ratio hd).negative.symm) ?_
      rw [hlm, min_eq_left hone.le]
    have hdf : d.isFinite = true := by
      refine hd.isFinite_or.resolve_right fun hi => ?_
      rw [(infinity_div hd hi isFinite_earthDiameter).1] at hone
      exact absurd hone (Nat.not_lt.2 isNonneg_one.le)
    have hratio := (div_of_isFinite hdf isFinite_earthDiameter magnitude_earthDiameter_ne_zero).1
    rw [min_eq_right (by have := isNonneg_one.le; omega)] at hratio
    obtain ⟨haf, has, -⟩ := ha.asin_spec (isNonneg_ratio hd) hone.le
    have h0 : (0 : ℝ) ≤ (d / earthDiameter).signedUnits :=
      (isNonneg_ratio hd).signedUnits ▸ Nat.cast_nonneg _
    obtain ⟨hnan, hvalue⟩ := signedUnits_mul haf (h0.trans has)
    rw [arc, hleast, le_iff_signedUnits, hvalue, hc.signedUnits, cast_units_le]
    refine ⟨hc.not_nan, hnan, le_min hc.le ?_⟩
    have hstep := pred_le_roundUnits_mul (by omega) hfar
    rw [← hratio, ← (isNonneg_ratio hd).signedUnits] at hstep
    calc c.magnitude ≤ d.magnitude - 1 := by omega
      _ ≤ _ := hstep
      _ ≤ _ := roundUnits_mono (by positivity) (by gcongr)

/-- **Corrected distances keep the order of chords** up to the longest arc. -/
theorem correctedDistance_le (hc : c.IsNonneg) (hd : d.IsNonneg)
    (hfar : d.magnitude ≠ 0 → 2 ^ 537 ≤ units d.magnitude) (h : c.magnitude ≤ d.magnitude)
    {threshold : Binary64} (hlong : threshold ≤ longestArc) :
    correctedDistance c threshold ≤ correctedDistance d threshold := by
  rw [correctedDistance_eq, correctedDistance_eq]
  have hle : c ≤ d := (hc.le_iff hd).2 h
  by_cases hdt : d ≤ threshold
  · rw [if_pos hdt, if_pos (le_trans hle hdt)]
    exact hle
  · rw [if_neg hdt]
    by_cases hct : c ≤ threshold
    · rw [if_pos hct]
      have hlt : c.magnitude < d.magnitude := by
        refine lt_of_le_of_ne h fun he => hdt ?_
        rwa [← ext_magnitude (hc.negative.trans hd.negative.symm) he]
      exact le_arc ha hc hd (hfar (by omega)) hlt (le_trans hct hlong)
    · rw [if_neg hct]
      exact arc_le_arc ha hc hd h

end

end Gazetteer
