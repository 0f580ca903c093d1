import Gazetteer.Proofs.NearestTrig
import Gazetteer.Settings.Basic

/-!
# When the distance to a box is a lower bound

A search leaves out a box by the distance of the point nearest to the target. That distance is a
lower bound for the points of the box just if the threshold of the metric is no longer than half a
great circle: a chord between the two would be farther than every arc.
-/

namespace Gazetteer

open Binary64

section
variable [Trig] (ha : LawfulArcsine) {threshold : Binary64}
include ha

theorem not_nan_correctedDistance {c : Binary64} (hc : c.IsNonneg) :
    (correctedDistance c threshold).isNaN = false := by
  rw [correctedDistance_eq]
  split
  · exact hc.not_nan
  · exact (le_iff.1 (arc_le_arc ha hc hc (Nat.le_refl _))).1

/-- **Distances keep the order of chords** up to the longest arc. -/
theorem Metric.distance_le_distance (h : threshold ≤ longestArc) {a b c d : Ecef}
    (hfa : a.isFinite = true) (hfb : b.isFinite = true) (hfc : c.isFinite = true)
    (hfd : d.isFinite = true) (hle : (a.distance b).magnitude ≤ (c.distance d).magnitude) :
    Metric.distance ⟨threshold⟩ a b ≤ Metric.distance ⟨threshold⟩ c d :=
  correctedDistance_le ha (Ecef.isNonneg_distance hfa hfb) (Ecef.isNonneg_distance hfc hfd)
    (Ecef.two_pow_le_units_distance hfc hfd) hle h

/-- **A metric is sound up to the longest arc.** -/
theorem Metric.sound (h : threshold ≤ longestArc) : Metric.Sound ⟨threshold⟩ where
  not_nan _ _ hfa hfb := not_nan_correctedDistance ha (Ecef.isNonneg_distance hfa hfb)
  closest_le _ _ _ _ ht hp hin hq := by
    obtain ⟨hfq, hle⟩ := Box.magnitude_distance_closest_le ht hp hin hq
    exact Metric.distance_le_distance ha h hfq ht hp ht hle

end

/-! ## Beyond the longest arc -/

/-- A point on the first axis. -/
def onAxis (x : Binary64) : Ecef := ⟨x, .zero, .zero⟩

theorem isFinite_onAxis {x : Binary64} (h : x.isFinite = true) : (onAxis x).isFinite = true := by
  simp only [onAxis, Ecef.isFinite, h]
  decide

/-- A chord along the first axis is the root of a rounded square. -/
theorem distance_onAxis_eq {x : Binary64} (h : x.isFinite = true) :
    (onAxis x).distance (onAxis .zero) = ((x - .zero) * (x - .zero)).sqrt := by
  have hzero : (Binary64.zero - .zero) * (.zero - .zero) = .zero := by decide
  have hsq := isNonneg_mul_self (not_nan_sub h (y := .zero) (by decide))
  rw [Ecef.distance_eq]
  dsimp only [onAxis]
  rw [hzero, add_zero_of_isNonneg hsq, add_zero_of_isNonneg hsq]

/-- A chord along the first axis, of a length whose square is far from the ends of the format, is
computed without error. -/
theorem distance_onAxis {x : Binary64} (hneg : x.negative = false)
    (hlo : 2 ^ 52 + 1046 * 2 ^ 52 < x.magnitude) (hhi : x.magnitude < 2 ^ 53 + 1046 * 2 ^ 52) :
    (onAxis x).distance (onAxis .zero) = x := by
  have hfin : x.isFinite = true := isFinite_iff.2 (by omega)
  have hnan := not_nan_sub hfin (y := .zero) (by decide)
  obtain ⟨n, hn⟩ : ∃ n, x.magnitude = n + 1046 * 2 ^ 52 := ⟨x.magnitude - 1046 * 2 ^ 52, by omega⟩
  have hn₀ : 2 ^ 52 < n := by omega
  have hn₁ : n < 2 ^ 53 := by omega
  have hunits : (units x.magnitude : ℝ) = n * 2 ^ 1046 := by
    rw [hn, units_add_mul hn₁.le (Or.inr hn₀.le), Nat.cast_mul, Nat.cast_pow, Nat.cast_ofNat]
  obtain ⟨hm, -⟩ := mul_self hnan
  rw [magnitude_sub_zero hfin, hunits] at hm
  have hsquare : (n : ℝ) * 2 ^ 1046 * (n * 2 ^ 1046) * 2 ^ (-1074 : ℤ) = n * n * 2 ^ 1018 := by
    have hpow : (2 : ℝ) ^ 1046 * 2 ^ 1046 = 2 ^ 1018 * 2 ^ 1074 := by rw [← pow_add, ← pow_add]
    rw [zpow_neg, zpow_ofNat, ← div_eq_mul_inv, div_eq_iff (pow_pos two_pos 1074).ne',
      mul_mul_mul_comm, hpow, ← mul_assoc]
  have hn₀' : (2 : ℝ) ^ 52 ≤ n := by exact_mod_cast hn₀.le
  have hn₁' : (n : ℝ) ≤ 2 ^ 53 := by exact_mod_cast hn₁.le
  have hlow : (2 : ℝ) ^ 52 ≤ n * 2 ^ 1046 * (n * 2 ^ 1046) * 2 ^ (-1074 : ℤ) := by
    rw [hsquare]
    calc (2 : ℝ) ^ 52 ≤ n := hn₀'
      _ ≤ n * n := le_mul_of_one_le_right (Nat.cast_nonneg n) (le_trans (by norm_num) hn₀')
      _ ≤ n * n * 2 ^ 1018 := le_mul_of_one_le_right (mul_self_nonneg _) (one_le_pow₀ one_le_two)
  have hhigh : (n : ℝ) * 2 ^ 1046 * (n * 2 ^ 1046) * 2 ^ (-1074 : ℤ) ≤
      units (2 ^ 52 + 1072 * 2 ^ 52) := by
    rw [hsquare, units_add_mul (by norm_num) (Or.inr le_rfl), ← pow_add, Nat.cast_pow,
      Nat.cast_ofNat]
    calc (n : ℝ) * n * 2 ^ 1018 ≤ 2 ^ 53 * 2 ^ 53 * 2 ^ 1018 := by gcongr
      _ = 2 ^ (52 + 1072) := by rw [← pow_add, ← pow_add]
  have hfit := roundUnits_le (by positivity) hhigh
  rw [min_eq_right (hfit.trans (by decide))] at hm
  have hsq := isNonneg_mul_self hnan
  obtain ⟨hr, hrn⟩ := sqrt_of_isFinite hsq
    (isFinite_iff.2 (hm ▸ hfit.trans_lt (by norm_num)))
  rw [hm, roundUnits_sqrt_square hn₀ hn₁ hlow, ← hn] at hr
  rw [distance_onAxis_eq hfin]
  refine ext_magnitude (hrn.trans hneg.symm) (hr.trans (min_eq_right ?_))
  exact (of_decide_eq_true hfin).le

/-- Beyond the longest arc there is a chord that no arc reaches and that is not replaced by one. -/
theorem exists_chord_beyond {threshold : Binary64} (hfin : threshold.isFinite = true)
    (hneg : threshold.negative = false) (h : ¬ threshold ≤ longestArc) :
    ∃ x : Binary64, x.isFinite = true ∧ x.negative = false ∧ longestArc < x ∧ x ≤ threshold ∧
      (onAxis x).distance (onAxis .zero) = x := by
  have hnonneg : threshold.IsNonneg := .of_isFinite hfin hneg
  have hlong : longestArc.IsNonneg := by
    rw [longestArc_eq]
    exact ⟨by decide, by decide⟩
  have hlt : longestArc < threshold :=
    (lt_or_le_of_not_nan hlong.not_nan hnonneg.not_nan).resolve_right h
  have hlt' : longestArc.magnitude < threshold.magnitude := by
    rw [hnonneg.le_iff hlong] at h
    exact Nat.lt_of_not_le h
  rcases Nat.lt_or_ge threshold.magnitude (2 ^ 53 + 1046 * 2 ^ 52) with hsmall | hlarge
  · rw [longestArc_eq] at hlt'
    refine ⟨threshold, hfin, hneg, hlt, le_refl_of_not_nan hnonneg.not_nan,
      distance_onAxis hneg (lt_trans (by decide) hlt') hsmall⟩
  · -- half as much again as the lower end of the binade, so surely beyond the longest arc
    have hx : Binary64.IsNonneg ⟨0x4178000000000000⟩ := ⟨by decide, by decide⟩
    refine ⟨⟨0x4178000000000000⟩, by decide, hx.negative, ?_, ?_,
      distance_onAxis hx.negative (by decide) (by decide)⟩
    · rw [longestArc_eq]
      decide
    · exact (hx.le_iff hnonneg).2 (le_trans (by decide) hlarge)

/-- The largest finite number. -/
def Binary64.largest : Binary64 := ⟨0x7fefffffffffffff⟩

theorem Binary64.IsNonneg.le_largest {x : Binary64} (hx : x.IsNonneg) (h : x.isFinite = true) :
    x ≤ .largest := by
  have hlt : x.magnitude < infiniteMagnitude := of_decide_eq_true h
  have hnext : infiniteMagnitude = largest.magnitude + 1 := by decide
  exact (hx.le_iff ⟨by decide, by decide⟩).2 (by omega)

/-- The square of the largest number is beyond the format. -/
theorem distance_onAxis_largest : (onAxis .largest).distance (onAxis .zero) = infinity := by
  rw [distance_onAxis_eq (by decide)]
  decide +kernel

/-- A box along the first axis contains its far end. -/
theorem contains_onAxis {x y : Binary64} (h : x ≤ y) :
    (⟨onAxis x, onAxis y⟩ : Box).Contains (onAxis y) := by
  have hzero : Binary64.zero ≤ .zero := by decide
  intro axis
  cases axis
  · exact ⟨h, le_refl_of_not_nan (le_iff.1 h).2.1⟩
  · exact ⟨hzero, hzero⟩
  · exact ⟨hzero, hzero⟩

/-- A target at the middle of the earth is moved to the near end of a box along the first axis. -/
theorem closest_onAxis {x y : Binary64} (hpos : zero < x) (h : x ≤ y) :
    (⟨onAxis x, onAxis y⟩ : Box).closest (onAxis .zero) = .ok (onAxis x) := by
  have hzero : Binary64.zero.clamp .zero .zero = .zero := by decide
  rw [Box.closest_eq_ok fun axis => le_trans (contains_onAxis h axis).1 (contains_onAxis h axis).2]
  dsimp only [onAxis]
  rw [hzero, clamp, if_pos hpos]

/-! ## What a threshold has to satisfy -/

/-- The number after a number without a minus. -/
def Binary64.next (x : Binary64) : Binary64 := .ofMagnitude false (x.magnitude + 1)

theorem Binary64.magnitude_next {x : Binary64} (h : x.isFinite = true) :
    x.next.magnitude = x.magnitude + 1 ∧ x.next.IsNonneg := by
  have hlt : x.magnitude < infiniteMagnitude := of_decide_eq_true h
  have hbound : infiniteMagnitude < 0x8000000000000000 := by decide
  obtain ⟨hm, hn⟩ := ofMagnitude_fields (n := false) (m := x.magnitude + 1) (by omega)
  exact ⟨hm, hn, hm ▸ hlt⟩

/-- From the point that the target is moved to, no point of a finite box is nearer. -/
def Metric.BoundsBoxes [Trig] (m : Metric) : Prop :=
  ∀ (box : Box) (target p : Ecef), box.low.isFinite = true → box.high.isFinite = true →
    target.isFinite = true → p.isFinite = true → box.Contains p →
      ∃ q, box.closest target = .ok q ∧ m.distance q target ≤ m.distance p target

/-- Distances between points are in the order of the chords. -/
def Metric.KeepsOrder [Trig] (m : Metric) : Prop :=
  ∀ a b c d : Ecef, a.isFinite = true → b.isFinite = true → c.isFinite = true →
    d.isFinite = true → a.distance b ≤ c.distance d → m.distance a b ≤ m.distance c d

section
variable [Trig] (ha : LawfulArcsine) {threshold : Binary64}
include ha

theorem correctedDistance_infinity (hfin : threshold.isFinite = true)
    (hneg : threshold.negative = false) : correctedDistance infinity threshold = longestArc := by
  have hlt : threshold.magnitude < infinity.magnitude := of_decide_eq_true hfin
  have hbeyond : ¬ infinity ≤ threshold := fun h =>
    absurd ((isNonneg_infinity.le_iff (.of_isFinite hfin hneg)).1 h) (Nat.not_le.2 hlt)
  rw [correctedDistance_eq, if_neg hbeyond, arc_eq_longestArc ha isNonneg_infinity]
  rw [(infinity_div isNonneg_infinity (by decide) isFinite_earthDiameter).1]
  exact isNonneg_one.le

/-- **Beyond the longest arc a chord is longer than an arc.** It is measured as it is, and the
distance of the farthest point of the axis is half a great circle. -/
theorem exists_distance_lt (hfin : threshold.isFinite = true) (hneg : threshold.negative = false)
    (h : ¬ threshold ≤ longestArc) :
    ∃ x : Binary64, x.isFinite = true ∧ x.IsNonneg ∧ zero < x ∧
      (onAxis x).distance (onAxis .zero) = x ∧
        ¬ Metric.distance ⟨threshold⟩ (onAxis x) (onAxis .zero) ≤
          Metric.distance ⟨threshold⟩ (onAxis .largest) (onAxis .zero) := by
  obtain ⟨x, hxf, hxn, hlong, hle, hchord⟩ := exists_chord_beyond hfin hneg h
  have hzero : zero < longestArc := by
    rw [longestArc_eq]
    decide
  refine ⟨x, hxf, .of_isFinite hxf hxn, lt_of_lt_of_le hzero (le_of_lt hlong), hchord, ?_⟩
  rw [Metric.distance, Metric.distance, hchord, distance_onAxis_largest,
    correctedDistance_infinity ha hfin hneg, correctedDistance_eq, if_pos hle]
  intro hback
  exact lt_asymm (lt_of_lt_of_le hlong hback) (lt_of_lt_of_le hlong hback)

theorem Metric.le_longestArc_of_boundsBoxes (hfin : threshold.isFinite = true)
    (hneg : threshold.negative = false) (h : Metric.BoundsBoxes ⟨threshold⟩) :
    threshold ≤ longestArc := by
  by_contra hlong
  obtain ⟨x, hxf, hx, hpos, -, hnot⟩ := exists_distance_lt ha hfin hneg hlong
  have hmax : x ≤ .largest := hx.le_largest hxf
  obtain ⟨q, hq, hle⟩ := h ⟨onAxis x, onAxis .largest⟩ (onAxis .zero) (onAxis .largest)
    (isFinite_onAxis hxf) (isFinite_onAxis (by decide)) (isFinite_onAxis (by decide))
    (isFinite_onAxis (by decide)) (contains_onAxis hmax)
  rw [closest_onAxis hpos hmax] at hq
  cases hq
  exact hnot hle

theorem Metric.le_longestArc_of_keepsOrder (hfin : threshold.isFinite = true)
    (hneg : threshold.negative = false) (h : Metric.KeepsOrder ⟨threshold⟩) :
    threshold ≤ longestArc := by
  by_contra hlong
  obtain ⟨x, hxf, hx, -, hchord, hnot⟩ := exists_distance_lt ha hfin hneg hlong
  refine hnot (h (onAxis x) (onAxis .zero) (onAxis .largest) (onAxis .zero) (isFinite_onAxis hxf) (isFinite_onAxis (by decide))
    (isFinite_onAxis (by decide)) (isFinite_onAxis (by decide)) ?_)
  rw [hchord, distance_onAxis_largest]
  exact le_infinity hx.not_nan

/-- Corrected distances keep the order of numbers just if the step from a threshold to the number
after it goes up. -/
theorem correctedDistance_mono_iff (hfin : threshold.isFinite = true)
    (hneg : threshold.negative = false) :
    (∀ c d : Binary64, c.IsNonneg → d.IsNonneg → c ≤ d →
      correctedDistance c threshold ≤ correctedDistance d threshold) ↔
        threshold ≤ arc threshold.next := by
  have ht : threshold.IsNonneg := .of_isFinite hfin hneg
  obtain ⟨hnext, hn⟩ := magnitude_next hfin
  have hself : threshold ≤ threshold := le_refl_of_not_nan ht.not_nan
  constructor
  · intro h
    have hstep := h threshold threshold.next ht hn ((ht.le_iff hn).2 (by omega))
    rwa [correctedDistance_eq, correctedDistance_eq, if_pos hself,
      if_neg fun hback => by have := (hn.le_iff ht).1 hback; omega] at hstep
  · intro h c d hc hd hle
    rw [correctedDistance_eq, correctedDistance_eq]
    by_cases hdt : d ≤ threshold
    · rw [if_pos hdt, if_pos (le_trans hle hdt)]
      exact hle
    · rw [if_neg hdt]
      by_cases hct : c ≤ threshold
      · rw [if_pos hct]
        rw [hd.le_iff ht] at hdt
        exact le_trans hct (le_trans h (arc_le_arc ha hn hd (by omega)))
      · rw [if_neg hct]
        exact arc_le_arc ha hc hd ((hc.le_iff hd).1 hle)

end

/-- A threshold in order is finite and has no minus. -/
theorem Settings.threshold_of_check {s : Settings} (h : s.check = .ok ()) :
    s.longRangeThreshold.isFinite = true ∧ s.longRangeThreshold.negative = false := by
  have hzero : (0 : Binary64) = .zero := by decide +kernel
  unfold check at h
  split at h
  · cases h
  · rename_i hfin
    rw [Bool.not_eq_true, Bool.not_eq_false'] at hfin
    split at h
    · cases h
    · rename_i hpos
      refine ⟨hfin, Bool.eq_false_iff.2 fun hneg => hpos ?_⟩
      rw [hzero]
      refine le_iff.2 ⟨not_nan_of_isFinite hfin, by decide, ?_⟩
      have hrank : Binary64.zero.rank = 0 := by decide
      rw [hrank, rank, if_pos hneg]
      omega

/-- **When the bound of a search holds.** With a threshold in order, the distance to the point of a
box that the target is moved to bounds the distances of the points of the box just if the threshold
is no longer than half a great circle, whether the box is finite or not. Up to there distances
keep the order of chords. They keep the order of all numbers just if the step at the threshold goes
up. -/
theorem bounds_iff_le_longestArc [Trig] (ha : LawfulArcsine) {s : Settings}
    (h : s.check = .ok ()) :
    (Metric.BoundsBoxes ⟨s.longRangeThreshold⟩ ↔ s.longRangeThreshold ≤ longestArc) ∧
      (Metric.Sound ⟨s.longRangeThreshold⟩ ↔ s.longRangeThreshold ≤ longestArc) ∧
      (Metric.KeepsOrder ⟨s.longRangeThreshold⟩ ↔ s.longRangeThreshold ≤ longestArc) ∧
      ((∀ c d : Binary64, c.IsNonneg → d.IsNonneg → c ≤ d →
        correctedDistance c s.longRangeThreshold ≤ correctedDistance d s.longRangeThreshold) ↔
          s.longRangeThreshold ≤ arc s.longRangeThreshold.next) := by
  obtain ⟨hfin, hneg⟩ := Settings.threshold_of_check h
  have hsound : s.longRangeThreshold ≤ longestArc → Metric.Sound ⟨s.longRangeThreshold⟩ :=
    Metric.sound ha
  have hbounds : Metric.Sound ⟨s.longRangeThreshold⟩ →
      Metric.BoundsBoxes ⟨s.longRangeThreshold⟩ := by
    intro hs box target p _ _ ht hp hin
    obtain ⟨q, hq⟩ := Box.exists_closest hin target
    exact ⟨q, hq, hs.closest_le box target p q ht hp hin hq⟩
  have hback := Metric.le_longestArc_of_boundsBoxes ha hfin hneg
  refine ⟨⟨hback, fun hle => hbounds (hsound hle)⟩, ⟨fun hs => hback (hbounds hs), hsound⟩,
    ⟨Metric.le_longestArc_of_keepsOrder ha hfin hneg, ?_⟩, correctedDistance_mono_iff ha hfin hneg⟩
  intro hle a b c d hfa hfb hfc hfd hchord
  exact Metric.distance_le_distance ha hle hfa hfb hfc hfd
    (((Ecef.isNonneg_distance hfa hfb).le_iff (Ecef.isNonneg_distance hfc hfd)).1 hchord)

/-- Settings with a threshold of a hundred thousand kilometres: in order, but beyond the longest
arc. -/
def wideSettings : Settings := ⟨true, ⟨0x4197d78400000000⟩, true, true⟩

/-- Settings with a threshold of a hundred kilometres. -/
def narrowSettings : Settings := { wideSettings with longRangeThreshold := ⟨0x40f86a0000000000⟩ }

theorem bounds_narrowSettings_not_wideSettings :
    letI : Trig := nearestTrig
    (narrowSettings.check = .ok () ∧ Metric.BoundsBoxes ⟨narrowSettings.longRangeThreshold⟩ ∧
      Metric.Sound ⟨narrowSettings.longRangeThreshold⟩ ∧
      Metric.KeepsOrder ⟨narrowSettings.longRangeThreshold⟩) ∧
    (wideSettings.check = .ok () ∧ ¬ Metric.BoundsBoxes ⟨wideSettings.longRangeThreshold⟩ ∧
      ¬ Metric.Sound ⟨wideSettings.longRangeThreshold⟩ ∧
      ¬ Metric.KeepsOrder ⟨wideSettings.longRangeThreshold⟩) := by
  let _ : Trig := nearestTrig
  have hnarrow : narrowSettings.check = .ok () := by decide
  have hwide : wideSettings.check = .ok () := by decide
  have hshort : narrowSettings.longRangeThreshold ≤ longestArc := by
    rw [longestArc_eq]
    decide
  have hlong : ¬ wideSettings.longRangeThreshold ≤ longestArc := by
    rw [longestArc_eq]
    decide
  obtain ⟨hb, hs, ho, -⟩ := bounds_iff_le_longestArc lawfulArcsine_nearestTrig hnarrow
  obtain ⟨hb', hs', ho', -⟩ := bounds_iff_le_longestArc lawfulArcsine_nearestTrig hwide
  exact ⟨⟨hnarrow, hb.2 hshort, hs.2 hshort, ho.2 hshort⟩,
    ⟨hwide, fun h => hlong (hb'.1 h), fun h => hlong (hs'.1 h), fun h => hlong (ho'.1 h)⟩⟩

end Gazetteer
