import Gazetteer.Proofs.Arithmetic

/-!
# Quotients and roots

A quotient and a root are computed to enough bits to be rounded, with a remainder that says on which
side of the middle between two numbers they lie.
-/

namespace Gazetteer

open Float.Model Float.Model.UnpackedFloat

/-! ## Quotients -/

/-- A fraction is described by its whole part and its remainder. -/
theorem describes_fraction (a : ℕ) {n : ℕ} (hn : 0 < n) :
    Describes (.ofMantissaAndAccuracy (a / n) (accuracyOfFraction (a % n) n)) ((a : ℝ) / n) := by
  have hn' : (0 : ℝ) < n := Nat.cast_pos.2 hn
  have hdiv : (a : ℝ) = n * (a / n : ℕ) + (a % n : ℕ) := by
    exact_mod_cast (Nat.div_add_mod a n).symm
  have hsplit : (a : ℝ) / n = (a / n : ℕ) + ((a % n : ℕ) : ℝ) / n := by
    rw [div_eq_iff hn'.ne', add_mul, div_mul_cancel₀ _ hn'.ne']
    linarith
  have hrem := Nat.mod_lt a hn
  rw [hsplit]
  generalize a / n = q at *
  generalize a % n = r at *
  unfold accuracyOfFraction
  split
  · rename_i hr
    rw [hr, Nat.cast_zero, zero_div, add_zero]
    exact describes_exact q
  · rename_i hr
    have hr0 : (0 : ℝ) < r / n := div_pos (Nat.cast_pos.2 (Nat.pos_of_ne_zero hr)) hn'
    have hr1 : (r : ℝ) / n < 1 := (div_lt_one hn').2 (Nat.cast_lt.2 hrem)
    refine describes_inexact (by linarith) (by linarith) (fun h => ?_) (fun h => ?_) fun h => ?_
    · have hlt : (2 * r : ℝ) < n := by exact_mod_cast Nat.compare_eq_lt.1 h
      have : (r : ℝ) / n < 1 / 2 := by
        rw [div_lt_div_iff₀ hn' two_pos]
        linarith
      linarith
    · have heq : (2 * r : ℝ) = n := by exact_mod_cast Nat.compare_eq_eq.1 h
      have : (r : ℝ) / n = 1 / 2 := by
        rw [div_eq_div_iff hn'.ne' two_ne_zero]
        linarith
      linarith
    · have hgt : (n : ℝ) < 2 * r := by exact_mod_cast Nat.compare_eq_gt.1 h
      have : (1 : ℝ) / 2 < r / n := by
        rw [div_lt_div_iff₀ two_pos hn']
        linarith
      linarith

/-- A quotient is computed to at least 53 bits, or to the last unit of the format. -/
theorem le_targetExponent_of_quotient {m n k : ℕ} {e f t : ℤ} (hm : 0 < m) (hn : 0 < n)
    (ht : t ≤ Format.binary64.targetExponent (totalExponent m e - totalExponent n f))
    (hk : (k : ℤ) = e - f - t) :
    t ≤ Format.binary64.targetExponent (totalExponent ((m <<< k) / n) t) := by
  rw [targetExponent_eq, totalExponent, totalExponent] at ht
  rw [targetExponent_eq, totalExponent]
  rcases le_or_gt t (-1074) with hlow | hhigh
  · exact le_max_of_le_right hlow
  · refine le_max_of_le_left ?_
    have hbits : n.log2 + 53 ≤ m.log2 + k := by omega
    have hq : 2 ^ 52 ≤ (m <<< k) / n := by
      rw [Nat.le_div_iff_mul_le hn]
      calc 2 ^ 52 * n ≤ 2 ^ 52 * 2 ^ (n.log2 + 1) := Nat.mul_le_mul_left _ Nat.lt_log2_self.le
        _ = 2 ^ (n.log2 + 53) := by rw [← pow_add, add_comm, add_assoc]
        _ ≤ 2 ^ (m.log2 + k) := Nat.pow_le_pow_right two_pos hbits
        _ ≤ m <<< k := two_pow_le_shiftLeft hm k
    have hlog := (Nat.le_log2 (by omega)).2 hq
    omega

theorem isMagnitude_div {sign : Sign} {m s n t : ℕ} (hm : 0 < m) (hn : 0 < n) :
    IsMagnitude sign (roundUnits (m * 2 ^ s / (n * 2 ^ t) * 2 ^ (1074 : ℤ)))
      (let (q, e, acc) := divCore .binary64 m (s - 1074) n (t - 1074)
      roundWithAccuracy .binary64 sign q e acc) := by
  unfold divCore
  dsimp only
  obtain ⟨u, hu⟩ : ∃ u, min ((s : ℤ) - 1074 - (t - 1074)) (Format.binary64.targetExponent
      (totalExponent m (s - 1074) - totalExponent n (t - 1074))) = u := ⟨_, rfl⟩
  obtain ⟨k, hk⟩ : ∃ k : ℕ, ((s : ℤ) - 1074 - (t - 1074) - u).toNat = k := ⟨_, rfl⟩
  have hk' : (k : ℤ) = (s : ℤ) - 1074 - (t - 1074) - u := by omega
  have hvalue : (m : ℝ) * 2 ^ s / (n * 2 ^ t) * 2 ^ (1074 : ℤ) =
      ((m <<< k : ℕ) : ℝ) / n * 2 ^ (u + 1074) := by
    have hexp : (k : ℤ) + (u + 1074) = (s : ℤ) - t + 1074 := by omega
    have hpow : (2 : ℝ) ^ s = 2 ^ t * 2 ^ ((s : ℤ) - t) := by
      rw [two_pow_mul_zpow (add_sub_cancel _ _), zpow_natCast]
    rw [div_mul_eq_mul_div _ (n : ℝ), cast_shiftLeft_mul m hexp, hpow, zpow_add₀ two_ne_zero]
    field_simp
  rw [hu, hk, hvalue]
  refine isMagnitude_roundWithAccuracy (describes_fraction _ hn) ?_
  exact le_targetExponent_of_quotient hm hn (hu ▸ min_le_right _ _) hk'

namespace Binary64

variable {x y : Binary64}

/-- **A quotient is rounded to the nearest magnitude.** -/
theorem div_of_isFinite (hx : x.isFinite = true) (hy : y.isFinite = true) (hy0 : y.magnitude ≠ 0) :
    (x / y).magnitude = min infiniteMagnitude
        (roundUnits (units x.magnitude / units y.magnitude * 2 ^ (1074 : ℤ))) ∧
      (x / y).negative = (x.negative != y.negative) := by
  rw [div_eq, ← isMinus_sign x, ← isMinus_sign y, ← isMinus_div]
  obtain ⟨-, hym⟩ | ⟨n, t, hn, -, hnt, -, hyv, hyu⟩ := unpacked_cases hy
  · exact absurd hym hy0
  · obtain ⟨hxu, hxm⟩ | ⟨m, s, hm, -, hms, -, hxv, hxu⟩ := unpacked_cases hx
    · rw [hxu, hyu, hxm, units_zero, Nat.cast_zero, zero_div, zero_mul, roundUnits_zero]
      exact magnitude_ofUnpacked .zero
    · rw [hxu, hyu, hxv, hyv, Nat.cast_mul, Nat.cast_mul, Nat.cast_pow, Nat.cast_pow,
        Nat.cast_ofNat]
      exact magnitude_ofUnpacked (isMagnitude_div hm hn)

/-- The infinity divided by a finite number is infinite. -/
theorem infinity_div (hx : x.IsNonneg) (hinf : x.magnitude = infiniteMagnitude)
    (hy : y.isFinite = true) :
    (x / y).magnitude = infiniteMagnitude ∧ (x / y).negative = y.negative := by
  have hsign : isMinus (.positive / y.sign) = y.negative := by
    rw [isMinus_div, isMinus_sign]
    cases y.negative <;> rfl
  rw [div_eq, hx.unpacked_of_magnitude_eq hinf, ← hsign]
  obtain ⟨hyu, -⟩ | ⟨n, t, hn, -, -, -, -, hyu⟩ := unpacked_cases hy
  · rw [hyu]
    exact magnitude_ofUnpacked_infinity _
  · rw [hyu]
    exact magnitude_ofUnpacked_infinity _

end Binary64

/-! ## Roots -/

/-- A root is described by its whole part and by what is left of the radicand. -/
theorem describes_root (a : ℕ) :
    Describes (.ofMantissaAndAccuracy (Nat.sqrt a) (if a - Nat.sqrt a * Nat.sqrt a = 0 then .exact
      else .inexact (if a - Nat.sqrt a * Nat.sqrt a ≤ Nat.sqrt a then .lt else .gt))) (√(a : ℝ)) := by
  have hlo := Nat.sqrt_le a
  have hhi := Nat.lt_succ_sqrt a
  generalize Nat.sqrt a = r at *
  have hr0 : (0 : ℝ) ≤ r := Nat.cast_nonneg r
  split
  · rename_i hrem
    have ha : a = r * r := by omega
    rw [ha, Nat.cast_mul, Real.sqrt_mul_self hr0]
    exact describes_exact r
  · rename_i hrem
    have hrlt : (r : ℝ) < √a := Real.lt_sqrt_of_sq_lt (by
      rw [pow_two]
      exact_mod_cast (by omega : r * r < a))
    have hltr : √(a : ℝ) < r + 1 := (Real.sqrt_lt' (by linarith)).2 (by
      rw [pow_two]
      exact_mod_cast hhi)
    refine describes_inexact hrlt hltr (fun h => ?_) (fun h => ?_) fun h => ?_
    · have hle : a ≤ r * r + r := by
        by_contra hgt
        rw [if_neg (by omega)] at h
        cases h
      have hle' : (a : ℝ) ≤ r * r + r := by exact_mod_cast hle
      exact (Real.sqrt_lt' (by linarith)).2 (by nlinarith)
    · split at h <;> cases h
    · have hge : r * r + r + 1 ≤ a := by
        by_contra hlt
        rw [if_pos (by omega)] at h
        cases h
      have hge' : (r : ℝ) * r + r + 1 ≤ a := by exact_mod_cast hge
      exact Real.lt_sqrt_of_sq_lt (by nlinarith)

/-- A root is computed to at least 53 bits, or to the last unit of the format. -/
theorem le_targetExponent_of_root {m k : ℕ} {e t : ℤ} (hm : 0 < m)
    (ht : t ≤ Format.binary64.targetExponent ((totalExponent m e + 1).ediv 2))
    (hk : (k : ℤ) = e - 2 * t) :
    t ≤ Format.binary64.targetExponent (totalExponent (Nat.sqrt (m <<< k)) t) := by
  rw [targetExponent_eq, totalExponent] at ht
  rw [targetExponent_eq, totalExponent]
  rcases le_or_gt t (-1074) with hlow | hhigh
  · exact le_max_of_le_right hlow
  · refine le_max_of_le_left ?_
    have hbits : 104 ≤ m.log2 + k := by
      have hdiv : ((m.log2 : ℤ) + 1 + e + 1).ediv 2 = ((m.log2 : ℤ) + 1 + e + 1) / 2 := rfl
      rw [hdiv] at ht
      omega
    have hlo : 2 ^ 52 * 2 ^ 52 ≤ m <<< k := by
      calc 2 ^ 52 * 2 ^ 52 = 2 ^ 104 := by norm_num
        _ ≤ 2 ^ (m.log2 + k) := Nat.pow_le_pow_right two_pos hbits
        _ ≤ m <<< k := two_pow_le_shiftLeft hm k
    have hroot : 2 ^ 52 ≤ Nat.sqrt (m <<< k) := Nat.le_sqrt.2 hlo
    have hlog := (Nat.le_log2 (by omega)).2 hroot
    omega

theorem isMagnitude_sqrt {m s : ℕ} (hm : 0 < m) :
    IsMagnitude .positive (roundUnits √(m * 2 ^ s * 2 ^ (1074 : ℤ)))
      (let (q, e, acc) := sqrtCore .binary64 m (s - 1074)
      roundWithAccuracy .binary64 .positive q e acc) := by
  unfold sqrtCore
  dsimp only
  obtain ⟨u, hu⟩ : ∃ u, min (((s : ℤ) - 1074).ediv 2) (Format.binary64.targetExponent
      ((totalExponent m (s - 1074) + 1).ediv 2)) = u := ⟨_, rfl⟩
  obtain ⟨k, hk⟩ : ∃ k : ℕ, ((s : ℤ) - 1074 - 2 * u).toNat = k := ⟨_, rfl⟩
  have hle : u ≤ ((s : ℤ) - 1074) / 2 := hu ▸ min_le_left _ _
  have hk' : (k : ℤ) = (s : ℤ) - 1074 - 2 * u := by omega
  have hvalue : √((m : ℝ) * 2 ^ s * 2 ^ (1074 : ℤ)) = √((m <<< k : ℕ) : ℝ) * 2 ^ (u + 1074) := by
    have hpos : (0 : ℝ) ≤ 2 ^ (u + 1074) := (zpow_pos two_pos _).le
    have hexp : (k : ℤ) + (u + 1074 + (u + 1074)) = s + 1074 := by omega
    rw [← Real.sqrt_sq hpos, ← Real.sqrt_mul (Nat.cast_nonneg _), pow_two,
      ← zpow_add₀ two_ne_zero, cast_shiftLeft_mul m hexp, mul_assoc, two_pow_mul_zpow rfl]
  rw [hu, hk, hvalue]
  refine isMagnitude_roundWithAccuracy (describes_root _) ?_
  exact le_targetExponent_of_root hm (hu ▸ min_le_right _ _) hk'

/-- **A root is rounded to the nearest magnitude.** -/
theorem Binary64.sqrt_of_isFinite {x : Binary64} (hx : x.IsNonneg) (hf : x.isFinite = true) :
    x.sqrt.magnitude =
        min infiniteMagnitude (roundUnits √(units x.magnitude * 2 ^ (1074 : ℤ))) ∧
      x.sqrt.negative = false := by
  rw [sqrt_eq]
  obtain ⟨hxu, hxm⟩ | ⟨m, s, hm, -, -, -, hxv, hxu⟩ := Binary64.unpacked_cases hf
  · rw [hxu, hxm, hx.sign, units_zero, Nat.cast_zero, zero_mul, Real.sqrt_zero, roundUnits_zero]
    exact magnitude_ofUnpacked .zero
  · rw [hxu, hxv, hx.sign, Nat.cast_mul, Nat.cast_pow, Nat.cast_ofNat]
    exact magnitude_ofUnpacked (isMagnitude_sqrt hm)

theorem Binary64.sqrt_infinity {x : Binary64} (hx : x.IsNonneg)
    (hinf : x.magnitude = infiniteMagnitude) :
    x.sqrt.magnitude = infiniteMagnitude ∧ x.sqrt.negative = false := by
  rw [sqrt_eq, hx.unpacked_of_magnitude_eq hinf]
  exact magnitude_ofUnpacked_positive_infinity

/-- The root of a square that was rounded lies within half a step of what was squared. -/
theorem sqrt_near {n h y : ℝ} (hlo : 2 ^ 52 + 1 ≤ n) (hhi : n + 1 ≤ 2 ^ 53) (hh : 0 < h)
    (hdown : n * h * (n * h) - n * h * (n * h) / 2 ^ 53 ≤ y)
    (hup : y ≤ n * h * (n * h) + n * h * (n * h) / 2 ^ 53) :
    (n - 1 / 2) * h < √y ∧ √y < (n + 1 / 2) * h := by
  have hsq : 0 < h * h := mul_pos hh hh
  constructor
  · have hn : (n - 1 / 2) ^ 2 < n * n - n * n / 2 ^ 53 := by nlinarith
    refine Real.lt_sqrt_of_sq_lt ?_
    calc ((n - 1 / 2) * h) ^ 2 = (n - 1 / 2) ^ 2 * (h * h) := by ring
      _ < (n * n - n * n / 2 ^ 53) * (h * h) := mul_lt_mul_of_pos_right hn hsq
      _ = n * h * (n * h) - n * h * (n * h) / 2 ^ 53 := by ring
      _ ≤ y := hdown
  · have hn : n * n + n * n / 2 ^ 53 < (n + 1 / 2) ^ 2 := by nlinarith
    refine (Real.sqrt_lt' (mul_pos (by linarith) hh)).2 ?_
    calc y ≤ n * h * (n * h) + n * h * (n * h) / 2 ^ 53 := hup
      _ = (n * n + n * n / 2 ^ 53) * (h * h) := by ring
      _ < (n + 1 / 2) ^ 2 * (h * h) := mul_lt_mul_of_pos_right hn hsq
      _ = ((n + 1 / 2) * h) ^ 2 := by ring

/-- The root of a rounded square is rounded to what was squared. -/
theorem roundUnits_sqrt_square {n s : ℕ} (hlo : 2 ^ 52 < n) (hhi : n < 2 ^ 53)
    (hx : (2 : ℝ) ^ 52 ≤ n * 2 ^ s * (n * 2 ^ s) * 2 ^ (-1074 : ℤ)) :
    roundUnits √(units (roundUnits (n * 2 ^ s * (n * 2 ^ s) * 2 ^ (-1074 : ℤ))) *
      2 ^ (1074 : ℤ)) = n + s * 2 ^ 52 := by
  have hP : (0 : ℝ) < 2 ^ (1074 : ℤ) := zpow_pos two_pos _
  have hh : (0 : ℝ) < 2 ^ s := pow_pos two_pos s
  have hlo' : (2 : ℝ) ^ 52 + 1 ≤ n := by exact_mod_cast hlo
  have hhi' : (n : ℝ) + 1 ≤ 2 ^ 53 := by exact_mod_cast hhi
  have hdown := le_units_roundUnits hx
  have hup := units_roundUnits_le hx
  rw [zpow_neg, ← div_eq_mul_inv] at *
  rw [div_right_comm, ← sub_div, div_le_iff₀ hP] at hdown
  rw [div_right_comm, ← add_div, le_div_iff₀ hP] at hup
  obtain ⟨hnear, hnear'⟩ := sqrt_near hlo' hhi' hh hdown hup
  have hshift : ShiftOf s √(units (roundUnits (n * 2 ^ s * (n * 2 ^ s) / 2 ^ (1074 : ℤ))) *
      2 ^ (1074 : ℤ)) := by
    refine ⟨Real.sqrt_nonneg _, Or.inr (le_trans ?_ hnear.le), hnear'.trans_le ?_⟩
    · exact mul_le_mul_of_nonneg_right (by linarith) hh.le
    · exact mul_le_mul_of_nonneg_right (by linarith) hh.le
  rw [hshift.roundUnits_eq, nearestEven_eq]
  · rw [lt_div_iff₀ hh]
    exact hnear
  · rw [div_lt_iff₀ hh]
    exact hnear'

end Gazetteer
