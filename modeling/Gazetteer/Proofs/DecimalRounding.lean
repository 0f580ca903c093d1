import Mathlib.Algebra.Order.Floor.Semifield
import Gazetteer.Number.Shortest
import Gazetteer.Proofs.Grid

/-!
# What a decimal is rounded to

Ratios and decimals are rounded in exact arithmetic: a power of two brings a ratio to the size of a
significand, and the significand is rounded. The result is the magnitude that `roundUnits` gives for
the real number. A decimal far outside the format, whose power of ten is not computed, has the same
result as if it were.
-/

namespace Gazetteer

/-! ## Scaling -/

section
variable {den : ℕ} (hden : 0 < den)
include hden

/-- A ratio is scaled by a power of any base in the numerator or in the denominator. -/
theorem scale_spec {b : ℕ} (hb : 0 < b) (num : ℕ) (q : ℤ) {r : ℕ × ℕ}
    (hr : r = if 0 ≤ q then (num * Nat.pow b q.toNat, den) else (num, den * Nat.pow b (-q).toNat)) :
    0 < r.2 ∧ (r.1 : ℝ) / r.2 = num / den * (b : ℝ) ^ q := by
  subst hr
  split
  · rename_i hq
    refine ⟨hden, ?_⟩
    have hpow : (b : ℝ) ^ q = (b : ℝ) ^ q.toNat := by
      rw [← zpow_natCast, Int.toNat_of_nonneg hq]
    rw [hpow, Nat.pow_eq, Nat.cast_mul, Nat.cast_pow, div_mul_eq_mul_div]
  · rename_i hq
    refine ⟨Nat.mul_pos hden (Nat.pow_pos hb), ?_⟩
    have hpow : (b : ℝ) ^ q = ((b : ℝ) ^ (-q).toNat)⁻¹ := by
      rw [← zpow_natCast, ← zpow_neg]
      congr 1
      omega
    rw [hpow, Nat.pow_eq, Nat.cast_mul, Nat.cast_pow, div_mul_eq_div_div, div_eq_mul_inv (_ / _)]

theorem scaleByTwo_spec (num : ℕ) (q : ℤ) : 0 < (scaleByTwo num den q).2 ∧
    ((scaleByTwo num den q).1 : ℝ) / (scaleByTwo num den q).2 = num / den * 2 ^ q := by
  exact_mod_cast scale_spec hden two_pos num q rfl

theorem scaleByTen_spec (num : ℕ) (s : ℤ) : 0 < (scaleByTen num den s).2 ∧
    ((scaleByTen num den s).1 : ℝ) / (scaleByTen num den s).2 = num / den * 10 ^ s := by
  exact_mod_cast scale_spec hden (by decide : 0 < 10) num s rfl

end

/-! ## Exponents -/

/-- The exponent of a ratio tells between which powers of two it lies. -/
theorem binaryExponent_spec {num den : ℕ} (hnum : 0 < num) (hden : 0 < den) :
    (2 : ℝ) ^ binaryExponent num den ≤ num / den ∧
      (num : ℝ) / den < 2 ^ (binaryExponent num den + 1) := by
  have hden' : (0 : ℝ) < den := Nat.cast_pos.2 hden
  obtain ⟨k, hk⟩ : ∃ k : ℤ, (num.log2 : ℤ) - den.log2 = k := ⟨_, rfl⟩
  have hnumLo : (2 : ℝ) ^ num.log2 ≤ num := by exact_mod_cast Nat.log2_self_le hnum.ne'
  have hnumHi : (num : ℝ) < 2 ^ (num.log2 + 1) := by exact_mod_cast Nat.lt_log2_self
  have hdenLo : (2 : ℝ) ^ den.log2 ≤ den := by exact_mod_cast Nat.log2_self_le hden.ne'
  have hdenHi : (den : ℝ) < 2 ^ (den.log2 + 1) := by exact_mod_cast Nat.lt_log2_self
  have hhi : (num : ℝ) / den < 2 ^ (k + 1) := by
    rw [div_lt_iff₀ hden']
    calc (num : ℝ) < 2 ^ (num.log2 + 1) := hnumHi
      _ = 2 ^ (k + 1) * 2 ^ den.log2 := by
          rw [← zpow_natCast, ← zpow_natCast, ← zpow_add₀ two_ne_zero]
          congr 1
          push_cast
          omega
      _ ≤ 2 ^ (k + 1) * den := mul_le_mul_of_nonneg_left hdenLo (zpow_pos two_pos _).le
  have hlo : (2 : ℝ) ^ (k - 1) ≤ num / den := by
    rw [le_div_iff₀ hden']
    calc (2 : ℝ) ^ (k - 1) * den ≤ 2 ^ (k - 1) * 2 ^ (den.log2 + 1) :=
          mul_le_mul_of_nonneg_left hdenHi.le (zpow_pos two_pos _).le
      _ = 2 ^ num.log2 := by
          rw [← zpow_natCast, ← zpow_natCast, ← zpow_add₀ two_ne_zero]
          congr 1
          push_cast
          omega
      _ ≤ num := hnumLo
  obtain ⟨hpos, hscale⟩ := scaleByTwo_spec hden num (-k)
  unfold binaryExponent
  dsimp only
  rw [hk]
  generalize scaleByTwo num den (-k) = r at hpos hscale
  obtain ⟨n, d⟩ := r
  dsimp only at hpos hscale ⊢
  have hd : (0 : ℝ) < d := Nat.cast_pos.2 hpos
  have hsplit : (num : ℝ) / den = n / d * 2 ^ k := by
    rw [hscale, mul_assoc, ← zpow_add₀ two_ne_zero, neg_add_cancel, zpow_zero, mul_one]
  have hpow : (0 : ℝ) < 2 ^ k := zpow_pos two_pos _
  split
  · rename_i hle
    refine ⟨?_, hhi⟩
    rw [hsplit]
    exact le_mul_of_one_le_left hpow.le ((one_le_div hd).2 (Nat.cast_le.2 hle))
  · rename_i hlt
    refine ⟨hlo, ?_⟩
    rw [hsplit, sub_add_cancel]
    exact mul_lt_of_lt_one_left hpow ((div_lt_one hd).2 (Nat.cast_lt.2 (by omega)))

theorem digitCount_spec {n : ℕ} (hn : 0 < n) :
    10 ^ (digitCount n - 1) ≤ n ∧ n < 10 ^ digitCount n ∧ 0 < digitCount n := by
  induction n using digitCount.induct with
  | case1 n h =>
    rw [digitCount, if_pos h]
    omega
  | case2 n h ih =>
    obtain ⟨hlo, hhi, hpos⟩ := ih (by omega)
    rw [digitCount, if_neg h, Nat.add_sub_cancel]
    obtain ⟨c, hc⟩ : ∃ c, digitCount (n / 10) = c + 1 := ⟨digitCount (n / 10) - 1, by omega⟩
    rw [hc, Nat.add_sub_cancel] at hlo
    rw [hc] at hhi ⊢
    rw [pow_succ] at hhi
    rw [pow_succ, pow_succ]
    omega

/-- The exponent of a ratio tells between which powers of ten it lies. -/
theorem decimalExponent_spec {num den : ℕ} (hnum : 0 < num) (hden : 0 < den) :
    (10 : ℝ) ^ decimalExponent num den ≤ num / den ∧
      (num : ℝ) / den < 10 ^ (decimalExponent num den + 1) := by
  have hnum' : (0 : ℝ) < num := Nat.cast_pos.2 hnum
  have hden' : (0 : ℝ) < den := Nat.cast_pos.2 hden
  unfold decimalExponent
  split
  · rename_i hle
    obtain ⟨hlo, hhi, hpos⟩ := digitCount_spec (Nat.div_pos hle hden)
    generalize digitCount (num / den) = c at *
    have hexp : (c : ℤ) - 1 = (c - 1 : ℕ) := by omega
    have hlo' : 10 ^ (c - 1) * den ≤ num := (Nat.le_div_iff_mul_le hden).1 hlo
    have hhi' : num < 10 ^ c * den := (Nat.div_lt_iff_lt_mul hden).1 hhi
    rw [sub_add_cancel, hexp, zpow_natCast, zpow_natCast, le_div_iff₀ hden', div_lt_iff₀ hden']
    exact_mod_cast And.intro hlo' hhi'
  · rename_i hlt
    obtain ⟨hlo, hhi, hpos⟩ := digitCount_spec (Nat.div_pos (Nat.le_of_not_le hlt) hnum)
    generalize digitCount (den / num) = c at *
    have hhi' : den < num * 10 ^ c := by
      rw [mul_comm]
      exact (Nat.div_lt_iff_lt_mul hnum).1 hhi
    have hlo' : num * 10 ^ (c - 1) ≤ den := by
      rw [mul_comm]
      exact (Nat.le_div_iff_mul_le hnum).1 hlo
    have hup : ((10 : ℝ) ^ (-(c : ℤ))) < num / den := by
      rw [zpow_neg, zpow_natCast, inv_lt_iff_one_lt_mul₀ (by positivity), div_mul_eq_mul_div,
        one_lt_div hden']
      exact_mod_cast hhi'
    have hdown : (num : ℝ) / den ≤ 10 ^ (-((c : ℤ) - 1)) := by
      have hexp : (c : ℤ) - 1 = (c - 1 : ℕ) := by omega
      rw [hexp, zpow_neg, zpow_natCast, div_le_iff₀ hden', inv_mul_eq_div,
        le_div_iff₀ (by positivity)]
      exact_mod_cast hlo'
    dsimp only
    split
    · rename_i hreach
      have heq : num * 10 ^ (c - 1) = den := Nat.le_antisymm hlo' hreach
      refine ⟨?_, hdown.trans_lt (zpow_lt_zpow_right₀ (by norm_num) (by omega))⟩
      have hexp : (c : ℤ) - 1 = (c - 1 : ℕ) := by omega
      rw [hexp, zpow_neg, zpow_natCast, ← heq]
      push_cast
      rw [div_mul_eq_div_div, div_self hnum'.ne', one_div]
    · rename_i hshort
      refine ⟨hup.le, ?_⟩
      have hexp : -(c : ℤ) + 1 = -((c - 1 : ℕ) : ℤ) := by omega
      rw [hexp, zpow_neg, zpow_natCast, div_lt_iff₀ hden', inv_mul_eq_div,
        lt_div_iff₀ (by positivity)]
      exact_mod_cast Nat.lt_of_not_le hshort

/-! ## Ratios -/

/-- A quotient of whole numbers is rounded as a real number. -/
theorem roundHalfEven_eq (num : ℕ) {den : ℕ} (hden : 0 < den) :
    roundHalfEven num den = nearestEven ((num : ℝ) / den) := by
  have hden' : (0 : ℝ) < den := Nat.cast_pos.2 hden
  have hfrac : (num : ℝ) / den - (num / den : ℕ) = (num % den : ℕ) / den := by
    have hsplit : (num : ℝ) = den * (num / den : ℕ) + (num % den : ℕ) := by
      exact_mod_cast (Nat.div_add_mod num den).symm
    rw [eq_div_iff hden'.ne', sub_mul, div_mul_cancel₀ _ hden'.ne']
    linarith
  have hlow : ((num % den : ℕ) : ℝ) / den < 1 / 2 ↔ 2 * (num % den) < den := by
    rw [div_lt_div_iff₀ hden' two_pos, one_mul, mul_comm]
    exact_mod_cast Iff.rfl
  have hhigh : 1 / 2 < ((num % den : ℕ) : ℝ) / den ↔ den < 2 * (num % den) := by
    rw [div_lt_div_iff₀ two_pos hden', one_mul, mul_comm _ (2 : ℝ)]
    exact_mod_cast Iff.rfl
  unfold roundHalfEven nearestEven
  rw [Nat.floor_div_eq_div, hfrac]
  simp only [hlow, hhigh]

namespace BinaryFormat

/-- **A ratio is rounded to the nearest magnitude**, cut off at the infinity. -/
theorem ofRatio_eq (num : ℕ) {den : ℕ} (hden : 0 < den) : binary64.ofRatio num den =
    min binary64.infinity (roundUnits ((num : ℝ) / den * 2 ^ (1074 : ℤ))) := by
  unfold ofRatio
  split
  · rename_i h
    rw [h, Nat.cast_zero, zero_div, zero_mul, roundUnits_zero, Nat.min_zero]
  · rename_i h
    obtain ⟨hlo, hhi⟩ := binaryExponent_spec (Nat.pos_of_ne_zero h) hden
    obtain ⟨q, hq⟩ : ∃ q, max (binaryExponent num den - (52 : ℕ)) (-1074) = q := ⟨_, rfl⟩
    obtain ⟨s, hs⟩ : ∃ s : ℕ, q = s - 1074 := ⟨(q + 1074).toNat, by omega⟩
    obtain ⟨hpos, hscale⟩ := scaleByTwo_spec hden num (-q)
    have hbits : binary64.fractionBits = 52 := rfl
    have hmin : binary64.minExponent = -1074 := rfl
    have hshifts : (q - -1074).toNat = s := by omega
    simp only [hbits, hmin, hq, hshifts]
    rw [roundHalfEven_eq _ hpos, hscale]
    -- the power of two taken out is the shift of the ratio in units
    have hdiv : (num : ℝ) / den * 2 ^ (-q) = num / den * 2 ^ (1074 : ℤ) / 2 ^ s := by
      rw [mul_div_assoc, ← zpow_natCast, ← zpow_sub₀ two_ne_zero]
      congr 2
      omega
    have hshift : ShiftOf s ((num : ℝ) / den * 2 ^ (1074 : ℤ)) := by
      have hunit : (0 : ℝ) < 2 ^ (1074 : ℤ) := zpow_pos two_pos _
      refine ⟨by positivity, ?_, ?_⟩
      · rcases Nat.eq_zero_or_pos s with hs0 | hs0
        · exact Or.inl hs0
        · refine Or.inr ?_
          calc (2 : ℝ) ^ 52 * 2 ^ s = 2 ^ binaryExponent num den * 2 ^ (1074 : ℤ) := by
                rw [← zpow_natCast, ← zpow_natCast, ← zpow_add₀ two_ne_zero,
                  ← zpow_add₀ two_ne_zero]
                congr 1
                push_cast
                omega
            _ ≤ num / den * 2 ^ (1074 : ℤ) := mul_le_mul_of_nonneg_right hlo hunit.le
      · calc (num : ℝ) / den * 2 ^ (1074 : ℤ)
            < 2 ^ (binaryExponent num den + 1) * 2 ^ (1074 : ℤ) := mul_lt_mul_of_pos_right hhi hunit
          _ = 2 ^ (binaryExponent num den + 1 + 1074) := (zpow_add₀ two_ne_zero _ _).symm
          _ ≤ 2 ^ ((53 : ℤ) + s) := zpow_le_zpow_right₀ one_le_two (by omega)
          _ = 2 ^ 53 * 2 ^ s := by
              rw [zpow_add₀ two_ne_zero, zpow_natCast]
              norm_num
    rw [hdiv, hshift.roundUnits_eq, Nat.add_comm]
    rfl

/-! ## Decimals -/

theorem units_infinity : units binary64.infinity = 2 ^ 1024 * 2 ^ 1074 := by
  have hinf : binary64.infinity = 2 ^ 52 + 2046 * 2 ^ 52 := rfl
  rw [hinf, units_add_mul (by norm_num) (Or.inr le_rfl), ← pow_add, ← pow_add]

/-- A decimal lies between two powers of ten. -/
theorem decimal_bounds {digits : ℕ} (h : 0 < digits) (exponent : ℤ) :
    (10 : ℝ) ^ ((digitCount digits : ℤ) + exponent - 1) ≤ digits * 10 ^ exponent ∧
      (digits : ℝ) * 10 ^ exponent < 10 ^ ((digitCount digits : ℤ) + exponent) := by
  obtain ⟨hlo, hhi, hpos⟩ := digitCount_spec h
  have hpow : (0 : ℝ) < 10 ^ exponent := zpow_pos (by norm_num) _
  have hlo' : (10 : ℝ) ^ (digitCount digits - 1) ≤ digits := by exact_mod_cast hlo
  have hhi' : (digits : ℝ) < 10 ^ digitCount digits := by exact_mod_cast hhi
  constructor
  · calc (10 : ℝ) ^ ((digitCount digits : ℤ) + exponent - 1)
        = 10 ^ (digitCount digits - 1) * 10 ^ exponent := by
          rw [← zpow_natCast, ← zpow_add₀ (by norm_num)]
          congr 1
          omega
      _ ≤ digits * 10 ^ exponent := mul_le_mul_of_nonneg_right hlo' hpow.le
  · calc (digits : ℝ) * 10 ^ exponent < 10 ^ digitCount digits * 10 ^ exponent :=
          mul_lt_mul_of_pos_right hhi' hpow
      _ = 10 ^ ((digitCount digits : ℤ) + exponent) := by
          rw [← zpow_natCast, ← zpow_add₀ (by norm_num)]

/-- What is less than half a unit is rounded to zero. -/
theorem roundUnits_of_lt_half {x : ℝ} (h0 : 0 ≤ x) (h : x < 1 / 2) : roundUnits x = 0 := by
  have hshift : ShiftOf 0 x := ⟨h0, Or.inl rfl, by norm_num; linarith⟩
  have hnearest : nearestEven x = 0 := nearestEven_eq (by norm_num; linarith) (by simpa using h)
  rw [hshift.roundUnits_eq, pow_zero, div_one, hnearest, Nat.zero_mul]

/-- Three doublings are less than a factor of ten. -/
theorem two_pow_le_ten_pow (n : ℕ) : (2 : ℝ) ^ (3 * n) ≤ 10 ^ n := by
  rw [pow_mul]
  exact pow_le_pow_left₀ (by norm_num) (by norm_num) n

theorem ten_zpow_mul_units_lt_half : (10 : ℝ) ^ (-400 : ℤ) * 2 ^ (1074 : ℤ) < 1 / 2 := by
  have hpow : (10 : ℝ) ^ (-400 : ℤ) ≤ 2 ^ (-1200 : ℤ) := by
    rw [zpow_neg, zpow_neg]
    exact inv_anti₀ (zpow_pos two_pos _) (two_pow_le_ten_pow 400)
  calc (10 : ℝ) ^ (-400 : ℤ) * 2 ^ (1074 : ℤ) ≤ 2 ^ (-1200 : ℤ) * 2 ^ (1074 : ℤ) :=
        mul_le_mul_of_nonneg_right hpow (zpow_pos two_pos _).le
    _ = 2 ^ (-126 : ℤ) := by
        rw [← zpow_add₀ two_ne_zero]
        norm_num
    _ < 2 ^ (-1 : ℤ) := zpow_lt_zpow_right₀ one_lt_two (by decide)
    _ = 1 / 2 := by norm_num

/-- **A decimal is rounded to the nearest magnitude**, cut off at the infinity. -/
theorem ofDecimal_eq (digits : ℕ) (exponent : ℤ) : binary64.ofDecimal digits exponent =
    min binary64.infinity (roundUnits (digits * 10 ^ exponent * 2 ^ (1074 : ℤ))) := by
  have hunit : (0 : ℝ) < 2 ^ (1074 : ℤ) := zpow_pos two_pos _
  unfold ofDecimal
  split
  · rename_i h
    rw [h, Nat.cast_zero, zero_mul, zero_mul, roundUnits_zero, Nat.min_zero]
  · rename_i h
    obtain ⟨hlo, hhi⟩ := decimal_bounds (Nat.pos_of_ne_zero h) exponent
    dsimp only
    split
    · rename_i hlarge
      have hpow : (2 : ℝ) ^ 1024 ≤ digits * 10 ^ exponent := by
        calc (2 : ℝ) ^ 1024 ≤ 2 ^ (3 * 400) := pow_le_pow_right₀ one_le_two (by decide)
          _ ≤ 10 ^ 400 := two_pow_le_ten_pow 400
          _ = 10 ^ (400 : ℤ) := (zpow_natCast 10 400).symm
          _ ≤ 10 ^ ((digitCount digits : ℤ) + exponent - 1) :=
              zpow_le_zpow_right₀ (by norm_num) (by omega)
          _ ≤ digits * 10 ^ exponent := hlo
      refine (min_eq_left (le_roundUnits ?_)).symm
      rw [units_infinity, Nat.cast_mul, Nat.cast_pow, Nat.cast_pow, Nat.cast_ofNat]
      exact mul_le_mul_of_nonneg_right hpow hunit.le
    · split
      · rename_i hsmall
        have hpow : (digits : ℝ) * 10 ^ exponent * 2 ^ (1074 : ℤ) < 1 / 2 := by
          calc (digits : ℝ) * 10 ^ exponent * 2 ^ (1074 : ℤ)
              < 10 ^ ((digitCount digits : ℤ) + exponent) * 2 ^ (1074 : ℤ) :=
                mul_lt_mul_of_pos_right hhi hunit
            _ ≤ 10 ^ (-400 : ℤ) * 2 ^ (1074 : ℤ) :=
                mul_le_mul_of_nonneg_right (zpow_le_zpow_right₀ (by norm_num) (by omega)) hunit.le
            _ < 1 / 2 := ten_zpow_mul_units_lt_half
        have hpos : (0 : ℝ) ≤ digits * 10 ^ exponent * 2 ^ (1074 : ℤ) :=
          mul_nonneg (mul_nonneg (Nat.cast_nonneg _) (zpow_pos (by norm_num) _).le) hunit.le
        rw [roundUnits_of_lt_half hpos hpow, Nat.min_zero]
      · obtain ⟨hpos, hscale⟩ := scaleByTen_spec one_pos digits exponent
        rw [ofRatio_eq _ hpos, hscale, Nat.cast_one, div_one]

end BinaryFormat
end Gazetteer
