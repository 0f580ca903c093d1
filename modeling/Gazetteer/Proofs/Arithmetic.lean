import Mathlib.Analysis.SpecialFunctions.Sqrt
import Gazetteer.Proofs.Decoding

/-!
# What the operations give

Each operation on numbers gives the magnitude nearest to the exact result, cut off at the infinity.
Distances are computed from finite coordinates, so the operations are described for finite numbers,
and for infinities where a sum of squares may overflow.
-/

namespace Gazetteer

open Float.Model Float.Model.UnpackedFloat

/-! ## Significands that are whole numbers -/

theorem log2_shiftLeft {m : ℕ} (hm : 0 < m) (k : ℕ) : (m <<< k).log2 = m.log2 + k := by
  have hpos : 0 < m <<< k := Nat.shiftLeft_pos_iff.2 hm
  refine (Nat.log2_eq_iff hpos.ne').2 ⟨two_pow_le_shiftLeft hm k, ?_⟩
  rw [Nat.shiftLeft_eq, Nat.add_right_comm, Nat.pow_add _ (m.log2 + 1)]
  exact Nat.mul_lt_mul_of_pos_right Nat.lt_log2_self (Nat.two_pow_pos k)

/-- A whole significand is rounded to the nearest magnitude. -/
theorem isMagnitude_round {sign : Sign} {m : ℕ} {e : ℤ} (hm : 0 < m) :
    IsMagnitude sign (roundUnits (m * 2 ^ (e + 1074))) (UnpackedFloat.round .binary64 sign m e) := by
  obtain ⟨k, hk⟩ : ∃ k : ℕ, (e - Format.binary64.targetExponent (totalExponent m e)).toNat = k :=
    ⟨_, rfl⟩
  have htotal : totalExponent (m <<< k) (e - k) = totalExponent m e := by
    rw [totalExponent, totalExponent, log2_shiftLeft hm]
    push_cast
    ring
  have hvalue : (m : ℝ) * 2 ^ (e + 1074) = (m <<< k : ℕ) * 2 ^ (e - k + 1074) :=
    (cast_shiftLeft_mul m (by ring)).symm
  rw [UnpackedFloat.round, decreaseExponent, hk, hvalue]
  refine isMagnitude_roundWithAccuracy (describes_exact _) ?_
  rw [htotal]
  omega

/-- A signed significand is rounded to the nearest magnitude. -/
theorem magnitude_normalize (d e : ℤ) (z : Sign) :
    (Binary64.ofUnpacked (UnpackedFloat.normalize .binary64 d e z)).magnitude =
      min Binary64.infiniteMagnitude (roundUnits (|(d : ℝ)| * 2 ^ (e + 1074))) := by
  unfold UnpackedFloat.normalize
  rcases Int.lt_trichotomy d 0 with h | h | h
  · rw [Int.compare_eq_lt.2 h]
    have habs : |(d : ℝ)| = ((-d).toNat : ℕ) := by
      rw [abs_of_neg (by exact_mod_cast h)]
      have : (((-d).toNat : ℤ) : ℝ) = ((-d : ℤ) : ℝ) := by rw [Int.toNat_of_nonneg (by omega)]
      push_cast at this
      exact this.symm
    rw [habs]
    exact (Binary64.magnitude_ofUnpacked (isMagnitude_round (by omega))).1
  · rw [h, Int.compare_eq_eq.2 rfl]
    have hzero := (Binary64.magnitude_ofUnpacked (@IsMagnitude.zero z)).1
    simpa using hzero
  · rw [Int.compare_eq_gt.2 h]
    have habs : |(d : ℝ)| = (d.toNat : ℕ) := by
      rw [abs_of_pos (by exact_mod_cast h)]
      have : ((d.toNat : ℤ) : ℝ) = (d : ℝ) := by rw [Int.toNat_of_nonneg h.le]
      exact_mod_cast this.symm
    rw [habs]
    exact (Binary64.magnitude_ofUnpacked (isMagnitude_round (by omega))).1

/-! ## Numbers in units -/

/-- A sign as a factor. -/
def signFactor (s : Sign) : ℝ := if isMinus s then -1 else 1

namespace Binary64

variable {x y : Binary64}

/-- The number of units that a word stands for, with its sign; an infinity stands for the first
number beyond the format. -/
noncomputable def signedUnits (x : Binary64) : ℝ := signFactor x.sign * units x.magnitude

theorem abs_signedUnits (x : Binary64) : |x.signedUnits| = units x.magnitude := by
  have hfactor : |signFactor x.sign| = 1 := by
    unfold signFactor
    split <;> norm_num
  rw [signedUnits, abs_mul, hfactor, one_mul, abs_of_nonneg (Nat.cast_nonneg _)]

theorem signedUnits_of_magnitude_eq_zero (h : x.magnitude = 0) : x.signedUnits = 0 := by
  rw [signedUnits, h]
  simp

/-- A magnitude on the grid is not rounded. -/
theorem roundUnits_abs_signedUnits (x : Binary64) : roundUnits |x.signedUnits| = x.magnitude := by
  rw [abs_signedUnits, roundUnits_units]

/-- A finite word is a zero, or a significand with a shift. -/
theorem unpacked_cases (h : x.isFinite = true) :
    (x.unpacked = .zero x.sign ∧ x.magnitude = 0) ∨
      ∃ (m s : ℕ) (pos : 0 < m), m < 2 ^ 53 ∧ (s = 0 ∨ 2 ^ 52 ≤ m) ∧
        x.magnitude = m + s * 2 ^ 52 ∧ units x.magnitude = m * 2 ^ s ∧
        x.unpacked = .finite x.sign m (s - 1074) pos := by
  have hx := isMagnitude_unpacked h
  generalize x.magnitude = k at hx ⊢
  generalize x.unpacked = f at hx ⊢
  cases hx with
  | zero => exact Or.inl ⟨rfl, rfl⟩
  | @finite m s pos lt normal =>
    exact Or.inr ⟨m, s, pos, lt, normal, rfl, units_add_mul lt.le normal, rfl⟩

/-! ## Differences and sums -/

/-- A significand written with a smaller exponent. -/
theorem shiftLeft_mul_zpow (m s : ℕ) {e : ℤ} (he : e ≤ s - 1074) :
    (((m <<< ((s : ℤ) - 1074 - e).toNat : ℕ) : ℤ) : ℝ) * 2 ^ (e + 1074) = m * 2 ^ s := by
  have hexp : (((s : ℤ) - 1074 - e).toNat : ℤ) + (e + 1074) = s := by omega
  rw [Int.cast_natCast, cast_shiftLeft_mul m hexp, zpow_natCast]

theorem cast_apply (s : Sign) (n : ℤ) : ((s.apply n : ℤ) : ℝ) = signFactor s * n := by
  cases s <;> simp [Sign.apply, signFactor, isMinus]

theorem magnitude_ofUnpacked_zero (s : Sign) : (ofUnpacked (.zero s)).magnitude = 0 := by
  simpa using (magnitude_ofUnpacked (@IsMagnitude.zero s)).1

/-- **A difference is rounded to the nearest magnitude.** -/
theorem magnitude_sub (hx : x.isFinite = true) (hy : y.isFinite = true) :
    (x - y).magnitude =
      min infiniteMagnitude (roundUnits |x.signedUnits - y.signedUnits|) := by
  rw [sub_eq]
  obtain ⟨hxu, hxm⟩ | ⟨m, s, hm, hml, hms, hxm, hxv, hxu⟩ := unpacked_cases hx
  · rw [signedUnits_of_magnitude_eq_zero hxm, zero_sub, abs_neg, roundUnits_abs_signedUnits]
    obtain ⟨hyu, hym⟩ | ⟨n, t, hn, hnl, hnt, hym, -, hyu⟩ := unpacked_cases hy
    · rw [hxu, hyu, hym]
      unfold UnpackedFloat.sub
      dsimp only
      split <;> exact magnitude_ofUnpacked_zero _
    · rw [hxu, hyu, hym]
      exact (magnitude_ofUnpacked (.finite hn hnl hnt)).1
  · obtain ⟨hyu, hym⟩ | ⟨n, t, hn, -, -, -, hyv, hyu⟩ := unpacked_cases hy
    · rw [signedUnits_of_magnitude_eq_zero hym, sub_zero, roundUnits_abs_signedUnits, hxu, hyu, hxm]
      exact (magnitude_ofUnpacked (.finite hm hml hms)).1
    · rw [hxu, hyu]
      unfold UnpackedFloat.sub decreaseExponent
      dsimp only
      rw [magnitude_normalize]
      congr 2
      rw [Int.cast_sub, cast_apply, cast_apply, ← abs_of_pos (zpow_pos two_pos _ : (0 : ℝ) < _),
        ← abs_mul, sub_mul, mul_assoc, mul_assoc, shiftLeft_mul_zpow m s (min_le_left _ _),
        shiftLeft_mul_zpow n t (min_le_right _ _), signedUnits, signedUnits, hxv, hyv]
      push_cast
      rfl

/-- Nothing is lost when zero is subtracted. -/
theorem magnitude_sub_zero (hx : x.isFinite = true) : (x - .zero).magnitude = x.magnitude := by
  rw [magnitude_sub hx (by decide), signedUnits_of_magnitude_eq_zero (x := .zero) (by decide),
    sub_zero, roundUnits_abs_signedUnits]
  exact min_eq_right (of_decide_eq_true hx).le

/-- A number without a minus. -/
structure IsNonneg (x : Binary64) : Prop where
  negative : x.negative = false
  le : x.magnitude ≤ infiniteMagnitude

theorem isNonneg_zero : Binary64.zero.IsNonneg := ⟨by decide, by decide⟩

theorem isNonneg_infinity : infinity.IsNonneg := ⟨by decide, by decide⟩

namespace IsNonneg

theorem of_isFinite (h : x.isFinite = true) (hn : x.negative = false) : x.IsNonneg :=
  ⟨hn, (of_decide_eq_true h).le⟩

theorem sign (h : x.IsNonneg) : x.sign = .positive := by
  rw [Binary64.sign, h.negative]
  rfl

theorem not_nan (h : x.IsNonneg) : x.isNaN = false := decide_eq_false (Nat.not_lt.2 h.le)

/-- A number without a minus is finite, or it is the infinity. -/
theorem isFinite_or (h : x.IsNonneg) :
    x.isFinite = true ∨ x.magnitude = infiniteMagnitude :=
  h.le.lt_or_eq.imp_left decide_eq_true

theorem unpacked_of_magnitude_eq (h : x.IsNonneg) (hx : x.magnitude = infiniteMagnitude) :
    x.unpacked = .infinity .positive :=
  h.sign ▸ Binary64.unpacked_of_magnitude_eq hx

/-- A number without a minus is a zero, a significand or the infinity. -/
theorem unpacked_cases (h : x.IsNonneg) : x.unpacked = .zero .positive ∨
    (∃ m e pos, x.unpacked = .finite .positive m e pos) ∨ x.unpacked = .infinity .positive := by
  rcases h.isFinite_or with hf | hi
  · obtain ⟨hx, -⟩ | ⟨m, s, hm, -, -, -, -, hx⟩ := Binary64.unpacked_cases hf
    · exact Or.inl (h.sign ▸ hx)
    · exact Or.inr (Or.inl ⟨m, _, hm, h.sign ▸ hx⟩)
  · exact Or.inr (Or.inr (h.unpacked_of_magnitude_eq hi))

/-- A sum with the infinity, on either side, is the infinity. -/
theorem add_infinity (h : x.IsNonneg) :
    UnpackedFloat.add .binary64 x.unpacked (.infinity .positive) = .infinity .positive ∧
      UnpackedFloat.add .binary64 (.infinity .positive) x.unpacked = .infinity .positive := by
  obtain hx | ⟨m, e, hm, hx⟩ | hx := h.unpacked_cases
  · rw [hx]
    exact ⟨rfl, rfl⟩
  · rw [hx]
    exact ⟨rfl, rfl⟩
  · rw [hx]
    exact ⟨rfl, rfl⟩

end IsNonneg

/-- What is rounded from beyond the format is cut off at the infinity. -/
theorem min_roundUnits_of_le {z : ℝ} (h : (units infiniteMagnitude : ℝ) ≤ z) :
    min infiniteMagnitude (roundUnits z) = infiniteMagnitude :=
  min_eq_left (le_roundUnits h)

theorem magnitude_ofUnpacked_positive_infinity :
    (ofUnpacked (.infinity .positive)).magnitude = infiniteMagnitude ∧
      (ofUnpacked (.infinity .positive)).negative = false :=
  magnitude_ofUnpacked_infinity .positive

theorem isMagnitude_add {m s n t : ℕ} (hm : 0 < m) (hn : 0 < n) :
    IsMagnitude .positive (roundUnits (m * 2 ^ s + n * 2 ^ t))
      (UnpackedFloat.add .binary64 (.finite .positive m (s - 1074) hm)
        (.finite .positive n (t - 1074) hn)) := by
  rw [← shiftLeft_mul_zpow m s (min_le_left _ ((t : ℤ) - 1074)),
    ← shiftLeft_mul_zpow n t (min_le_right ((s : ℤ) - 1074) _), ← add_mul]
  unfold UnpackedFloat.add decreaseExponent
  dsimp only [Sign.apply]
  generalize min ((s : ℤ) - 1074) ((t : ℤ) - 1074) = e
  have hm' : 0 < m <<< ((s : ℤ) - 1074 - e).toNat := Nat.shiftLeft_pos_iff.2 hm
  generalize m <<< ((s : ℤ) - 1074 - e).toNat = a at hm'
  generalize n <<< ((t : ℤ) - 1074 - e).toNat = b
  have hsum : ((a : ℤ) + (b : ℤ)).toNat = a + b := by omega
  have hround : IsMagnitude .positive (roundUnits ((a + b : ℕ) * 2 ^ (e + 1074)))
      (UnpackedFloat.round .binary64 .positive (a + b) e) := isMagnitude_round (by omega)
  rw [UnpackedFloat.normalize, Int.compare_eq_gt.2 (by omega)]
  dsimp only
  rw [hsum]
  push_cast at hround ⊢
  exact hround

/-- **A sum of numbers without a minus is rounded to the nearest magnitude.** -/
theorem add_of_isNonneg (hx : x.IsNonneg) (hy : y.IsNonneg) :
    (x + y).magnitude =
        min infiniteMagnitude (roundUnits (units x.magnitude + units y.magnitude)) ∧
      (x + y).negative = false := by
  have hx0 : (0 : ℝ) ≤ units x.magnitude := Nat.cast_nonneg _
  have hy0 : (0 : ℝ) ≤ units y.magnitude := Nat.cast_nonneg _
  rw [add_eq]
  rcases hx.isFinite_or with hxf | hxi
  · rcases hy.isFinite_or with hyf | hyi
    · obtain ⟨hxu, hxm⟩ | ⟨m, s, hm, hml, hms, hxm, hxv, hxu⟩ := unpacked_cases hxf
      · obtain ⟨hyu, hym⟩ | ⟨n, t, hn, hnl, hnt, hym, -, hyu⟩ := unpacked_cases hyf
        · rw [hxu, hyu, hxm, hym, hx.sign, hy.sign, units_zero, Nat.cast_zero, zero_add,
            roundUnits_zero]
          exact magnitude_ofUnpacked .zero
        · rw [hxu, hyu, hxm, units_zero, Nat.cast_zero, zero_add, roundUnits_units, hym, hy.sign]
          exact magnitude_ofUnpacked (.finite hn hnl hnt)
      · obtain ⟨hyu, hym⟩ | ⟨n, t, hn, -, -, -, hyv, hyu⟩ := unpacked_cases hyf
        · rw [hxu, hyu, hym, units_zero, Nat.cast_zero, add_zero, roundUnits_units, hxm, hx.sign]
          exact magnitude_ofUnpacked (.finite hm hml hms)
        · rw [hxu, hyu, hxv, hyv, hx.sign, hy.sign, Nat.cast_mul, Nat.cast_mul, Nat.cast_pow,
            Nat.cast_pow, Nat.cast_ofNat]
          exact magnitude_ofUnpacked (isMagnitude_add hm hn)
    · rw [hy.unpacked_of_magnitude_eq hyi, hx.add_infinity.1, hyi,
        min_roundUnits_of_le (le_add_of_nonneg_left hx0)]
      exact magnitude_ofUnpacked_positive_infinity
  · rw [hx.unpacked_of_magnitude_eq hxi, hy.add_infinity.2, hxi,
      min_roundUnits_of_le (le_add_of_nonneg_right hy0)]
    exact magnitude_ofUnpacked_positive_infinity

/-- Nothing is lost when zero is added. -/
theorem add_zero_of_isNonneg (hx : x.IsNonneg) : x + .zero = x := by
  obtain ⟨hm, hn⟩ := add_of_isNonneg hx isNonneg_zero
  refine ext_magnitude (hn.trans hx.negative.symm) ?_
  rw [hm, show Binary64.zero.magnitude = 0 by decide, units_zero, Nat.cast_zero, add_zero,
    roundUnits_units]
  exact min_eq_right hx.le

/-! ## Products -/

theorem isMinus_mul (a b : Sign) : isMinus (a * b) = (isMinus a != isMinus b) := by
  cases a <;> cases b <;> rfl

theorem isMinus_div (a b : Sign) : isMinus (a / b) = (isMinus a != isMinus b) := by
  cases a <;> cases b <;> rfl

theorem isMagnitude_mul {sign : Sign} {m s n t : ℕ} (hm : 0 < m) (hn : 0 < n)
    (hms : s = 0 ∨ 2 ^ 52 ≤ m) (hnt : t = 0 ∨ 2 ^ 52 ≤ n) :
    IsMagnitude sign (roundUnits (m * 2 ^ s * (n * 2 ^ t) * 2 ^ (-1074 : ℤ)))
      (roundWithAccuracy .binary64 sign (m * n) ((s : ℤ) - 1074 + ((t : ℤ) - 1074)) .exact) := by
  have hvalue : (m : ℝ) * 2 ^ s * (n * 2 ^ t) * 2 ^ (-1074 : ℤ) =
      (m * n : ℕ) * 2 ^ ((s : ℤ) - 1074 + ((t : ℤ) - 1074) + 1074) := by
    have hpow : (2 : ℝ) ^ ((s : ℤ) - 1074 + ((t : ℤ) - 1074) + 1074) =
        2 ^ s * 2 ^ t * 2 ^ (-1074 : ℤ) := by
      rw [← pow_add]
      exact (two_pow_mul_zpow (by push_cast; ring)).symm
    rw [hpow]
    push_cast
    ring
  rw [hvalue]
  refine isMagnitude_roundWithAccuracy (describes_exact _) ?_
  rw [targetExponent_eq, totalExponent]
  have hlog : (s = 0 ∧ t = 0) ∨ 52 ≤ (m * n).log2 := by
    have hpos : m * n ≠ 0 := (Nat.mul_pos hm hn).ne'
    rcases hms with h | h
    · rcases hnt with h' | h'
      · exact Or.inl ⟨h, h'⟩
      · exact Or.inr ((Nat.le_log2 hpos).2 (h'.trans (Nat.le_mul_of_pos_left n hm)))
    · exact Or.inr ((Nat.le_log2 hpos).2 (h.trans (Nat.le_mul_of_pos_right m hn)))
  omega

/-- **A product is rounded to the nearest magnitude.** -/
theorem mul_of_isFinite (hx : x.isFinite = true) (hy : y.isFinite = true) :
    (x * y).magnitude = min infiniteMagnitude
        (roundUnits (units x.magnitude * units y.magnitude * 2 ^ (-1074 : ℤ))) ∧
      (x * y).negative = (x.negative != y.negative) := by
  rw [mul_eq, ← isMinus_sign x, ← isMinus_sign y, ← isMinus_mul]
  obtain ⟨hxu, hxm⟩ | ⟨m, s, hm, -, hms, -, hxv, hxu⟩ := Binary64.unpacked_cases hx
  · rw [hxu, hxm, units_zero, Nat.cast_zero, zero_mul, zero_mul, roundUnits_zero]
    obtain ⟨hyu, -⟩ | ⟨n, t, hn, -, -, -, -, hyu⟩ := Binary64.unpacked_cases hy
    · rw [hyu]
      exact magnitude_ofUnpacked .zero
    · rw [hyu]
      exact magnitude_ofUnpacked .zero
  · obtain ⟨hyu, hym⟩ | ⟨n, t, hn, -, hnt, -, hyv, hyu⟩ := Binary64.unpacked_cases hy
    · rw [hxu, hyu, hym, units_zero, Nat.cast_zero, mul_zero, zero_mul, roundUnits_zero]
      exact magnitude_ofUnpacked .zero
    · rw [hxu, hyu, hxv, hyv, Nat.cast_mul, Nat.cast_mul, Nat.cast_pow, Nat.cast_pow,
        Nat.cast_ofNat]
      exact magnitude_ofUnpacked (isMagnitude_mul hm hn hms hnt)

theorem two_pow_le_units_infiniteMagnitude : 2 ^ 1074 ≤ units infiniteMagnitude := by
  have hbinade : 2 ^ 52 * 2 ^ 1022 ≤ units (2 ^ 52 + 1022 * 2 ^ 52) :=
    (units_add_mul (by norm_num) (Or.inr le_rfl)).ge
  have hle : 2 ^ 52 + 1022 * 2 ^ 52 ≤ infiniteMagnitude := by decide
  calc 2 ^ 1074 = 2 ^ 52 * 2 ^ 1022 := (pow_add 2 52 1022)
    _ ≤ units (2 ^ 52 + 1022 * 2 ^ 52) := hbinade
    _ ≤ units infiniteMagnitude := units_le_units.2 hle

/-- The square of a number has no minus, and is rounded to the nearest magnitude. -/
theorem mul_self (hx : x.isNaN = false) :
    (x * x).magnitude = min infiniteMagnitude
        (roundUnits (units x.magnitude * units x.magnitude * 2 ^ (-1074 : ℤ))) ∧
      (x * x).negative = false := by
  have hle : x.magnitude ≤ infiniteMagnitude := Nat.not_lt.1 (of_decide_eq_false hx)
  rcases hle.lt_or_eq with h | h
  · have hmul := mul_of_isFinite (x := x) (y := x) (decide_eq_true h) (decide_eq_true h)
    rwa [bne_self_eq_false] at hmul
  · have hinf : x * x = ofUnpacked (.infinity .positive) := by
      rw [mul_eq, Binary64.unpacked_of_magnitude_eq h]
      cases x.sign <;> rfl
    rw [hinf, min_roundUnits_of_le]
    · exact magnitude_ofUnpacked_positive_infinity
    · rw [h, mul_assoc]
      refine le_mul_of_one_le_right (Nat.cast_nonneg _) ?_
      have hle : ((2 : ℝ) ^ (1074 : ℤ)) ≤ units infiniteMagnitude := by
        exact_mod_cast two_pow_le_units_infiniteMagnitude
      rw [zpow_neg, ← div_eq_mul_inv, one_le_div (zpow_pos two_pos _)]
      exact hle

end Binary64

end Gazetteer
