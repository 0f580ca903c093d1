import Gazetteer.Proofs.Grid
import Gazetteer.Number.Binary64

/-!
# How floats are rounded

The machine operations compute a significand that is exact up to two bits: the bit behind it, and
whether anything follows that bit. These are enough to round to the nearest number, so that the
result of an operation is the magnitude that `roundUnits` gives for the exact result.
-/

namespace Gazetteer

open Float.Model Float.Model.UnpackedFloat

/-! ## Powers and shifts -/

/-- Powers with a natural and an integer exponent are multiplied. -/
theorem two_pow_mul_zpow {a : ℕ} {e f : ℤ} (h : a + e = f) : (2 : ℝ) ^ a * 2 ^ e = 2 ^ f := by
  rw [← zpow_natCast, ← zpow_add₀ two_ne_zero, h]

/-- A significand that is shifted has a smaller exponent. -/
theorem cast_shiftLeft_mul {k : ℕ} {e f : ℤ} (m : ℕ) (h : k + e = f) :
    ((m <<< k : ℕ) : ℝ) * 2 ^ e = m * 2 ^ f := by
  rw [Nat.shiftLeft_eq, Nat.cast_mul, Nat.cast_pow, Nat.cast_ofNat, mul_assoc, two_pow_mul_zpow h]

/-- A shifted significand has the bits of the significand and those of the shift. -/
theorem two_pow_le_shiftLeft {m : ℕ} (hm : 0 < m) (k : ℕ) : 2 ^ (m.log2 + k) ≤ m <<< k := by
  rw [Nat.shiftLeft_eq, pow_add]
  exact Nat.mul_le_mul_right _ (Nat.log2_self_le hm.ne')

/-! ## Significands with two more bits -/

/-- A significand with two more bits describes a real number: its whole part, the first bit behind
the point, and whether anything follows. -/
def Describes (em : ExtendedMantissa) (z : ℝ) : Prop :=
  ∃ g : ℝ, 0 ≤ g ∧ g < 1 ∧ 2 * z = 2 * em.mantissa + em.roundBit.toNat + g ∧
    (em.stickyBit = true ↔ 0 < g)

namespace Describes

variable {em : ExtendedMantissa} {z : ℝ}

theorem mantissa_le (h : Describes em z) : (em.mantissa : ℝ) ≤ z := by
  obtain ⟨g, hg, -, hz, -⟩ := h
  have : (0 : ℝ) ≤ em.roundBit.toNat := Nat.cast_nonneg _
  linarith

theorem lt_mantissa_add_one (h : Describes em z) : z < em.mantissa + 1 := by
  obtain ⟨g, -, hg, hz, -⟩ := h
  have : (em.roundBit.toNat : ℝ) ≤ 1 := by exact_mod_cast em.roundBit.toNat_le
  linarith

theorem shiftRightOne (h : Describes em z) : Describes em.shiftRightOne (z / 2) := by
  obtain ⟨g, hg0, hg1, hz, hsticky⟩ := h
  have hbit : ((em.mantissa % 2 != 0).toNat : ℕ) = em.mantissa % 2 := by
    rcases Nat.mod_two_eq_zero_or_one em.mantissa with h | h <;> rw [h] <;> rfl
  have hsplit : (em.mantissa : ℝ) = 2 * (em.mantissa / 2 : ℕ) + (em.mantissa % 2 : ℕ) := by
    exact_mod_cast (Nat.div_add_mod em.mantissa 2).symm
  have hround : (0 : ℝ) ≤ em.roundBit.toNat ∧ (em.roundBit.toNat : ℝ) ≤ 1 :=
    ⟨Nat.cast_nonneg _, by exact_mod_cast em.roundBit.toNat_le⟩
  refine ⟨(em.roundBit.toNat + g) / 2, by linarith, by linarith, ?_, ?_⟩
  · show 2 * (z / 2) = 2 * ((em.mantissa / 2 : ℕ) : ℝ) + ((em.mantissa % 2 != 0).toNat : ℕ) + _
    rw [hbit]
    linarith
  · show (em.roundBit || em.stickyBit) = true ↔ _
    rw [Bool.or_eq_true, hsticky]
    cases em.roundBit
    · simp
    · simp
      linarith

theorem shiftRight (h : Describes em z) (n : ℕ) : Describes (em >>> n) (z / 2 ^ n) := by
  induction n with
  | zero =>
    rw [pow_zero, div_one]
    exact h
  | succ n ih =>
    rw [pow_succ, ← div_div]
    exact ih.shiftRightOne

/-- The two bits are enough to round. -/
theorem roundedMantissa_eq (h : Describes em z) : em.roundedMantissa = nearestEven z := by
  have hfloor : ⌊z⌋₊ = em.mantissa :=
    (Nat.floor_eq_iff ((Nat.cast_nonneg _).trans h.mantissa_le)).2
      ⟨h.mantissa_le, h.lt_mantissa_add_one⟩
  obtain ⟨g, hg0, hg1, hz, hsticky⟩ := h
  obtain ⟨m, b, s⟩ := em
  rw [nearestEven, hfloor]
  dsimp only at hz hsticky ⊢
  have hfrac : z - m = (b.toNat + g) / 2 := by linarith
  rw [hfrac]
  cases b <;> cases s <;>
    simp only [ExtendedMantissa.roundedMantissa, ExtendedMantissa.accuracy,
      Accuracy.roundToNearestEven, Bool.toNat_false, Bool.toNat_true, Nat.cast_zero, Nat.cast_one]
  · rw [if_pos (by linarith)]
  · rw [if_pos (by linarith)]
  · have hg : g = 0 := le_antisymm (not_lt.1 fun h => by simpa using hsticky.2 h) hg0
    rw [hg, if_neg (by norm_num), if_neg (by norm_num)]
  · have hg : 0 < g := hsticky.1 rfl
    rw [if_neg (by linarith), if_pos (by linarith)]

end Describes

/-- A whole number is described without further bits. -/
theorem describes_exact (m : ℕ) : Describes (.ofMantissaAndAccuracy m .exact) m :=
  ⟨0, le_rfl, one_pos, by simp [ExtendedMantissa.ofMantissaAndAccuracy],
    by simp [ExtendedMantissa.ofMantissaAndAccuracy]⟩

/-- What lies between two whole numbers is described by its place relative to the middle. -/
theorem describes_inexact {m : ℕ} {z : ℝ} {o : Ordering} (hlo : m < z) (hhi : z < m + 1)
    (hlt : o = .lt → z < m + 1 / 2) (heq : o = .eq → z = m + 1 / 2)
    (hgt : o = .gt → m + 1 / 2 < z) :
    Describes (.ofMantissaAndAccuracy m (.inexact o)) z := by
  cases o with
  | lt =>
    have := hlt rfl
    refine ⟨2 * (z - m), by linarith, by linarith, ?_, ?_⟩
    · simp [ExtendedMantissa.ofMantissaAndAccuracy]
      ring
    · simp [ExtendedMantissa.ofMantissaAndAccuracy]
      linarith
  | eq =>
    have := heq rfl
    refine ⟨0, le_rfl, one_pos, ?_, ?_⟩
    · simp [ExtendedMantissa.ofMantissaAndAccuracy]
      linarith
    · simp [ExtendedMantissa.ofMantissaAndAccuracy]
  | gt =>
    have := hgt rfl
    refine ⟨2 * (z - m) - 1, by linarith, by linarith, ?_, ?_⟩
    · simp [ExtendedMantissa.ofMantissaAndAccuracy]
      ring
    · simp [ExtendedMantissa.ofMantissaAndAccuracy]
      linarith

/-! ## Canonical floats -/

/-- The floats of a sign whose magnitude is finite or beyond the format. -/
inductive IsMagnitude (sign : Sign) : ℕ → UnpackedFloat → Prop
  | zero : IsMagnitude sign 0 (.zero sign)
  | finite {m s : ℕ} (pos : 0 < m) (lt : m < 2 ^ 53) (normal : s = 0 ∨ 2 ^ 52 ≤ m) :
      IsMagnitude sign (m + s * 2 ^ 52) (.finite sign m (s - 1074) pos)

theorem IsMagnitude.of_eq {sign : Sign} {k m s : ℕ} {e : ℤ} (pos : 0 < m) (lt : m < 2 ^ 53)
    (normal : s = 0 ∨ 2 ^ 52 ≤ m) (hk : k = m + s * 2 ^ 52) (he : e = s - 1074) :
    IsMagnitude sign k (.finite sign m e pos) := by
  subst hk he
  exact .finite pos lt normal

theorem targetExponent_eq (k : ℤ) : Format.binary64.targetExponent k = max (k - 53) (-1074) := by
  rfl

theorem log2_le_of_lt {m : ℕ} (h : m < 2 ^ 53) : m.log2 ≤ 52 := by
  by_cases hm : m = 0
  · simp [hm]
  · exact Nat.le_of_lt_succ ((Nat.log2_lt hm).2 h)

/-- A significand that a rounding may have carried into `2 ^ 53` is shifted once more, without
loss. -/
theorem isMagnitude_of_carried {sign : Sign} {r s : ℕ} (hr : r ≤ 2 ^ 53) (hs : s = 0 ∨ 2 ^ 52 ≤ r) :
    IsMagnitude sign (r + s * 2 ^ 52)
      (if h : (shiftToTargetExponent .binary64 r (s - 1074) .exact).1.mantissa = 0 then .zero sign
      else .finite sign _ (shiftToTargetExponent .binary64 r (s - 1074) .exact).2
        (Nat.pos_of_ne_zero h)) := by
  rcases hr.lt_or_eq with hlt | rfl
  · have hlog := log2_le_of_lt hlt
    have hk : (Format.binary64.targetExponent (totalExponent r (s - 1074)) -
        ((s : ℤ) - 1074)).toNat = 0 := by
      rw [targetExponent_eq, totalExponent]
      omega
    have hshift : shiftToTargetExponent .binary64 r (s - 1074) .exact =
        (⟨r, false, false⟩, (s : ℤ) - 1074) := by
      rw [shiftToTargetExponent, shiftToExponent, hk]
      exact Prod.ext rfl (by simp)
    rw [hshift]
    dsimp only
    by_cases hzero : r = 0
    · have hs0 : s = 0 := by omega
      rw [dif_pos hzero, hzero, hs0]
      exact .zero
    · rw [dif_neg hzero]
      exact .finite _ hlt hs
  · have hk : (Format.binary64.targetExponent (totalExponent (2 ^ 53) (s - 1074)) -
        ((s : ℤ) - 1074)).toNat = 1 := by
      rw [targetExponent_eq, totalExponent, Nat.log2_two_pow]
      omega
    have hshift : shiftToTargetExponent .binary64 (2 ^ 53) (s - 1074) .exact =
        (⟨2 ^ 52, false, false⟩, ((s + 1 : ℕ) : ℤ) - 1074) := by
      rw [shiftToTargetExponent, shiftToExponent, hk]
      refine Prod.ext rfl ?_
      push_cast
      ring
    rw [hshift]
    dsimp only
    rw [dif_neg (by norm_num), show 2 ^ 53 + s * 2 ^ 52 = 2 ^ 52 + (s + 1) * 2 ^ 52 by ring]
    exact .finite _ (by norm_num) (Or.inr le_rfl)

/-! ## Rounding a significand -/

section
variable {sign : Sign} {m s : ℕ} {e : ℤ} {acc : Accuracy} {z : ℝ}

theorem mantissa_ofMantissaAndAccuracy (m : ℕ) (acc : Accuracy) :
    (ExtendedMantissa.ofMantissaAndAccuracy m acc).mantissa = m := by
  cases acc with
  | exact => rfl
  | inexact o => cases o <;> rfl

/-- The exponent that the machine aims at is the shift of the exact result. -/
theorem shiftOf_of_describes (hz : Describes (.ofMantissaAndAccuracy m acc) z)
    (he : e ≤ Format.binary64.targetExponent (totalExponent m e))
    (hs : (s : ℤ) - 1074 = Format.binary64.targetExponent (totalExponent m e)) :
    ShiftOf s (z * 2 ^ (e + 1074)) := by
  have hlo := hz.mantissa_le
  have hhi := hz.lt_mantissa_add_one
  rw [mantissa_ofMantissaAndAccuracy] at hlo hhi
  have hz0 : 0 ≤ z := (Nat.cast_nonneg m).trans hlo
  have hpos : (0 : ℝ) < 2 ^ (e + 1074) := zpow_pos two_pos _
  rw [targetExponent_eq, totalExponent] at he hs
  refine ⟨mul_nonneg hz0 hpos.le, ?_, ?_⟩
  · rcases Nat.eq_zero_or_pos s with h | h
    · exact Or.inl h
    · refine Or.inr ?_
      have hm : m ≠ 0 := by
        rintro rfl
        simp only [Nat.log2_zero] at he hs
        omega
      have hpow : ((2 : ℝ) ^ m.log2) ≤ z := by
        refine le_trans ?_ hlo
        exact_mod_cast Nat.log2_self_le hm
      have hexp : (m.log2 : ℤ) + (e + 1074) = (52 + s : ℕ) := by omega
      calc (2 : ℝ) ^ 52 * 2 ^ s = 2 ^ m.log2 * 2 ^ (e + 1074) := by
            rw [two_pow_mul_zpow hexp, zpow_natCast, pow_add]
        _ ≤ z * 2 ^ (e + 1074) := mul_le_mul_of_nonneg_right hpow hpos.le
  · have hpow : z < 2 ^ (m.log2 + 1) := by
      refine hhi.trans_le ?_
      exact_mod_cast Nat.lt_log2_self
    calc z * 2 ^ (e + 1074) < 2 ^ (m.log2 + 1) * 2 ^ (e + 1074) := mul_lt_mul_of_pos_right hpow hpos
      _ = 2 ^ ((m.log2 : ℤ) + 1 + e + 1074) := two_pow_mul_zpow (by push_cast; ring)
      _ ≤ 2 ^ ((53 : ℤ) + s) := zpow_le_zpow_right₀ one_le_two (by omega)
      _ = 2 ^ 53 * 2 ^ s := by
          rw [zpow_add₀ two_ne_zero, zpow_natCast]
          norm_num

/-- **Rounding a significand gives the nearest magnitude** to what it describes. -/
theorem isMagnitude_roundWithAccuracy (hz : Describes (.ofMantissaAndAccuracy m acc) z)
    (he : e ≤ Format.binary64.targetExponent (totalExponent m e)) :
    IsMagnitude sign (roundUnits (z * 2 ^ (e + 1074)))
      (roundWithAccuracy .binary64 sign m e acc) := by
  obtain ⟨s, hs⟩ : ∃ s : ℕ, (s : ℤ) - 1074 =
      Format.binary64.targetExponent (totalExponent m e) := by
    refine ⟨(Format.binary64.targetExponent (totalExponent m e) + 1074).toNat, ?_⟩
    rw [targetExponent_eq]
    omega
  obtain ⟨k, hk⟩ : ∃ k : ℕ, e + k = (s : ℤ) - 1074 := ⟨((s : ℤ) - 1074 - e).toNat, by omega⟩
  have hshift := shiftOf_of_describes hz he hs
  have hdiv : z * 2 ^ (e + 1074) / 2 ^ s = z / 2 ^ k := by
    have hexp : (k : ℤ) + (e + 1074) = s := by omega
    have hpow : (2 : ℝ) ^ s = 2 ^ (e + 1074) * 2 ^ k := by
      rw [mul_comm, two_pow_mul_zpow hexp, zpow_natCast]
    rw [hpow]
    field_simp
  have hfirst : shiftToTargetExponent .binary64 m e acc =
      (ExtendedMantissa.ofMantissaAndAccuracy m acc >>> k, (s : ℤ) - 1074) := by
    have hk' : (Format.binary64.targetExponent (totalExponent m e) - e).toNat = k := by omega
    rw [shiftToTargetExponent, shiftToExponent, hk', hk]
  have hround := (hz.shiftRight k).roundedMantissa_eq
  rw [hshift.roundUnits_eq, hdiv]
  rw [roundWithAccuracy, hfirst]
  dsimp only
  rw [hround]
  exact isMagnitude_of_carried (hdiv ▸ hshift.nearestEven_le) (hdiv ▸ hshift.le_nearestEven)

end

end Gazetteer
