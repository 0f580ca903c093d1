import Gazetteer.Json.Number
import Gazetteer.Proofs.Quotients
import Gazetteer.Proofs.ShortestDigits

/-!
# How far fast reading goes astray

The significand of a JSON number and the power of ten are rounded before they are multiplied or
divided, and the result is rounded again. Every rounding but the last one moves a number by a part
in `2 ^ 53` at most; these parts add up. The last rounding keeps the order, so that numbers near to
each other are rounded to magnitudes a few places apart.
-/

namespace Gazetteer

open Float.Model

/-! ## Near numbers -/

/-- What is left of one when a part in `2 ^ 53` is lost. -/
noncomputable def kept : ℝ := 1 - 1 / 2 ^ 53

theorem kept_pos : 0 < kept := by norm_num [kept]

theorem kept_le_one : kept ≤ 1 := by norm_num [kept]

/-- Two numbers, neither of them less than what `n` losses leave of the other. -/
structure Near (n : ℕ) (y z : ℝ) : Prop where
  le : kept ^ n * y ≤ z
  ge : kept ^ n * z ≤ y

namespace Near

variable {a b n : ℕ} {x x' y y' z : ℝ}

theorem refl (y : ℝ) : Near 0 y y := ⟨by simp, by simp⟩

theorem eq (h : Near 0 y z) : y = z := le_antisymm (by simpa using h.le) (by simpa using h.ge)

theorem symm (h : Near n y z) : Near n z y := ⟨h.ge, h.le⟩

theorem trans (h : Near a x y) (h' : Near b y z) : Near (a + b) x z := by
  have hpow (m : ℕ) : 0 ≤ kept ^ m := pow_nonneg kept_pos.le m
  constructor
  · calc kept ^ (a + b) * x = kept ^ b * (kept ^ a * x) := by ring
      _ ≤ kept ^ b * y := mul_le_mul_of_nonneg_left h.le (hpow b)
      _ ≤ z := h'.le
  · calc kept ^ (a + b) * z = kept ^ a * (kept ^ b * z) := by ring
      _ ≤ kept ^ a * y := mul_le_mul_of_nonneg_left h'.ge (hpow a)
      _ ≤ x := h.ge

/-- In a product the losses of the factors add up. -/
theorem mul (h : Near a x y) (h' : Near b x' y') (hx : 0 ≤ x) (hy : 0 ≤ y) (hx' : 0 ≤ x')
    (hy' : 0 ≤ y') : Near (a + b) (x * x') (y * y') := by
  have hpow (m : ℕ) : 0 ≤ kept ^ m := pow_nonneg kept_pos.le m
  constructor
  · calc kept ^ (a + b) * (x * x') = kept ^ a * x * (kept ^ b * x') := by ring
      _ ≤ y * y' := mul_le_mul h.le h'.le (mul_nonneg (hpow b) hx') hy
  · calc kept ^ (a + b) * (y * y') = kept ^ a * y * (kept ^ b * y') := by ring
      _ ≤ x * x' := mul_le_mul h.ge h'.ge (mul_nonneg (hpow b) hy') hx

theorem inv (h : Near n y z) (hy : 0 < y) (hz : 0 < z) : Near n y⁻¹ z⁻¹ := by
  constructor
  · rw [le_inv_comm₀ (mul_pos (pow_pos kept_pos n) (inv_pos.2 hy)) hz, mul_inv, inv_inv,
      le_inv_mul_iff₀ (pow_pos kept_pos n)]
    exact h.ge
  · rw [le_inv_comm₀ (mul_pos (pow_pos kept_pos n) (inv_pos.2 hz)) hy, mul_inv, inv_inv,
      le_inv_mul_iff₀ (pow_pos kept_pos n)]
    exact h.le

/-- In a quotient they add up as well. -/
theorem div (h : Near a x y) (h' : Near b x' y') (hx : 0 ≤ x) (hy : 0 ≤ y) (hx' : 0 < x')
    (hy' : 0 < y') : Near (a + b) (x / x') (y / y') := by
  rw [div_eq_mul_inv, div_eq_mul_inv]
  exact h.mul (h'.inv hx' hy') hx hy (inv_pos.2 hx').le (inv_pos.2 hy').le

theorem mul_const (h : Near n y z) {c : ℝ} (hc : 0 ≤ c) : Near n (y * c) (z * c) := by
  constructor
  · rw [← mul_assoc]
    exact mul_le_mul_of_nonneg_right h.le hc
  · rw [← mul_assoc]
    exact mul_le_mul_of_nonneg_right h.ge hc

theorem mono (h : Near a y z) (hab : a ≤ b) (hy : 0 ≤ y) (hz : 0 ≤ z) : Near b y z := by
  have hpow : kept ^ b ≤ kept ^ a := pow_le_pow_of_le_one kept_pos.le kept_le_one hab
  exact ⟨(mul_le_mul_of_nonneg_right hpow hy).trans h.le,
    (mul_le_mul_of_nonneg_right hpow hz).trans h.ge⟩

theorem pos_of_pos (h : Near n y z) (hz : 0 < z) : 0 < y :=
  (mul_pos (pow_pos kept_pos n) hz).trans_le h.ge

end Near

/-! ## Rounding -/

/-- A number is no more than what a loss leaves of the next one. -/
theorem units_le_kept_mul (n : ℕ) : (units n : ℝ) ≤ kept * units (n + 1) := by
  have hstep : (units (n + 1) : ℝ) ≤ 2 ^ 53 * (units (n + 1) - units n) := by
    rw [← Nat.cast_sub (units_le_units.2 n.le_succ)]
    exact_mod_cast units_succ_le n
  unfold kept
  linarith

theorem units_le_kept_pow_mul (n j : ℕ) : (units n : ℝ) ≤ kept ^ j * units (n + j) := by
  induction j with
  | zero => simp
  | succ j ih =>
    calc (units n : ℝ) ≤ kept ^ j * units (n + j) := ih
      _ ≤ kept ^ j * (kept * units (n + j + 1)) :=
          mul_le_mul_of_nonneg_left (units_le_kept_mul _) (pow_nonneg kept_pos.le j)
      _ = kept ^ (j + 1) * units (n + (j + 1)) := by ring_nf

/-- **Near numbers are rounded to magnitudes a few places apart.** -/
theorem Near.roundUnits_le {n : ℕ} {y z : ℝ} (h : Near n y z) (hy : 0 ≤ y) :
    roundUnits y ≤ roundUnits z + (n + 1) := by
  have hz : z < units (roundUnits z + 1) := by
    by_contra hle
    have := le_roundUnits (not_lt.1 hle)
    omega
  refine Gazetteer.roundUnits_le hy (le_of_mul_le_mul_left ?_ (pow_pos kept_pos n))
  calc kept ^ n * y ≤ z := h.le
    _ ≤ units (roundUnits z + 1) := hz.le
    _ ≤ kept ^ n * units (roundUnits z + 1 + n) := units_le_kept_pow_mul _ _
    _ = kept ^ n * units (roundUnits z + (n + 1)) := by
        rw [Nat.add_assoc, Nat.add_comm 1 n]

/-- Rounding a number of full precision is one loss. -/
theorem near_units_roundUnits {x : ℝ} (hx : 2 ^ 52 ≤ x) : Near 1 (units (roundUnits x)) x := by
  have hlo := le_units_roundUnits hx
  have hhi := units_roundUnits_le hx
  have hx0 : 0 < x := lt_of_lt_of_le (by positivity) hx
  constructor
  · rw [pow_one]
    calc kept * units (roundUnits x) ≤ kept * (x + x / 2 ^ 53) :=
          mul_le_mul_of_nonneg_left hhi kept_pos.le
      _ ≤ x := by
          unfold kept
          nlinarith
  · rw [pow_one, kept]
    linarith

/-- Rounding a number that lacks two bits of full precision is no more than five losses. -/
theorem near_units_roundUnits_short {x : ℝ} (hx : 2 ^ 50 ≤ x) :
    Near 5 (units (roundUnits x)) x := by
  have hx0 : 0 ≤ x := le_trans (by positivity) hx
  rcases le_or_gt (2 ^ 52) x with hfull | hshort
  · exact (near_units_roundUnits hfull).mono (by decide) (Nat.cast_nonneg _) hx0
  · have hshift : ShiftOf 0 x := ⟨hx0, Or.inl rfl, by linarith⟩
    have hunits : (units (roundUnits x) : ℝ) = nearestEven x := by
      rw [hshift.units_roundUnits, pow_zero, div_one, pow_zero, mul_one]
    have hlo := le_nearestEven x
    have hhi := nearestEven_le_add hx0
    have hpow : kept ^ 5 ≤ 1 - 1 / 2 ^ 51 := by norm_num [kept]
    have hpow0 : 0 ≤ kept ^ 5 := pow_nonneg kept_pos.le 5
    rw [hunits]
    constructor
    · calc kept ^ 5 * nearestEven x ≤ kept ^ 5 * (x + 1 / 2) := mul_le_mul_of_nonneg_left hhi hpow0
        _ ≤ kept ^ 5 * (x * (1 + 1 / 2 ^ 51)) := by
            refine mul_le_mul_of_nonneg_left ?_ hpow0
            linarith
        _ = kept ^ 5 * (1 + 1 / 2 ^ 51) * x := by ring
        _ ≤ 1 * x := by
            refine mul_le_mul_of_nonneg_right ?_ hx0
            norm_num [kept]
        _ = x := one_mul x
    · calc kept ^ 5 * x ≤ (1 - 1 / 2 ^ 51) * x := mul_le_mul_of_nonneg_right hpow hx0
        _ ≤ nearestEven x := by linarith

/-- A number with few bits is on the grid. -/
theorem exists_units_eq {m : ℕ} (hm : m ≤ 2 ^ 53) (t : ℕ) : ∃ k, units k = m * 2 ^ t := by
  induction t generalizing m with
  | zero => exact ⟨m, by simpa using units_add_mul hm (Or.inl rfl)⟩
  | succ t ih =>
    rcases Nat.lt_or_ge m (2 ^ 52) with h | h
    · obtain ⟨k, hk⟩ := ih (m := 2 * m) (by omega)
      exact ⟨k, by rw [hk]; ring⟩
    · exact ⟨_, units_add_mul hm (Or.inr h)⟩

theorem units_roundUnits_of_le {m : ℕ} (hm : m ≤ 2 ^ 53) (t : ℕ) :
    (units (roundUnits (m * 2 ^ t)) : ℝ) = m * 2 ^ t := by
  obtain ⟨k, hk⟩ := exists_units_eq hm t
  have hcast : (m : ℝ) * 2 ^ t = units k := by exact_mod_cast hk.symm
  rw [hcast, roundUnits_units]

/-! ## Words near to a number -/

namespace Binary64

/-- A finite word without a minus that is near to a number. -/
structure Approximates (x : Binary64) (n : ℕ) (r : ℝ) : Prop where
  isFinite : x.isFinite = true
  negative : x.negative = false
  near : Near n (units x.magnitude) (r * 2 ^ 1074)

/-- A word without a minus, rounded from what is near to a number; it may be the infinity. -/
structure RoundedFrom (x : Binary64) (n : ℕ) (r : ℝ) : Prop where
  negative : x.negative = false
  exists_near : ∃ w, 0 ≤ w ∧ Near n w (r * 2 ^ 1074) ∧
    x.magnitude = min infiniteMagnitude (roundUnits w)

variable {x y : Binary64} {a b n : ℕ} {r q : ℝ}

theorem Approximates.magnitude_ne_zero (h : Approximates x n r) (hr : 0 < r) :
    x.magnitude ≠ 0 := by
  have hpos := h.near.pos_of_pos (mul_pos hr (by positivity))
  exact (units_pos.1 (Nat.cast_pos.1 hpos)).ne'

theorem Approximates.mul (hx : Approximates x a r) (hy : Approximates y b q) (hr : 0 ≤ r)
    (hq : 0 ≤ q) : RoundedFrom (x * y) (a + b) (r * q) := by
  obtain ⟨hm, hn⟩ := mul_of_isFinite hx.isFinite hy.isFinite
  refine ⟨by rw [hn, hx.negative, hy.negative]; rfl, _, by positivity, ?_, hm⟩
  have hnear := (hx.near.mul hy.near (Nat.cast_nonneg _) (by positivity) (Nat.cast_nonneg _)
    (by positivity)).mul_const (c := 2 ^ (-1074 : ℤ)) (by positivity)
  have hvalue : r * 2 ^ 1074 * (q * 2 ^ 1074) * (2 : ℝ) ^ (-1074 : ℤ) = r * q * 2 ^ 1074 := by
    rw [zpow_neg, ← zpow_natCast (2 : ℝ) 1074]
    push_cast
    field_simp
  rwa [hvalue] at hnear

theorem Approximates.div (hx : Approximates x a r) (hy : Approximates y b q) (hr : 0 ≤ r)
    (hq : 0 < q) : RoundedFrom (x / y) (a + b) (r / q) := by
  have hy0 := hy.magnitude_ne_zero hq
  obtain ⟨hm, hn⟩ := div_of_isFinite hx.isFinite hy.isFinite hy0
  refine ⟨by rw [hn, hx.negative, hy.negative]; rfl, _, by positivity, ?_, hm⟩
  have hunits : (0 : ℝ) < units y.magnitude := Nat.cast_pos.2 (units_pos.2 (Nat.pos_of_ne_zero hy0))
  have hnear := (hx.near.div hy.near (Nat.cast_nonneg _) (by positivity) hunits
    (by positivity)).mul_const (c := 2 ^ (1074 : ℤ)) (by positivity)
  have hvalue : r * 2 ^ 1074 / (q * 2 ^ 1074) * (2 : ℝ) ^ (1074 : ℤ) = r / q * 2 ^ 1074 := by
    rw [mul_div_mul_right _ _ (by positivity)]
    rfl
  rwa [hvalue] at hnear

namespace RoundedFrom

/-- The magnitude of a word is a few places from that of the number. -/
theorem magnitude_le (h : RoundedFrom x n r) :
    x.magnitude ≤ roundUnits (r * 2 ^ 1074) + (n + 1) := by
  obtain ⟨w, hw, hnear, hm⟩ := h.exists_near
  rw [hm]
  exact (min_le_right _ _).trans (hnear.roundUnits_le hw)

theorem le_magnitude (h : RoundedFrom x n r) (hr : 0 ≤ r)
    (hfin : roundUnits (r * 2 ^ 1074) < infiniteMagnitude) :
    roundUnits (r * 2 ^ 1074) ≤ x.magnitude + (n + 1) := by
  obtain ⟨w, hw, hnear, hm⟩ := h.exists_near
  have hle := hnear.symm.roundUnits_le (by positivity)
  omega

/-- Without a loss, the word is that of the number. -/
theorem magnitude_eq (h : RoundedFrom x 0 r) :
    x.magnitude = min infiniteMagnitude (roundUnits (r * 2 ^ 1074)) := by
  obtain ⟨w, -, hnear, hm⟩ := h.exists_near
  rw [hm, hnear.eq]

/-- A rounded word of almost full precision is near to the number. -/
theorem approximates (h : RoundedFrom x n r) (hfin : x.isFinite = true)
    (hlarge : 2 ^ 50 ≤ kept ^ n * (r * 2 ^ 1074)) : Approximates x (n + 5) r := by
  obtain ⟨w, hw, hnear, hm⟩ := h.exists_near
  have hlt : x.magnitude < infiniteMagnitude := of_decide_eq_true hfin
  have hm' : x.magnitude = roundUnits w := by omega
  refine ⟨hfin, h.negative, ?_⟩
  rw [hm', Nat.add_comm]
  exact (near_units_roundUnits_short (hlarge.trans hnear.ge)).trans hnear

end RoundedFrom

/-- Whole numbers up to the greatest power of ten are not rounded to the infinity. -/
theorem roundUnits_natCast_lt {m : ℕ} (hm : m ≤ 10 ^ 308) :
    roundUnits (m * 2 ^ 1074) < infiniteMagnitude := by
  obtain ⟨k, hk, hle⟩ : ∃ k < infiniteMagnitude, 10 ^ 308 * 2 ^ 1074 ≤ units k :=
    ⟨infiniteMagnitude - 1, by decide, by decide +kernel⟩
  have hnat : m * 2 ^ 1074 ≤ units k := (Nat.mul_le_mul_right _ hm).trans hle
  have hreal : (m : ℝ) * 2 ^ 1074 ≤ units k := by exact_mod_cast hnat
  exact (roundUnits_le (by positivity) hreal).trans_lt hk

/-- Rounding a positive whole number is one loss. -/
theorem near_units_roundUnits_natCast {m : ℕ} (hm : 0 < m) :
    Near 1 (units (roundUnits (m * 2 ^ 1074))) (m * 2 ^ 1074) := by
  refine near_units_roundUnits ?_
  calc (2 : ℝ) ^ 52 ≤ 2 ^ 1074 := pow_le_pow_right₀ one_le_two (by decide)
    _ ≤ m * 2 ^ 1074 := le_mul_of_one_le_left (by positivity) (Nat.one_le_cast.2 hm)

/-- A positive whole number of 64 bits loses at most once, and one of few bits does not. -/
theorem approximates_ofUInt64 {m : ℕ} (hm : 0 < m) (hlt : m < 2 ^ 64) :
    Approximates (ofUInt64 (.ofNat m)) 1 m ∧
      (m ≤ 2 ^ 53 → Approximates (ofUInt64 (.ofNat m)) 0 m) := by
  have hword : ofUInt64 (.ofNat m) = ofUnpacked (.round .binary64 .positive m 0) := by
    have hnat : (UInt64.ofNat m).toNat = m := UInt64.toNat_ofNat_of_lt hlt
    have hnorm : ofUInt64 (.ofNat m) =
      ofUnpacked (.normalize .binary64 ((UInt64.ofNat m).toNat : ℤ) 0 .positive) := rfl
    rw [hnorm, hnat, UnpackedFloat.normalize, Int.compare_eq_gt.2 (by omega)]
    rfl
  obtain ⟨hmag, hneg⟩ := magnitude_ofUnpacked (@isMagnitude_round .positive m 0 hm)
  have hunits : (m : ℝ) * 2 ^ ((0 : ℤ) + 1074) = m * 2 ^ 1074 := rfl
  have hbound : roundUnits ((m : ℝ) * 2 ^ 1074) < infiniteMagnitude :=
    roundUnits_natCast_lt (hlt.le.trans (by decide +kernel))
  rw [← hword, hunits, min_eq_right hbound.le] at hmag
  rw [← hword] at hneg
  have hfin : (ofUInt64 (.ofNat m)).isFinite = true := decide_eq_true (hmag ▸ hbound)
  refine ⟨⟨hfin, hneg, ?_⟩, fun hfew => ⟨hfin, hneg, ?_⟩⟩
  · rw [hmag]
    exact near_units_roundUnits_natCast hm
  · rw [hmag, units_roundUnits_of_le hfew]
    exact .refl _

/-- A power of ten loses at most once, and a small one does not. -/
theorem approximates_powerOfTen {n : ℕ} (hn : n ≤ 308) :
    Approximates (powerOfTen n) 1 (10 ^ n) ∧
      (n ≤ 22 → Approximates (powerOfTen n) 0 (10 ^ n)) := by
  have hcast : (10 : ℝ) ^ n = (10 ^ n : ℕ) := by rw [Nat.cast_pow, Nat.cast_ofNat]
  have hbound : roundUnits (10 ^ n * 2 ^ 1074) < infiniteMagnitude := by
    rw [hcast]
    exact roundUnits_natCast_lt (pow_le_pow_right₀ (by decide) hn)
  have hdecimal : BinaryFormat.binary64.ofDecimal 1 n = roundUnits (10 ^ n * 2 ^ 1074) := by
    rw [BinaryFormat.ofDecimal_eq, Nat.cast_one, one_mul, zpow_natCast]
    exact min_eq_right hbound.le
  obtain ⟨hmag, hneg⟩ := ofMagnitude_fields (n := false)
    (hbound.trans (by decide : infiniteMagnitude < 0x8000000000000000))
  rw [← hdecimal] at hmag hneg hbound
  have hfin : (powerOfTen n).isFinite = true := decide_eq_true (hmag.trans_lt hbound)
  have hround : (powerOfTen n).magnitude = roundUnits (10 ^ n * 2 ^ 1074) := hmag.trans hdecimal
  refine ⟨⟨hfin, hneg, ?_⟩, fun hsmall => ⟨hfin, hneg, ?_⟩⟩
  · rw [hround, hcast]
    exact near_units_roundUnits_natCast (Nat.pow_pos (by decide))
  · have hfive : 5 ^ n ≤ 2 ^ 53 := (Nat.pow_le_pow_right (by decide) hsmall).trans (by decide)
    have hsplit : (10 : ℝ) ^ n * 2 ^ 1074 = (5 ^ n : ℕ) * 2 ^ (n + 1074) := by
      rw [pow_add, Nat.cast_pow, Nat.cast_ofNat, ← mul_assoc, ← mul_pow]
      norm_num
    rw [hround, hsplit, units_roundUnits_of_le hfive]
    exact .refl _

theorem isInfinite_of_isFinite (h : x.isFinite = true) : x.isInfinite = false := by
  have hlt : x.magnitude < infiniteMagnitude := of_decide_eq_true h
  exact decide_eq_false hlt.ne

/-! ## Scaling -/

/-- One product or quotient scales by a power of ten that is a number of the format. -/
theorem Approximates.exists_scaled {e : ℤ} (hx : Approximates x a r) (hr : 0 ≤ r)
    (hp : Approximates (powerOfTen e.natAbs) b (10 ^ e.natAbs)) (he : e.natAbs ≤ 308) (fuel : ℕ) :
    ∃ t, RoundedFrom t (a + b) (r * 10 ^ e) ∧
      (t.isFinite = true → scaleDecimal? (fuel + 1) x e = some t) := by
  rw [scaleDecimal?, if_pos he]
  rcases Int.lt_or_le e 0 with hneg | hpos
  · have hpow : (10 : ℝ) ^ e = (10 ^ e.natAbs)⁻¹ := by
      rw [← zpow_natCast, ← zpow_neg]
      congr 1
      omega
    rw [if_neg (by omega), hpow, ← div_eq_mul_inv]
    exact ⟨_, hx.div hp hr (by positivity), fun _ => rfl⟩
  · have hpow : (10 : ℝ) ^ e = 10 ^ e.natAbs := by
      rw [← zpow_natCast]
      congr 1
      omega
    rw [if_pos hpos, hpow]
    refine ⟨_, hx.mul hp hr (by positivity), fun hfin => ?_⟩
    dsimp only
    rw [isInfinite_of_isFinite hfin]
    rfl

theorem RoundedFrom.isFinite (h : RoundedFrom x n r)
    (hsmall : roundUnits (r * 2 ^ 1074) + (n + 1) < infiniteMagnitude) : x.isFinite = true :=
  decide_eq_true (h.magnitude_le.trans_lt hsmall)

/-- A whole number divided by the greatest power of ten keeps almost full precision. -/
theorem Approximates.div_powerOfTen {m : ℕ} (hx : Approximates x 1 m) (hm : 0 < m)
    (hle : m ≤ 10 ^ 18) : Approximates (x / powerOfTen 308) 7 (m / 10 ^ 308) := by
  have hone : (1 : ℝ) ≤ m := Nat.one_le_cast.2 hm
  have hrounded := hx.div (approximates_powerOfTen le_rfl).1 (Nat.cast_nonneg m)
    (by positivity : (0 : ℝ) < 10 ^ 308)
  refine hrounded.approximates (hrounded.isFinite ?_) ?_
  · have hunit : (units (2 ^ 52 + 1022 * 2 ^ 52) : ℝ) = 2 ^ 1074 := by
      have hnat := units_add_mul (m := 2 ^ 52) (s := 1022) (by norm_num) (Or.inr le_rfl)
      rw [hnat, ← pow_add, Nat.cast_pow, Nat.cast_ofNat]
    have hquot : (m : ℝ) / 10 ^ 308 ≤ 1 := by
      rw [div_le_one (by positivity)]
      calc (m : ℝ) ≤ 10 ^ 18 := by exact_mod_cast hle
        _ ≤ 10 ^ 308 := pow_le_pow_right₀ (by norm_num) (by decide)
    have hround : roundUnits ((m : ℝ) / 10 ^ 308 * 2 ^ 1074) ≤ 2 ^ 52 + 1022 * 2 ^ 52 := by
      refine roundUnits_le (by positivity) ?_
      rw [hunit]
      exact mul_le_of_le_one_left (by positivity) hquot
    exact lt_of_le_of_lt (Nat.add_le_add_right hround _) (by decide)
  · have hnat : 10 ^ 308 * 2 ^ 106 ≤ 9007199254740991 ^ 2 * 2 ^ 1024 := by decide +kernel
    have hreal : (10 : ℝ) ^ 308 * 2 ^ 106 ≤ 9007199254740991 ^ 2 * 2 ^ 1024 := by
      have hcast := (Nat.cast_le (α := ℝ)).2 hnat
      rw [Nat.cast_mul, Nat.cast_mul, Nat.cast_pow, Nat.cast_pow, Nat.cast_pow, Nat.cast_pow]
        at hcast
      simpa only [Nat.cast_ofNat] using hcast
    have hkept : kept = 9007199254740991 / 2 ^ 53 := by norm_num [kept]
    have hpow : (2 : ℝ) ^ 1074 = 2 ^ 50 * 2 ^ 1024 := pow_add 2 50 1024
    have hvalue (p q : ℝ) : (9007199254740991 / 2 ^ 53 : ℝ) ^ (1 + 1) * (m / p * (2 ^ 50 * q)) =
        2 ^ 50 * (m * (9007199254740991 ^ 2 * q / (p * 2 ^ 106))) := by ring
    rw [hkept, hpow, hvalue]
    refine le_mul_of_one_le_right (by positivity) (one_le_mul_of_one_le_of_one_le hone ?_)
    rwa [one_le_div (by positivity)]

/-- A decimal that is not rounded to zero has a power of ten that two quotients reach. -/
theorem le_exponent_of_pos {m : ℕ} (hle : m ≤ 10 ^ 18) {e : ℤ}
    (h : 0 < roundUnits (m * 10 ^ e * 2 ^ 1074)) : -616 ≤ e := by
  by_contra hlow
  have hsmall : (m : ℝ) * 10 ^ e * 2 ^ 1074 < 1 / 2 := by
    have hm : (m : ℝ) ≤ 10 ^ 18 := by exact_mod_cast hle
    have he : (10 : ℝ) ^ e ≤ 10 ^ (-418 : ℤ) := zpow_le_zpow_right₀ (by norm_num) (by omega)
    calc (m : ℝ) * 10 ^ e * 2 ^ 1074 ≤ 10 ^ 18 * 10 ^ (-418 : ℤ) * 2 ^ 1074 :=
          mul_le_mul_of_nonneg_right (mul_le_mul hm he (by positivity) (by positivity))
            (by positivity)
      _ = 10 ^ (-400 : ℤ) * 2 ^ (1074 : ℤ) := by
          rw [← zpow_natCast, ← zpow_add₀ (by norm_num)]
          rfl
      _ < 1 / 2 := BinaryFormat.ten_zpow_mul_units_lt_half
  rw [BinaryFormat.roundUnits_of_lt_half (by positivity) hsmall] at h
  exact lt_irrefl 0 h

/-- A decimal that is not rounded to the infinity has a power of ten that is a number of the
format. -/
theorem exponent_le_of_lt {m : ℕ} (hm : 0 < m) {e : ℤ}
    (h : roundUnits (m * 10 ^ e * 2 ^ 1074) < infiniteMagnitude) : e ≤ 308 := by
  by_contra hhigh
  refine absurd (le_roundUnits ?_) (Nat.not_le.2 h)
  have hinf : (units infiniteMagnitude : ℝ) = 2 ^ 1024 * 2 ^ 1074 := by
    rw [show infiniteMagnitude = BinaryFormat.binary64.infinity from rfl,
      BinaryFormat.units_infinity, Nat.cast_mul, Nat.cast_pow, Nat.cast_pow, Nat.cast_ofNat]
  have hpow : (2 : ℝ) ^ 1024 ≤ 10 ^ (309 : ℤ) := by
    have hnat : 2 ^ 1024 ≤ 10 ^ 309 := by decide +kernel
    have hcast := (Nat.cast_le (α := ℝ)).2 hnat
    rw [Nat.cast_pow, Nat.cast_pow] at hcast
    exact hcast
  rw [hinf]
  refine mul_le_mul_of_nonneg_right ?_ (by positivity)
  calc (2 : ℝ) ^ 1024 ≤ 10 ^ (309 : ℤ) := hpow
    _ ≤ 10 ^ e := zpow_le_zpow_right₀ (by norm_num) (by omega)
    _ ≤ m * 10 ^ e := le_mul_of_one_le_left (by positivity) (Nat.one_le_cast.2 hm)

/-- How many places a number may be off that is read fast with a power of ten. -/
def places (e : ℤ) : ℕ := if e < -308 then 9 else 3

/-- **A significand is scaled to a word rounded from near the decimal.** -/
theorem exists_scaleDecimal? {m : ℕ} (hm : 0 < m) (hle : m ≤ 10 ^ 18) {e : ℤ} (hlo : -616 ≤ e)
    (hhi : e ≤ 308) : ∃ t n, n + 1 = places e ∧ RoundedFrom t n (m * 10 ^ e) ∧
      (t.isFinite = true → scaleDecimal? 4 (ofUInt64 (.ofNat m)) e = some t) := by
  have hword := (approximates_ofUInt64 hm (hle.trans_lt (by decide))).1
  rcases Int.lt_or_le e (-308) with hfar | hnear
  · have hquot := hword.div_powerOfTen hm hle
    obtain ⟨t, hrounded, hscale⟩ := hquot.exists_scaled (e := e + 308) (by positivity)
      (approximates_powerOfTen (by omega)).1 (by omega) 2
    have hsplit : (m : ℝ) / 10 ^ 308 * 10 ^ (e + 308) = m * 10 ^ e := by
      rw [zpow_add₀ (by norm_num)]
      field_simp
    rw [hsplit] at hrounded
    refine ⟨t, 8, by rw [places, if_pos hfar], hrounded, fun hfin => ?_⟩
    have hzero := hword.magnitude_ne_zero (Nat.cast_pos.2 hm)
    rw [scaleDecimal?, if_neg (by omega), if_neg hzero, if_neg (by omega)]
    exact hscale hfin
  · obtain ⟨t, hrounded, hscale⟩ := hword.exists_scaled (e := e) (Nat.cast_nonneg m)
      (approximates_powerOfTen (by omega)).1 (by omega) 3
    exact ⟨t, 2, by rw [places, if_neg (by omega)], hrounded, hscale⟩

/-- **Few digits and a small power of ten are read exactly.** -/
theorem scaleDecimal?_of_le {m : ℕ} (hm : 0 < m) (hfew : m ≤ 2 ^ 53) {e : ℤ} (he : e.natAbs ≤ 22)
    {x : Binary64} (hx : x.isFinite = true) (hn : x.negative = false)
    (hround : roundUnits (m * 10 ^ e * 2 ^ 1074) = x.magnitude) :
    scaleDecimal? 4 (ofUInt64 (.ofNat m)) e = some x := by
  have hword := (approximates_ofUInt64 hm (hfew.trans_lt (by decide))).2 hfew
  obtain ⟨t, hrounded, hscale⟩ := hword.exists_scaled (Nat.cast_nonneg m)
    ((approximates_powerOfTen (by omega)).2 he) (by omega) 3
  have hlt : x.magnitude < infiniteMagnitude := of_decide_eq_true hx
  have hmag : t.magnitude = x.magnitude := by
    rw [hrounded.magnitude_eq, hround, min_eq_right hlt.le]
  have heq : t = x := ext_magnitude (hrounded.negative.trans hn.symm) hmag
  rw [← heq]
  exact hscale (heq ▸ hx)

end Binary64

end Gazetteer
