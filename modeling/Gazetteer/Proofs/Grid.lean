import Mathlib.Algebra.Order.Archimedean.Real.Basic
import Mathlib.Algebra.Order.Floor.Semiring
import Mathlib.Data.Nat.Log
import Mathlib.Tactic.Linarith
import Mathlib.Tactic.Positivity
import Mathlib.Tactic.Ring
import Mathlib.Tactic.NormNum
import Mathlib.Tactic.FieldSimp

/-!
# The grid of binary64 numbers

Every finite magnitude is a whole number of units of `2 ^ -1074`. `units` gives that number, also
for the magnitudes beyond the format, so that the grid goes on for ever; `roundUnits` gives the
magnitude on the grid nearest to a real number of units, a tie going to the even one. Rounding keeps
the order, leaves the grid where it is, and moves nothing by more than half a step.
-/

namespace Gazetteer

/-! ## Magnitudes in units -/

/-- The number of units that a magnitude stands for. -/
def units (n : ℕ) : ℕ :=
  if n < 2 ^ 52 then n else (2 ^ 52 + n % 2 ^ 52) * 2 ^ (n / 2 ^ 52 - 1)

/-- The magnitude of a significand and a shift. A significand of `2 ^ 53` is allowed: it is what a
rounding may carry into. -/
theorem units_add_mul {m s : ℕ} (hm : m ≤ 2 ^ 53) (hs : s = 0 ∨ 2 ^ 52 ≤ m) :
    units (m + s * 2 ^ 52) = m * 2 ^ s := by
  unfold units
  split
  · have : s = 0 := by omega
    subst this
    simp
  · rename_i hn
    rcases Nat.lt_or_ge m (2 ^ 53) with h | h
    · have hdiv : (m + s * 2 ^ 52) / 2 ^ 52 = s + 1 := by omega
      have hmod : (m + s * 2 ^ 52) % 2 ^ 52 = m - 2 ^ 52 := by omega
      rw [hdiv, hmod, Nat.add_sub_cancel, Nat.add_sub_cancel' (by omega)]
    · have hdiv : (m + s * 2 ^ 52) / 2 ^ 52 = s + 2 := by omega
      have hmod : (m + s * 2 ^ 52) % 2 ^ 52 = 0 := by omega
      have he : m = 2 ^ 53 := by omega
      rw [hdiv, hmod, he, Nat.add_zero, show s + 2 - 1 = s + 1 by omega, Nat.pow_succ]
      ring

/-- Every magnitude has a significand and a shift. -/
theorem exists_significand (n : ℕ) :
    ∃ m s, m < 2 ^ 53 ∧ (s = 0 ∨ 2 ^ 52 ≤ m) ∧ n = m + s * 2 ^ 52 := by
  rcases Nat.lt_or_ge n (2 ^ 52) with h | h
  · exact ⟨n, 0, by omega, Or.inl rfl, by omega⟩
  · exact ⟨2 ^ 52 + n % 2 ^ 52, n / 2 ^ 52 - 1, by omega, Or.inr (by omega), by omega⟩

/-- The step to the next magnitude. -/
theorem units_succ (n : ℕ) : ∃ m s, m < 2 ^ 53 ∧ units n = m * 2 ^ s ∧
    units (n + 1) = (m + 1) * 2 ^ s := by
  obtain ⟨m, s, hm, hs, rfl⟩ := exists_significand n
  refine ⟨m, s, hm, units_add_mul (by omega) hs, ?_⟩
  rw [Nat.add_right_comm]
  exact units_add_mul (by omega) (by omega)

theorem strictMono_units : StrictMono units := by
  refine strictMono_nat_of_lt_succ fun n => ?_
  obtain ⟨m, s, -, hn, hsucc⟩ := units_succ n
  rw [hn, hsucc]
  exact Nat.mul_lt_mul_of_pos_right (Nat.lt_succ_self m) (Nat.two_pow_pos s)

@[simp] theorem units_le_units {m n : ℕ} : units m ≤ units n ↔ m ≤ n := strictMono_units.le_iff_le

@[simp] theorem units_zero : units 0 = 0 := rfl

theorem units_pos {n : ℕ} : 0 < units n ↔ 0 < n := by
  have := strictMono_units.lt_iff_lt (a := 0) (b := n)
  simpa using this

/-- A step is no less than a part in `2 ^ 53` of where it leads. -/
theorem units_succ_le (n : ℕ) : units (n + 1) ≤ 2 ^ 53 * (units (n + 1) - units n) := by
  obtain ⟨m, s, hm, hn, hsucc⟩ := units_succ n
  rw [hn, hsucc, ← Nat.sub_mul, Nat.add_sub_cancel_left, Nat.one_mul]
  exact Nat.mul_le_mul_right _ hm

/-! ## The nearest whole number -/

/-- The numeral two stands for itself: the definitions that halve or double share this fact. -/
instance atLeastTwo_two : Nat.AtLeastTwo 2 := ⟨Nat.le_refl 2⟩

/-- The whole number nearest to a real one, a half going to the even neighbour. -/
noncomputable def nearestEven (z : ℝ) : ℕ :=
  if z - ⌊z⌋₊ < 1 / 2 then ⌊z⌋₊ else if 1 / 2 < z - ⌊z⌋₊ then ⌊z⌋₊ + 1 else ⌊z⌋₊ + ⌊z⌋₊ % 2

theorem floor_le_nearestEven (z : ℝ) : ⌊z⌋₊ ≤ nearestEven z := by
  unfold nearestEven
  split
  · exact Nat.le_refl _
  · split
    · exact Nat.le_succ _
    · exact Nat.le_add_right _ _

theorem nearestEven_le (z : ℝ) : nearestEven z ≤ ⌊z⌋₊ + 1 := by
  unfold nearestEven
  split
  · exact Nat.le_succ _
  · split
    · exact Nat.le_refl _
    · omega

theorem nearestEven_mono {z w : ℝ} (h : z ≤ w) : nearestEven z ≤ nearestEven w := by
  have hfloor : ⌊z⌋₊ ≤ ⌊w⌋₊ := Nat.floor_mono h
  rcases hfloor.lt_or_eq with hlt | heq
  · exact (nearestEven_le z).trans (hlt.trans_le (floor_le_nearestEven w))
  · unfold nearestEven
    rw [heq]
    split_ifs <;> first | omega | (exfalso; linarith)

/-- What lies within half a step of a whole number is rounded to it. -/
theorem nearestEven_eq {z : ℝ} {m : ℕ} (hlo : (m : ℝ) - 1 / 2 < z) (hhi : z < m + 1 / 2) :
    nearestEven z = m := by
  rcases le_or_gt (m : ℝ) z with h | h
  · have hfloor : ⌊z⌋₊ = m := (Nat.floor_eq_iff (by linarith [Nat.cast_nonneg (α := ℝ) m])).2
      ⟨h, by linarith⟩
    rw [nearestEven, hfloor, if_pos (by linarith)]
  · cases m with
    | zero =>
      have hfloor : ⌊z⌋₊ = 0 := Nat.floor_of_nonpos (by simpa using h.le)
      rw [nearestEven, hfloor, if_pos (by simpa using hhi)]
    | succ k =>
      push_cast at hlo h
      have hfloor : ⌊z⌋₊ = k := (Nat.floor_eq_iff (by linarith [Nat.cast_nonneg (α := ℝ) k])).2
        ⟨by linarith, h⟩
      rw [nearestEven, hfloor, if_neg (by linarith), if_pos (by linarith)]

@[simp] theorem nearestEven_natCast (m : ℕ) : nearestEven m = m :=
  nearestEven_eq (by linarith) (by linarith)

/-- Rounding lowers a number by at most a half. -/
theorem le_nearestEven (z : ℝ) : z ≤ nearestEven z + 1 / 2 := by
  have hlt := Nat.lt_floor_add_one z
  unfold nearestEven
  split_ifs with h₁ h₂
  · linarith
  · push_cast
    linarith
  · have : (0 : ℝ) ≤ ((⌊z⌋₊ % 2 : ℕ) : ℝ) := Nat.cast_nonneg _
    push_cast at *
    linarith

/-- Rounding raises a number by at most a half. -/
theorem nearestEven_le_add {z : ℝ} (hz : 0 ≤ z) : nearestEven z ≤ z + 1 / 2 := by
  have hle := Nat.floor_le hz
  unfold nearestEven
  split_ifs with h₁ h₂
  · linarith
  · push_cast
    linarith
  · have : ((⌊z⌋₊ % 2 : ℕ) : ℝ) ≤ 1 := by
      exact_mod_cast Nat.le_of_lt_succ (Nat.mod_lt _ two_pos)
    push_cast at *
    linarith

/-! ## The nearest magnitude -/

/-- A shift is that of a number if the number, shifted, has a significand of 53 bits, or of fewer
where nothing is shifted. -/
structure ShiftOf (s : ℕ) (x : ℝ) : Prop where
  nonneg : 0 ≤ x
  le : s = 0 ∨ 2 ^ 52 * 2 ^ s ≤ x
  lt : x < 2 ^ 53 * 2 ^ s

/-- The shift of a number of units. -/
noncomputable def shiftOf (x : ℝ) : ℕ := Nat.log 2 ⌊x⌋₊ - 52

/-- The magnitude nearest to a number of units. -/
noncomputable def roundUnits (x : ℝ) : ℕ := nearestEven (x / 2 ^ shiftOf x) + shiftOf x * 2 ^ 52

theorem shiftOf_spec {x : ℝ} (hx : 0 ≤ x) : ShiftOf (shiftOf x) x := by
  refine ⟨hx, ?_, ?_⟩
  · rcases Nat.eq_zero_or_pos (shiftOf x) with h | h
    · exact Or.inl h
    · unfold shiftOf at h
      have hne : ⌊x⌋₊ ≠ 0 := fun h0 => by simp [h0] at h
      have hpow := Nat.pow_log_le_self 2 hne
      have hlog : 52 + shiftOf x = Nat.log 2 ⌊x⌋₊ := by
        unfold shiftOf
        omega
      rw [← hlog, pow_add] at hpow
      have hcast : ((2 ^ 52 * 2 ^ shiftOf x : ℕ) : ℝ) ≤ x :=
        (Nat.cast_le.2 hpow).trans (Nat.floor_le hx)
      exact Or.inr (by exact_mod_cast hcast)
  · have hlt := Nat.lt_pow_succ_log_self Nat.one_lt_two ⌊x⌋₊
    have hle : 2 ^ (Nat.log 2 ⌊x⌋₊).succ ≤ 2 ^ 53 * 2 ^ shiftOf x := by
      rw [← pow_add]
      refine Nat.pow_le_pow_right (by decide) ?_
      unfold shiftOf
      omega
    have hcast : (⌊x⌋₊ : ℝ) + 1 ≤ 2 ^ 53 * 2 ^ shiftOf x := by
      exact_mod_cast Nat.succ_le_of_lt (hlt.trans_le hle)
    exact (Nat.lt_floor_add_one x).trans_le hcast

namespace ShiftOf

variable {s t : ℕ} {x y : ℝ}

theorem le_of_le (hs : ShiftOf s x) (ht : ShiftOf t y) (h : x ≤ y) : s ≤ t := by
  by_contra hlt
  obtain ⟨k, rfl⟩ : ∃ k, s = t + 1 + k := ⟨s - (t + 1), by omega⟩
  have hlo := hs.le.resolve_left (by omega)
  have hhi := ht.lt
  have hk : (1 : ℝ) ≤ 2 ^ k := one_le_pow₀ (by norm_num)
  have ht0 : (0 : ℝ) < 2 ^ t := by positivity
  rw [pow_add, pow_add, pow_one] at hlo
  nlinarith

theorem eq_shiftOf (hs : ShiftOf s x) : s = shiftOf x :=
  Nat.le_antisymm (hs.le_of_le (shiftOf_spec hs.nonneg) le_rfl)
    ((shiftOf_spec hs.nonneg).le_of_le hs le_rfl)

/-- The significand of a rounded number has at most 53 bits, up to a carry. -/
theorem nearestEven_le (hs : ShiftOf s x) : nearestEven (x / 2 ^ s) ≤ 2 ^ 53 := by
  have hlt : x / 2 ^ s < ((2 ^ 53 : ℕ) : ℝ) := by
    rw [div_lt_iff₀ (by positivity)]
    exact_mod_cast hs.lt
  calc nearestEven (x / 2 ^ s) ≤ nearestEven ((2 ^ 53 : ℕ) : ℝ) := nearestEven_mono hlt.le
    _ = 2 ^ 53 := nearestEven_natCast _

theorem le_nearestEven (hs : ShiftOf s x) : s = 0 ∨ 2 ^ 52 ≤ nearestEven (x / 2 ^ s) := by
  refine hs.le.imp_right fun h => ?_
  have hle : ((2 ^ 52 : ℕ) : ℝ) ≤ x / 2 ^ s := by
    rw [le_div_iff₀ (by positivity)]
    exact_mod_cast h
  calc 2 ^ 52 = nearestEven ((2 ^ 52 : ℕ) : ℝ) := (nearestEven_natCast _).symm
    _ ≤ nearestEven (x / 2 ^ s) := nearestEven_mono hle

theorem roundUnits_eq (hs : ShiftOf s x) :
    roundUnits x = nearestEven (x / 2 ^ s) + s * 2 ^ 52 := by
  rw [roundUnits, ← hs.eq_shiftOf]

theorem units_roundUnits (hs : ShiftOf s x) :
    units (roundUnits x) = nearestEven (x / 2 ^ s) * 2 ^ s := by
  rw [hs.roundUnits_eq, units_add_mul hs.nearestEven_le hs.le_nearestEven]

end ShiftOf

/-- **Rounding keeps the order.** -/
theorem roundUnits_mono {x y : ℝ} (hx : 0 ≤ x) (h : x ≤ y) : roundUnits x ≤ roundUnits y := by
  have hsx := shiftOf_spec hx
  have hsy := shiftOf_spec (hx.trans h)
  rw [roundUnits, roundUnits]
  rcases (hsx.le_of_le hsy h).lt_or_eq with hlt | heq
  · have := hsx.nearestEven_le
    have := hsy.le_nearestEven
    omega
  · rw [heq]
    have hdiv : x / 2 ^ shiftOf y ≤ y / 2 ^ shiftOf y :=
      div_le_div_of_nonneg_right h (by positivity)
    exact Nat.add_le_add_right (nearestEven_mono hdiv) _

/-- **Rounding leaves the grid where it is.** -/
@[simp] theorem roundUnits_units (n : ℕ) : roundUnits (units n) = n := by
  obtain ⟨m, s, hm, hs, rfl⟩ := exists_significand n
  have hu : (units (m + s * 2 ^ 52) : ℝ) = m * 2 ^ s := by
    rw [units_add_mul hm.le hs]
    push_cast
    rfl
  have hshift : ShiftOf s (units (m + s * 2 ^ 52)) := by
    rw [hu]
    refine ⟨by positivity, hs.imp_right fun h => ?_, ?_⟩
    · have : (2 : ℝ) ^ 52 ≤ m := by exact_mod_cast h
      exact mul_le_mul_of_nonneg_right this (by positivity)
    · have : (m : ℝ) < 2 ^ 53 := by exact_mod_cast hm
      exact mul_lt_mul_of_pos_right this (by positivity)
  rw [hshift.roundUnits_eq, hu, mul_div_assoc, div_self (by positivity), mul_one,
    nearestEven_natCast]

@[simp] theorem roundUnits_zero : roundUnits 0 = 0 := by
  simpa using roundUnits_units 0

theorem le_roundUnits {n : ℕ} {x : ℝ} (h : (units n : ℝ) ≤ x) : n ≤ roundUnits x := by
  calc n = roundUnits (units n) := (roundUnits_units n).symm
    _ ≤ roundUnits x := roundUnits_mono (Nat.cast_nonneg _) h

theorem roundUnits_le {n : ℕ} {x : ℝ} (hx : 0 ≤ x) (h : x ≤ units n) : roundUnits x ≤ n := by
  calc roundUnits x ≤ roundUnits (units n) := roundUnits_mono hx h
    _ = n := roundUnits_units n

/-- A shift takes away no more than a number of full precision can spare. -/
theorem two_pow_shiftOf_le {x : ℝ} (hx : 2 ^ 52 ≤ x) : 2 ^ 52 * 2 ^ shiftOf x ≤ x := by
  rcases (shiftOf_spec (le_trans (by positivity) hx)).le with h | h
  · rw [h]
    linarith
  · exact h

/-- Rounding lowers a number of full precision by at most a part in `2 ^ 53`. -/
theorem le_units_roundUnits {x : ℝ} (hx : 2 ^ 52 ≤ x) :
    x - x / 2 ^ 53 ≤ units (roundUnits x) := by
  have hs := shiftOf_spec (le_trans (by positivity) hx)
  have hstep := two_pow_shiftOf_le hx
  have hround := le_nearestEven (x / 2 ^ shiftOf x)
  have hpos : (0 : ℝ) < 2 ^ shiftOf x := by positivity
  have hx' : x = x / 2 ^ shiftOf x * 2 ^ shiftOf x := by field_simp
  rw [hs.units_roundUnits]
  push_cast
  nlinarith

/-- Rounding raises a number of full precision by at most a part in `2 ^ 53`. -/
theorem units_roundUnits_le {x : ℝ} (hx : 2 ^ 52 ≤ x) :
    units (roundUnits x) ≤ x + x / 2 ^ 53 := by
  have hx0 : 0 ≤ x := le_trans (by positivity) hx
  have hs := shiftOf_spec hx0
  have hstep := two_pow_shiftOf_le hx
  have hround := nearestEven_le_add (z := x / 2 ^ shiftOf x) (by positivity)
  have hpos : (0 : ℝ) < 2 ^ shiftOf x := by positivity
  have hx' : x = x / 2 ^ shiftOf x * 2 ^ shiftOf x := by field_simp
  rw [hs.units_roundUnits]
  push_cast
  nlinarith

end Gazetteer
