import Gazetteer.Proofs.DecimalRounding

/-!
# The shortest decimal reads back

The reals that are rounded to a number form an interval. The shortest decimal is taken from this
interval, so it is rounded to the number again. There always is one: with eighteen digits the points
of the decimal grid lie closer together than the number and the end of its interval.
-/

namespace Gazetteer

/-! ## Intervals -/

namespace RoundingInterval

variable {r : RoundingInterval} {num den : ℕ}

/-- What an interval contains lies between its ends, and inside them where they do not belong to
it. -/
theorem bounds_of_contains (hr : 0 < r.den) (hden : 0 < den) (h : r.contains num den = true) :
    (r.low : ℝ) / r.den ≤ num / den ∧ (num : ℝ) / den ≤ r.high / r.den ∧
      (r.closed = true ∨ (r.low : ℝ) / r.den < num / den ∧ (num : ℝ) / den < r.high / r.den) := by
  have hr' : (0 : ℝ) < r.den := Nat.cast_pos.2 hr
  have hden' : (0 : ℝ) < den := Nat.cast_pos.2 hden
  simp only [div_le_div_iff₀ hr' hden', div_le_div_iff₀ hden' hr', div_lt_div_iff₀ hr' hden',
    div_lt_div_iff₀ hden' hr']
  unfold contains at h
  split at h
  · rename_i hclosed
    rw [Bool.and_eq_true, decide_eq_true_eq, decide_eq_true_eq] at h
    have hlo : (r.low : ℝ) * den ≤ num * r.den := by exact_mod_cast h.1
    have hhi : (num : ℝ) * r.den ≤ r.high * den := by exact_mod_cast h.2
    exact ⟨hlo, hhi, Or.inl hclosed⟩
  · rw [Bool.and_eq_true, decide_eq_true_eq, decide_eq_true_eq] at h
    have hlo : (r.low : ℝ) * den < num * r.den := by exact_mod_cast h.1
    have hhi : (num : ℝ) * r.den < r.high * den := by exact_mod_cast h.2
    exact ⟨hlo.le, hhi.le, Or.inr ⟨hlo, hhi⟩⟩

/-- An interval contains what lies inside its ends. -/
theorem contains_of_lt (hr : 0 < r.den) (hden : 0 < den) (hlo : (r.low : ℝ) / r.den < num / den)
    (hhi : (num : ℝ) / den < r.high / r.den) : r.contains num den = true := by
  have hr' : (0 : ℝ) < r.den := Nat.cast_pos.2 hr
  have hden' : (0 : ℝ) < den := Nat.cast_pos.2 hden
  rw [div_lt_div_iff₀ hr' hden'] at hlo
  rw [div_lt_div_iff₀ hden' hr'] at hhi
  have hlo' : r.low * den < num * r.den := by exact_mod_cast hlo
  have hhi' : num * r.den < r.high * den := by exact_mod_cast hhi
  unfold contains
  split
  · simp [hlo'.le, hhi'.le]
  · simp [hlo', hhi']

variable {tie : Tie} {s : ℤ} {c : ℕ}

/-- The multiple of a power of ten that lies below a number. -/
def below (r : RoundingInterval) (s : ℤ) : ℕ :=
  r.value * (scaleByTen 1 1 s).2 / (r.den * (scaleByTen 1 1 s).1)

/-- A neighbour on the grid is one of two, and lies in the interval. -/
theorem neighbour?_eq_some (h : r.neighbour? tie s = some c) : c ≤ r.below s + 1 ∧
    r.contains (c * (scaleByTen 1 1 s).1) (scaleByTen 1 1 s).2 = true := by
  unfold neighbour? at h
  dsimp only at h
  have hbelow : r.value * (scaleByTen 1 1 s).2 / (r.den * (scaleByTen 1 1 s).1) = r.below s := rfl
  rw [hbelow] at h
  split at h
  · rename_i hlow hhigh
    split at h
    · cases h
      exact ⟨le_rfl, hhigh⟩
    · cases h
      exact ⟨Nat.le_succ _, hlow⟩
  · rename_i hlow _
    cases h
    exact ⟨Nat.le_succ _, hlow⟩
  · rename_i _ hhigh
    cases h
    exact ⟨le_rfl, hhigh⟩
  · cases h

/-- There is a neighbour if the one above lies in the interval. -/
theorem exists_neighbour? (h : r.contains ((r.below s + 1) * (scaleByTen 1 1 s).1)
    (scaleByTen 1 1 s).2 = true) : ∃ c, r.neighbour? tie s = some c := by
  unfold neighbour?
  dsimp only
  rw [show r.value * (scaleByTen 1 1 s).2 / (r.den * (scaleByTen 1 1 s).1) = r.below s from rfl, h]
  split
  · exact ⟨_, rfl⟩
  · exact ⟨_, rfl⟩
  · exact ⟨_, rfl⟩
  · rename_i hnone
    cases hnone

/-- A number lies between two neighbouring points of a decimal grid. -/
theorem below_spec (hr : 0 < r.den) (s : ℤ) : (r.below s : ℝ) * 10 ^ s ≤ r.value / r.den ∧
    (r.value : ℝ) / r.den < (r.below s + 1) * 10 ^ s := by
  obtain ⟨hden, hscale⟩ := scaleByTen_spec one_pos 1 s
  unfold below
  generalize scaleByTen 1 1 s = p at hden hscale
  obtain ⟨unit, den⟩ := p
  dsimp only at hden hscale ⊢
  rw [Nat.cast_one, div_one, one_mul] at hscale
  have hr' : (0 : ℝ) < r.den := Nat.cast_pos.2 hr
  have hden' : (0 : ℝ) < den := Nat.cast_pos.2 hden
  have hunit' : (0 : ℝ) < unit := by
    have hpos : (0 : ℝ) < 10 ^ s := zpow_pos (by norm_num) s
    rw [← hscale] at hpos
    exact (div_pos_iff_of_pos_right hden').1 hpos
  have hunit : 0 < unit := Nat.cast_pos.1 hunit'
  rw [← hscale, mul_div_assoc', mul_div_assoc', div_le_div_iff₀ hden' hr',
    div_lt_div_iff₀ hr' hden']
  have hlo := Nat.div_mul_le_self (r.value * den) (r.den * unit)
  have hhi := Nat.lt_div_mul_add (a := r.value * den) (Nat.mul_pos hr hunit)
  generalize r.value * den / (r.den * unit) = q at hlo hhi
  constructor
  · exact_mod_cast (by linarith : q * unit * r.den ≤ r.value * den)
  · exact_mod_cast (by linarith : r.value * den < (q + 1) * unit * r.den)

end RoundingInterval

/-! ## The interval of a magnitude -/

/-- The whole number nearest to what lies within a half of it, where a half only occurs at an even
one. -/
theorem nearestEven_eq_of_le {z : ℝ} {m : ℕ} (hlo : (m : ℝ) - 1 / 2 ≤ z) (hhi : z ≤ m + 1 / 2)
    (htie : m % 2 = 0 ∨ (m : ℝ) - 1 / 2 < z ∧ z < m + 1 / 2) : nearestEven z = m := by
  rcases htie with heven | ⟨hlo, hhi⟩
  · rcases hlo.lt_or_eq with hlo | hlo
    · rcases hhi.lt_or_eq with hhi | hhi
      · exact nearestEven_eq hlo hhi
      · have hfloor : ⌊z⌋₊ = m := (Nat.floor_eq_iff (by rw [hhi]; positivity)).2
          ⟨by linarith, by linarith⟩
        rw [nearestEven, hfloor, if_neg (by linarith), if_neg (by linarith), heven, Nat.add_zero]
    · cases m with
      | zero =>
        have hfloor : ⌊z⌋₊ = 0 := Nat.floor_of_nonpos (by rw [← hlo]; norm_num)
        rw [nearestEven, hfloor, if_pos (by rw [← hlo]; norm_num)]
      | succ n =>
        push_cast at hlo
        have hn : (0 : ℝ) ≤ n := Nat.cast_nonneg n
        have hfloor : ⌊z⌋₊ = n := (Nat.floor_eq_iff (by linarith)).2 ⟨by linarith, by linarith⟩
        rw [nearestEven, hfloor, if_neg (by linarith), if_neg (by linarith)]
        omega
  · exact nearestEven_eq hlo hhi

namespace BinaryFormat

/-- Where the interval of a significand begins, in quarters of a step. Below a power of two the
steps are half as long. -/
def lowQuarters (m s : ℕ) : ℕ := if m = 2 ^ 52 ∧ 0 < s then 4 * m - 1 else 4 * m - 2

variable {m s : ℕ}

/-- Steps are rounded to whole ones if their number has the size of a significand. -/
theorem roundUnits_mul_two_pow {z : ℝ} (hz : 0 ≤ z) (hs : s = 0 ∨ 2 ^ 52 ≤ z) (hlt : z < 2 ^ 53) :
    roundUnits (z * 2 ^ s) = nearestEven z + s * 2 ^ 52 := by
  have hstep : (0 : ℝ) < 2 ^ s := pow_pos two_pos s
  have hshift : ShiftOf s (z * 2 ^ s) := ⟨mul_nonneg hz hstep.le,
    hs.imp_right fun h => mul_le_mul_of_nonneg_right h hstep.le,
    mul_lt_mul_of_pos_right hlt hstep⟩
  rw [hshift.roundUnits_eq, mul_div_assoc, div_self hstep.ne', mul_one]

/-- Around a power of two: what is rounded to the least significand of a shift, from both sides. -/
theorem roundUnits_near_two_pow {z : ℝ} (hlo : (2 : ℝ) ^ 52 - 1 / 4 ≤ z) (hhi : z ≤ 2 ^ 52 + 1 / 2)
    (hs : 0 < s) : roundUnits (z * 2 ^ s) = 2 ^ 52 + s * 2 ^ 52 := by
  norm_num at hlo hhi
  rcases le_or_gt ((2 : ℝ) ^ 52) z with hge | hlt
  · rw [roundUnits_mul_two_pow (by linarith) (Or.inr hge) (by norm_num; linarith),
      nearestEven_eq_of_le (m := 2 ^ 52) (by norm_num; linarith) (by norm_num; linarith)
        (Or.inl (by norm_num))]
  · -- with half the step, a significand is carried into the power of two
    obtain ⟨t, rfl⟩ : ∃ t, s = t + 1 := ⟨s - 1, by omega⟩
    have hdouble : z * 2 ^ (t + 1) = 2 * z * 2 ^ t := by ring
    norm_num at hlt
    rw [hdouble, roundUnits_mul_two_pow (by linarith) (Or.inr (by norm_num; linarith))
        (by norm_num; linarith),
      nearestEven_eq_of_le (m := 2 ^ 53) (by norm_num; linarith) (by norm_num; linarith)
        (Or.inl (by norm_num))]
    ring

/-- What lies in the interval of a magnitude, in units, is rounded to the magnitude. -/
theorem roundUnits_of_mem {y : ℝ} (hpos : 0 < m) (hm : m < 2 ^ 53) (hs : s = 0 ∨ 2 ^ 52 ≤ m)
    (hlo : (lowQuarters m s : ℝ) / 4 * 2 ^ s ≤ y) (hhi : y ≤ (4 * m + 2 : ℕ) / 4 * 2 ^ s)
    (htie : m % 2 = 0 ∨ (lowQuarters m s : ℝ) / 4 * 2 ^ s < y ∧ y < (4 * m + 2 : ℕ) / 4 * 2 ^ s) :
    roundUnits y = m + s * 2 ^ 52 := by
  have hstep : (0 : ℝ) < 2 ^ s := pow_pos two_pos s
  obtain ⟨z, rfl⟩ : ∃ z, z * 2 ^ s = y := ⟨y / 2 ^ s, div_mul_cancel₀ _ hstep.ne'⟩
  have hhigh : ((4 * m + 2 : ℕ) : ℝ) / 4 = m + 1 / 2 := by
    push_cast
    ring
  rw [hhigh] at hhi htie
  rw [mul_le_mul_iff_left₀ hstep] at hlo hhi
  simp only [mul_lt_mul_iff_left₀ hstep] at htie
  by_cases hleast : m = 2 ^ 52 ∧ 0 < s
  · obtain ⟨rfl, hs0⟩ := hleast
    rw [lowQuarters, if_pos ⟨rfl, hs0⟩] at hlo
    refine roundUnits_near_two_pow ?_ (by exact_mod_cast hhi) hs0
    norm_num at hlo ⊢
    linarith
  · have hlow : (lowQuarters m s : ℝ) / 4 = m - 1 / 2 := by
      rw [lowQuarters, if_neg hleast, Nat.cast_sub (by omega)]
      push_cast
      ring
    rw [hlow] at hlo htie
    have hm' : (m : ℝ) + 1 ≤ 2 ^ 53 := by exact_mod_cast hm
    have hpos' : (1 : ℝ) ≤ m := by exact_mod_cast hpos
    have hfull : s = 0 ∨ (2 : ℝ) ^ 52 ≤ z := by
      rcases Nat.eq_zero_or_pos s with hs0 | hs0
      · exact Or.inl hs0
      · have hnext : 2 ^ 52 + 1 ≤ m := by omega
        have hnext' : (2 : ℝ) ^ 52 + 1 ≤ m := by exact_mod_cast hnext
        exact Or.inr (by linarith)
    rw [roundUnits_mul_two_pow (by linarith) hfull (by linarith), nearestEven_eq_of_le hlo hhi htie]

theorem decode_eq {k : ℕ} (hm : m < 2 ^ 53) (hs : s = 0 ∨ 2 ^ 52 ≤ m) (hk : k = m + s * 2 ^ 52) :
    binary64.decode k = (m, (s : ℤ) - 1074) := by
  have hleading : Nat.pow 2 binary64.fractionBits = 2 ^ 52 := rfl
  have hmin : binary64.minExponent = -1074 := rfl
  unfold decode
  rw [hleading, hmin]
  dsimp only
  split
  · refine Prod.ext ?_ ?_
    · dsimp only
      omega
    · dsimp only
      omega
  · refine Prod.ext ?_ ?_
    · dsimp only
      omega
    · dsimp only
      omega

/-- The interval of a magnitude, in reals. -/
structure IntervalOf (m s : ℕ) (r : RoundingInterval) : Prop where
  den_pos : 0 < r.den
  value_eq : (r.value : ℝ) / r.den = m * 2 ^ ((s : ℤ) - 1074)
  low_eq : (r.low : ℝ) / r.den = lowQuarters m s / 4 * 2 ^ ((s : ℤ) - 1074)
  high_eq : (r.high : ℝ) / r.den = (4 * m + 2 : ℕ) / 4 * 2 ^ ((s : ℤ) - 1074)
  closed_eq : r.closed = (m % 2 == 0)

theorem IntervalOf.value_pos {r : RoundingInterval} (h : IntervalOf m s r) (hpos : 0 < m) :
    0 < r.value := by
  have hden' : (0 : ℝ) < r.den := Nat.cast_pos.2 h.den_pos
  have hquot : (0 : ℝ) < r.value / r.den := by
    have hpos' : (0 : ℝ) < m := Nat.cast_pos.2 hpos
    rw [h.value_eq]
    exact mul_pos hpos' (zpow_pos two_pos _)
  exact Nat.cast_pos.1 ((div_pos_iff_of_pos_right hden').1 hquot)

theorem interval_of_decode {f : BinaryFormat} {k : ℕ} {q : ℤ} (h : f.decode k = (m, q)) :
    f.interval k = ⟨(if m = Nat.pow 2 f.fractionBits ∧ f.minExponent < q then 4 * m - 1
      else 4 * m - 2) * (scaleByTwo 1 4 q).1, 4 * m * (scaleByTwo 1 4 q).1,
      (4 * m + 2) * (scaleByTwo 1 4 q).1, (scaleByTwo 1 4 q).2, m % 2 == 0⟩ := by
  unfold interval
  rw [h]

theorem intervalOf {k : ℕ} (hm : m < 2 ^ 53) (hs : s = 0 ∨ 2 ^ 52 ≤ m)
    (hk : k = m + s * 2 ^ 52) : IntervalOf m s (binary64.interval k) := by
  have hlow : (if m = Nat.pow 2 binary64.fractionBits ∧ binary64.minExponent < (s : ℤ) - 1074
      then 4 * m - 1 else 4 * m - 2) = lowQuarters m s := by
    have hleading : Nat.pow 2 binary64.fractionBits = 2 ^ 52 := rfl
    have hmin : binary64.minExponent = -1074 := rfl
    refine if_congr ?_ rfl rfl
    rw [hleading, hmin]
    omega
  obtain ⟨hden, hscale⟩ := scaleByTwo_spec four_pos 1 ((s : ℤ) - 1074)
  rw [interval_of_decode (decode_eq hm hs hk), hlow]
  generalize scaleByTwo 1 4 ((s : ℤ) - 1074) = p at hden hscale
  obtain ⟨unit, den⟩ := p
  dsimp only at hden hscale ⊢
  have hquarters (a : ℕ) :
      ((a * unit : ℕ) : ℝ) / den = a / 4 * 2 ^ ((s : ℤ) - 1074) := by
    rw [Nat.cast_mul, mul_div_assoc, hscale]
    push_cast
    ring
  refine ⟨hden, ?_, hquarters _, hquarters _, rfl⟩
  rw [hquarters]
  push_cast
  ring

end BinaryFormat

/-! ## The shortest decimal -/

namespace Decimal

/-- Zeros at the end of the digits move into the exponent. -/
theorem trimZeros_spec (fuel : ℕ) (d : Decimal) :
    ((d.trimZeros fuel).digits : ℝ) * 10 ^ (d.trimZeros fuel).exponent =
        d.digits * 10 ^ d.exponent ∧
      (d.trimZeros fuel).digits ≤ d.digits ∧ (0 < d.digits → 0 < (d.trimZeros fuel).digits) := by
  induction fuel generalizing d with
  | zero => exact ⟨rfl, le_rfl, id⟩
  | succ fuel ih =>
    rw [trimZeros]
    split
    · rename_i hzero
      obtain ⟨hvalue, hle, hpos⟩ := ih ⟨d.digits / 10, d.exponent + 1⟩
      refine ⟨hvalue.trans ?_, hle.trans (Nat.div_le_self _ _),
        fun _ => hpos (by dsimp only; omega)⟩
      have hten : (d.digits : ℝ) = (d.digits / 10 : ℕ) * 10 := by
        exact_mod_cast (by omega : d.digits = d.digits / 10 * 10)
      dsimp only
      rw [zpow_add_one₀ (by norm_num), hten]
      ring
    · exact ⟨rfl, le_rfl, id⟩

end Decimal

namespace BinaryFormat

variable {m s : ℕ}

/-- With eighteen digits there is a point of the grid in the interval. -/
theorem exists_neighbour (tie : Tie) {r : RoundingInterval} (h : IntervalOf m s r) (hpos : 0 < m)
    (hm : m < 2 ^ 53) :
    ∃ c, r.neighbour? tie (decimalExponent r.value r.den - (17 : ℕ)) = some c := by
  obtain ⟨t, ht⟩ : ∃ t, decimalExponent r.value r.den - (17 : ℕ) = t := ⟨_, rfl⟩
  have hm' : (m : ℝ) + 1 ≤ 2 ^ 53 := by exact_mod_cast hm
  have hpos' : (1 : ℝ) ≤ m := by exact_mod_cast hpos
  have hstep : (0 : ℝ) < 2 ^ ((s : ℤ) - 1074) := zpow_pos two_pos _
  have hvalue := h.value_pos hpos
  obtain ⟨hden, hscale⟩ := scaleByTen_spec one_pos 1 t
  rw [Nat.cast_one, div_one, one_mul] at hscale
  obtain ⟨hlo, hhi⟩ := r.below_spec h.den_pos t
  -- a step of the grid is at most a part in `10 ^ 17` of the number
  have hgrid : (10 : ℝ) ^ t * 10 ^ 17 ≤ m * 2 ^ ((s : ℤ) - 1074) := by
    have hleast := (decimalExponent_spec hvalue h.den_pos).1
    rw [h.value_eq] at hleast
    have hpow : (10 : ℝ) ^ t * 10 ^ 17 = 10 ^ decimalExponent r.value r.den := by
      rw [← zpow_natCast, ← zpow_add₀ (by norm_num)]
      congr 1
      omega
    rw [hpow]
    exact hleast
  rw [h.value_eq] at hlo hhi
  rw [ht]
  refine RoundingInterval.exists_neighbour? (RoundingInterval.contains_of_lt h.den_pos hden ?_ ?_)
  · rw [Nat.cast_mul, mul_div_assoc, hscale, h.low_eq]
    push_cast
    refine lt_of_lt_of_le ?_ hhi.le
    have hlow : (lowQuarters m s : ℝ) ≤ 4 * m - 1 := by
      have hle : lowQuarters m s + 1 ≤ 4 * m := by
        unfold lowQuarters
        split <;> omega
      have hle' : ((lowQuarters m s + 1 : ℕ) : ℝ) ≤ (4 * m : ℕ) := Nat.cast_le.2 hle
      push_cast at hle'
      linarith
    exact mul_lt_mul_of_pos_right (by linarith) hstep
  · rw [Nat.cast_mul, mul_div_assoc, hscale, h.high_eq]
    push_cast
    nlinarith

/-- A decimal with a grid point in the interval, of at most eighteen digits, is found. -/
theorem exists_found (tie : Tie) {r : RoundingInterval} (h : IntervalOf m s r) (hpos : 0 < m)
    (hm : m < 2 ^ 53) : ∃ c t, ((List.range 18).findSome? fun (n : ℕ) =>
        (r.neighbour? tie (decimalExponent r.value r.den - n)).map fun c =>
          Decimal.mk c (decimalExponent r.value r.den - n)) = some ⟨c, t⟩ ∧
      r.contains (c * (scaleByTen 1 1 t).1) (scaleByTen 1 1 t).2 = true ∧ c ≤ 10 ^ 18 := by
  obtain ⟨c, hc⟩ := exists_neighbour tie h hpos hm
  obtain ⟨d, hd⟩ : ∃ d, ((List.range 18).findSome? fun (n : ℕ) =>
      (r.neighbour? tie (decimalExponent r.value r.den - n)).map fun c =>
        Decimal.mk c (decimalExponent r.value r.den - n)) = some d := by
    rw [← Option.isSome_iff_exists, List.findSome?_isSome_iff]
    exact ⟨17, by decide, by rw [hc]; rfl⟩
  refine ⟨d.digits, d.exponent, hd, ?_⟩
  obtain ⟨n, hn, hfound⟩ := List.exists_of_findSome?_eq_some hd
  obtain ⟨c, hc, rfl⟩ := Option.map_eq_some_iff.1 hfound
  obtain ⟨hle, hcontains⟩ := RoundingInterval.neighbour?_eq_some hc
  refine ⟨hcontains, hle.trans ?_⟩
  have hvalue := h.value_pos hpos
  have hgrid : (0 : ℝ) < 10 ^ (decimalExponent r.value r.den - n) := zpow_pos (by norm_num) _
  have hlt : (r.below (decimalExponent r.value r.den - n) : ℝ) < (10 ^ 18 : ℕ) := by
    refine lt_of_mul_lt_mul_right ?_ hgrid.le
    calc (r.below (decimalExponent r.value r.den - n) : ℝ) *
          10 ^ (decimalExponent r.value r.den - n)
        ≤ r.value / r.den := (r.below_spec h.den_pos _).1
      _ < 10 ^ (decimalExponent r.value r.den + 1) := (decimalExponent_spec hvalue h.den_pos).2
      _ ≤ 10 ^ ((18 : ℕ) + (decimalExponent r.value r.den - n)) := by
          have := List.mem_range.1 hn
          exact zpow_le_zpow_right₀ (by norm_num) (by omega)
      _ = (10 ^ 18 : ℕ) * 10 ^ (decimalExponent r.value r.den - n) := by
          rw [zpow_add₀ (by norm_num), zpow_natCast, Nat.cast_pow, Nat.cast_ofNat]
  exact Nat.cast_lt.1 hlt

/-- **The shortest decimal of a magnitude is rounded to the magnitude.** -/
theorem roundUnits_shortest (tie : Tie) {k : ℕ} (hk : 0 < k) :
    0 < (binary64.shortest tie k).digits ∧ (binary64.shortest tie k).digits ≤ 10 ^ 18 ∧
      roundUnits ((binary64.shortest tie k).digits * 10 ^ (binary64.shortest tie k).exponent *
        2 ^ (1074 : ℤ)) = k := by
  obtain ⟨m, s, hm, hs, hkm⟩ := exists_significand k
  have hpos : 0 < m := by omega
  have hinterval := intervalOf hm hs hkm
  obtain ⟨c, t, hfound, hcontains, hle⟩ := exists_found tie hinterval hpos hm
  unfold shortest
  rw [if_neg hk.ne']
  dsimp only
  rw [hfound, Option.getD_some]
  obtain ⟨hvalue, htrim, htrimPos⟩ := Decimal.trimZeros_spec 20 ⟨c, t⟩
  rw [hvalue]
  dsimp only at htrim htrimPos ⊢
  obtain ⟨hden, hscale⟩ := scaleByTen_spec one_pos 1 t
  rw [Nat.cast_one, div_one, one_mul] at hscale
  have hbounds := RoundingInterval.bounds_of_contains hinterval.den_pos hden hcontains
  rw [Nat.cast_mul, mul_div_assoc, hscale, hinterval.low_eq, hinterval.high_eq,
    hinterval.closed_eq, beq_iff_eq] at hbounds
  obtain ⟨hlo, hhi, htie⟩ := hbounds
  have hunit : (0 : ℝ) < 2 ^ (1074 : ℤ) := zpow_pos two_pos _
  have hunits (a : ℝ) : a * 2 ^ ((s : ℤ) - 1074) * 2 ^ (1074 : ℤ) = a * 2 ^ s := by
    rw [mul_assoc, ← zpow_add₀ two_ne_zero, sub_add_cancel, zpow_natCast]
  refine ⟨htrimPos ?_, htrim.trans hle, ?_⟩
  · have hlow : 0 < lowQuarters m s := by
      unfold lowQuarters
      split <;> omega
    have hlow' : (0 : ℝ) < lowQuarters m s := Nat.cast_pos.2 hlow
    have hpositive : (0 : ℝ) < c * 10 ^ t :=
      lt_of_lt_of_le (mul_pos (by positivity) (zpow_pos two_pos _)) hlo
    exact Nat.cast_pos.1 ((mul_pos_iff_of_pos_right (zpow_pos (by norm_num) t)).1 hpositive)
  · rw [hkm]
    refine roundUnits_of_mem hpos hm hs ?_ ?_ (htie.imp_right fun hin => ⟨?_, ?_⟩)
    · rw [← hunits]
      exact mul_le_mul_of_nonneg_right hlo hunit.le
    · rw [← hunits]
      exact mul_le_mul_of_nonneg_right hhi hunit.le
    · rw [← hunits]
      exact mul_lt_mul_of_pos_right hin.1 hunit
    · rw [← hunits]
      exact mul_lt_mul_of_pos_right hin.2 hunit

/-- **The shortest decimal of a finite magnitude reads back.** -/
theorem ofDecimal_shortest (tie : Tie) {k : ℕ} (hk : 0 < k) (hfin : k < binary64.infinity) :
    binary64.ofDecimal (binary64.shortest tie k).digits (binary64.shortest tie k).exponent = k := by
  rw [ofDecimal_eq, (roundUnits_shortest tie hk).2.2, min_eq_right hfin.le]

end BinaryFormat

end Gazetteer
