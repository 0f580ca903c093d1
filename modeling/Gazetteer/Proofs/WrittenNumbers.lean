import Mathlib.Algebra.BigOperators.Group.List.Basic
import Mathlib.Tactic.Ring
import Gazetteer.Number.Reading
import Gazetteer.Number.Text
import Gazetteer.Proofs.ShortestDigits
import Gazetteer.Proofs.WordOrder

/-!
# Numbers as they are written

The text of a decimal is made of digits, a point among them and perhaps an exponent behind them.
Read together, the digits are those of the decimal, with the zeros that the positions ask for; the
digits behind the point tell how far these are from a whole number.
-/

namespace Gazetteer

/-! ## Runs of digits -/

theorem digitsValue_cons (c : Char) (cs : List Char) :
    digitsValue (c :: cs) = (c.toNat - 48) * 10 ^ cs.length + digitsValue cs := by
  have hfrom (n : ℕ) (cs : List Char) : cs.foldl (fun n c => 10 * n + (c.toNat - 48)) n =
      n * 10 ^ cs.length + digitsValue cs := by
    induction cs generalizing n with
    | nil => simp [digitsValue]
    | cons c cs ih =>
      rw [digitsValue, List.foldl_cons, List.foldl_cons, ih, ih (10 * 0 + _), List.length_cons]
      ring
  rw [digitsValue, List.foldl_cons, hfrom, Nat.mul_zero, Nat.zero_add]

theorem digitsValue_append (as bs : List Char) :
    digitsValue (as ++ bs) = digitsValue as * 10 ^ bs.length + digitsValue bs := by
  induction as with
  | nil => simp [digitsValue]
  | cons c as ih =>
    rw [List.cons_append, digitsValue_cons, digitsValue_cons, ih, List.length_append]
    ring

theorem digitsValue_replicate_zero (n : ℕ) : digitsValue (List.replicate n '0') = 0 := by
  induction n with
  | zero => rfl
  | succ n ih => rw [List.replicate_succ, digitsValue_cons, ih]; simp

theorem digitsValue_digitChar : ∀ d < 10, digitsValue [Nat.digitChar d] = d := by decide

@[simp] theorem digitsValue_digitChars (n : ℕ) : digitsValue (digitChars n) = n := by
  induction n using Nat.strongRecOn with
  | ind n ih =>
    rcases Nat.lt_or_ge n 10 with h | h
    · rw [digitChars, Nat.toDigits_of_lt_base h, digitsValue_digitChar n h]
    · have hlast := digitsValue_digitChar (n % 10) (Nat.mod_lt _ (by decide))
      have hfirst : digitsValue (Nat.toDigits 10 (n / 10)) = n / 10 := ih (n / 10) (by omega)
      rw [digitChars, Nat.toDigits_of_base_le (by decide) h, digitsValue_append, hlast, hfirst,
        List.length_singleton]
      omega

theorem isDigit_of_mem_digitChars {n : ℕ} {c : Char} (h : c ∈ digitChars n) : c.isDigit = true :=
  Nat.isDigit_of_mem_toDigits (by decide) (by decide) h

theorem length_digitChars_pos (n : ℕ) : 0 < (digitChars n).length := Nat.length_toDigits_pos

theorem length_digitChars (n : ℕ) : (digitChars n).length = digitCount n := by
  induction n using digitCount.induct with
  | case1 n h => rw [digitChars, Nat.toDigits_of_lt_base h, digitCount, if_pos h]; rfl
  | case2 n h ih =>
    rw [digitChars, Nat.toDigits_of_base_le (by decide) (Nat.le_of_not_lt h), digitCount, if_neg h,
      List.length_append, List.length_singleton, ← ih]
    rfl

theorem digitChar_ne_zero : ∀ d < 10, 0 < d → Nat.digitChar d ≠ '0' := by decide

/-- The first digit of a number is not zero. -/
theorem head?_digitChars_ne {n : ℕ} (hn : 0 < n) : (digitChars n).head? ≠ some '0' := by
  induction n using Nat.strongRecOn with
  | ind n ih =>
    rcases Nat.lt_or_ge n 10 with h | h
    · rw [digitChars, Nat.toDigits_of_lt_base h, List.head?_cons, ne_eq, Option.some.injEq]
      exact digitChar_ne_zero n h hn
    · have hne : Nat.toDigits 10 (n / 10) ≠ [] := Nat.toDigits_ne_nil
      rw [digitChars, Nat.toDigits_of_base_le (by decide) h, List.head?_append_of_ne_nil _ hne]
      exact ih (n / 10) (by omega) (by omega)

/-! ## Digits around a point -/

/-- Digits before and behind a point, as both notations have them: no zero leads other digits. -/
structure Digits (whole fraction : List Char) : Prop where
  whole_isDigit : ∀ c ∈ whole, c.isDigit = true
  whole_ne_nil : whole ≠ []
  length_of_zero : whole.head? = some '0' → whole.length = 1
  fraction_isDigit : ∀ c ∈ fraction, c.isDigit = true

namespace Decimal

variable {d : Decimal}

/-- The number of the digits of a decimal in positional notation with a point, and how many of them
stand behind the point. -/
def pointed (d : Decimal) : ℕ × ℕ :=
  if 0 ≤ d.exponent then (d.digits * 10 ^ (d.exponent.toNat + 1), 1)
  else (d.digits, (-d.exponent).toNat)

theorem isDigit_of_mem_replicate_zero {n : ℕ} {c : Char} (h : c ∈ List.replicate n '0') :
    c.isDigit = true := by
  rw [List.eq_of_mem_replicate h]
  decide

/-- Zeros in front of the digits of a number, up to a width. -/
def padded (d : Decimal) (width : ℕ) : List Char :=
  List.replicate (width - (digitChars d.digits).length) '0' ++ digitChars d.digits

theorem length_padded (d : Decimal) (width : ℕ) :
    (d.padded width).length = max width (digitChars d.digits).length := by
  rw [padded, List.length_append, List.length_replicate]
  omega

theorem isDigit_of_mem_padded {width : ℕ} {c : Char} (h : c ∈ d.padded width) :
    c.isDigit = true :=
  (List.mem_append.1 h).elim isDigit_of_mem_replicate_zero isDigit_of_mem_digitChars

theorem digitsValue_padded (d : Decimal) (width : ℕ) : digitsValue (d.padded width) = d.digits := by
  rw [padded, digitsValue_append, digitsValue_replicate_zero, digitsValue_digitChars,
    Nat.zero_mul, Nat.zero_add]

/-- A zero leads only where the digits are fewer than the width. -/
theorem head?_padded_ne {width : ℕ} (hd : 0 < d.digits) (h : width ≤ (digitChars d.digits).length) :
    (d.padded width).head? ≠ some '0' := by
  rw [padded, Nat.sub_eq_zero_of_le h, List.replicate_zero, List.nil_append]
  exact head?_digitChars_ne hd

/-- Digits of which the last ones stand behind the point. -/
theorem exists_positional_of_neg (hd : 0 < d.digits) (hneg : ¬ 0 ≤ d.exponent) :
    ∃ whole fraction, d.positional true = whole ++ '.' :: fraction ∧ Digits whole fraction ∧
      fraction ≠ [] ∧
        (digitsValue (whole ++ fraction), fraction.length) = (d.digits, (-d.exponent).toNat) := by
  obtain ⟨places, hplaces⟩ : ∃ n, (-d.exponent).toNat = n := ⟨_, rfl⟩
  have hlength := d.length_padded (places + 1)
  have hall : ∀ c ∈ d.padded (places + 1), c.isDigit = true := fun c => isDigit_of_mem_padded
  have hvalue := d.digitsValue_padded (places + 1)
  have hhead : (digitChars d.digits).length ≤ places ∨
      (d.padded (places + 1)).head? ≠ some '0' :=
    (Nat.lt_or_ge places _).symm.imp_right (head?_padded_ne hd)
  unfold positional
  rw [if_neg hneg, hplaces]
  dsimp only
  rw [← padded]
  generalize d.padded (places + 1) = cs at hlength hall hvalue hhead
  have hwhole : (cs.take (cs.length - places)).length = cs.length - places := by
    rw [List.length_take]
    omega
  refine ⟨_, _, rfl, ⟨fun c hc => hall c (List.mem_of_mem_take hc), ?_, fun h => ?_,
    fun c hc => hall c (List.mem_of_mem_drop hc)⟩, ?_, ?_⟩
  · exact List.ne_nil_of_length_pos (by omega)
  · rw [List.head?_take, if_neg (by omega)] at h
    rcases hhead with hshort | hne
    · omega
    · exact absurd h hne
  · refine List.ne_nil_of_length_pos ?_
    rw [List.length_drop]
    omega
  · rw [List.take_append_drop, hvalue, List.length_drop]
    exact Prod.ext rfl (by dsimp only; omega)

/-- Positional notation with a point. -/
theorem exists_positional (hd : 0 < d.digits) : ∃ whole fraction,
    d.positional true = whole ++ '.' :: fraction ∧ Digits whole fraction ∧ fraction ≠ [] ∧
      (digitsValue (whole ++ fraction), fraction.length) = d.pointed := by
  unfold pointed
  split
  · rename_i hpos
    have hne : digitChars d.digits ≠ [] := List.ne_nil_of_length_pos (length_digitChars_pos _)
    refine ⟨digitChars d.digits ++ List.replicate d.exponent.toNat '0', ['0'], if_pos hpos,
      ⟨fun c hc => ?_, by simp [hne], fun h => ?_, fun c => isDigit_of_mem_replicate_zero (n := 1)⟩,
      by simp, ?_⟩
    · exact (List.mem_append.1 hc).elim isDigit_of_mem_digitChars isDigit_of_mem_replicate_zero
    · rw [List.head?_append_of_ne_nil _ hne] at h
      exact absurd h (head?_digitChars_ne hd)
    · rw [digitsValue_append, digitsValue_append, digitsValue_digitChars,
        digitsValue_replicate_zero, List.length_replicate, pow_succ]
      simp [digitsValue, mul_assoc]
  · rename_i hneg
    exact exists_positional_of_neg hd hneg

/-- The digits of scientific notation, one of them before the point. -/
theorem digits_scientific (d : Decimal) :
    Digits ((digitChars d.digits).take 1) ((digitChars d.digits).drop 1) := by
  have hpos := length_digitChars_pos d.digits
  have hlength : ((digitChars d.digits).take 1).length = 1 := by
    rw [List.length_take]
    omega
  exact ⟨fun c hc => isDigit_of_mem_digitChars (List.mem_of_mem_take hc),
    List.ne_nil_of_length_pos (by omega), fun _ => hlength,
    fun c hc => isDigit_of_mem_digitChars (List.mem_of_mem_drop hc)⟩

/-- Positional notation writes the decimal. -/
theorem pointed_value (d : Decimal) :
    (d.pointed.1 : ℝ) * 10 ^ (-(d.pointed.2 : ℤ)) = d.digits * 10 ^ d.exponent := by
  unfold pointed
  split
  · rename_i he
    obtain ⟨n, hn⟩ := Int.eq_ofNat_of_zero_le he
    rw [hn, Int.toNat_natCast, zpow_natCast]
    push_cast
    rw [pow_succ, zpow_neg_one]
    field_simp
  · rename_i he
    have hexp : -((-d.exponent).toNat : ℤ) = d.exponent := by omega
    rw [hexp]

end Decimal

/-! ## Positive numbers -/

namespace Binary64

/-- A finite number above zero. -/
structure IsPositive (x : Binary64) : Prop where
  isFinite : x.isFinite = true
  negative : x.negative = false
  magnitude_pos : 0 < x.magnitude

namespace IsPositive

variable {x : Binary64}

theorem lt_infinity (h : x.IsPositive) : x.magnitude < BinaryFormat.binary64.infinity :=
  of_decide_eq_true h.isFinite

/-- A decimal of the value of the shortest one is read as the number. -/
theorem ofDecimal_eq (h : x.IsPositive) (tie : Tie) {digits : ℕ} {exponent : ℤ}
    (hvalue : (digits : ℝ) * 10 ^ exponent =
      (BinaryFormat.binary64.shortest tie x.magnitude).digits *
        10 ^ (BinaryFormat.binary64.shortest tie x.magnitude).exponent) :
    ofDecimal false digits exponent = x := by
  have hread : BinaryFormat.binary64.ofDecimal digits exponent = x.magnitude := by
    rw [← BinaryFormat.ofDecimal_shortest tie h.magnitude_pos h.lt_infinity,
      BinaryFormat.ofDecimal_eq, BinaryFormat.ofDecimal_eq, hvalue]
  have hbound : BinaryFormat.binary64.infinity < 0x8000000000000000 := by decide
  obtain ⟨hm, hn⟩ := ofMagnitude_fields (n := false) (h.lt_infinity.trans hbound)
  rw [ofDecimal, hread]
  exact ext_magnitude (hn.trans h.negative.symm) hm

/-- The text of a positive number is that of its shortest decimal, without a sign. -/
theorem toList_text (h : x.IsPositive) (s : NumberStyle) :
    let d := BinaryFormat.binary64.shortest s.tie x.magnitude
    0 < d.digits ∧ (x.text s).toList = if s.isPositional d.leadingExponent then
      d.positional s.keepsPoint else d.scientific s.exponentPlus := by
  have hpos := (BinaryFormat.roundUnits_shortest s.tie h.magnitude_pos).1
  have hzero : ((BinaryFormat.binary64.shortest s.tie x.magnitude).digits == 0) = false :=
    beq_false_of_ne hpos.ne'
  refine ⟨hpos, ?_⟩
  rw [text, not_nan_of_isFinite h.isFinite, h.isFinite, h.negative]
  simp only [NumberStyle.finite, hzero, Bool.false_or, Bool.false_eq_true, if_false, if_true,
    String.toList_ofList]

end IsPositive
end Binary64
end Gazetteer
