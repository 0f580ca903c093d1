import Gazetteer.Number.Binary64

/-!
# The two orders of words

The numeric order compares the places of two numbers on the line, the total order compares their
ranks. The total order refines the numeric one: it agrees wherever that one decides.
-/

namespace Gazetteer
namespace Binary64

variable {x y z : Binary64}

theorem le_iff : x ≤ y ↔ x.isNaN = false ∧ y.isNaN = false ∧ x.rank ≤ y.rank := by
  show x.le y = true ↔ _
  simp [Binary64.le, and_assoc]

theorem lt_iff : x < y ↔ x.isNaN = false ∧ y.isNaN = false ∧ x.rank < y.rank := by
  show x.lt y = true ↔ _
  simp [Binary64.lt, and_assoc]

theorem le_trans (h₁ : x ≤ y) (h₂ : y ≤ z) : x ≤ z := by
  rw [le_iff] at *
  exact ⟨h₁.1, h₂.2.1, by omega⟩

theorem le_refl_of_not_nan (h : x.isNaN = false) : x ≤ x := le_iff.2 ⟨h, h, Int.le_refl _⟩

/-- Of two numbers, one is at most the other. -/
theorem lt_or_le_of_not_nan (hx : x.isNaN = false) (hy : y.isNaN = false) : x < y ∨ y ≤ x := by
  rw [lt_iff, le_iff]
  rcases Int.lt_or_le x.rank y.rank with h | h
  · exact Or.inl ⟨hx, hy, h⟩
  · exact Or.inr ⟨hy, hx, h⟩

theorem le_of_lt (h : x < y) : x ≤ y := by
  rw [lt_iff] at h
  exact le_iff.2 ⟨h.1, h.2.1, by omega⟩

theorem lt_of_lt_of_le (h₁ : x < y) (h₂ : y ≤ z) : x < z := by
  rw [lt_iff] at *
  rw [le_iff] at h₂
  exact ⟨h₁.1, h₂.2.1, by omega⟩

theorem not_nan_of_isFinite (h : x.isFinite = true) : x.isNaN = false := by
  simp only [isFinite, isNaN, decide_eq_true_eq, decide_eq_false_iff_not] at *
  omega

/-! ## The total order -/

theorem isLE_totalCompare : (x.totalCompare y).isLE = true ↔ x.totalRank ≤ y.totalRank := by
  rw [totalCompare, Int.isLE_compare]

/-- The total order refines the numeric order. -/
theorem le_of_totalRank_le (hx : x.isNaN = false) (hy : y.isNaN = false)
    (h : x.totalRank ≤ y.totalRank) : x ≤ y := by
  refine le_iff.2 ⟨hx, hy, ?_⟩
  unfold totalRank at h
  unfold rank
  cases hnx : x.negative <;> cases hny : y.negative <;>
    simp only [hnx, hny, if_true, Bool.false_eq_true, if_false] at h ⊢ <;> omega

theorem totalRank_lt_of_lt (h : x < y) : x.totalRank < y.totalRank := by
  obtain ⟨-, -, h⟩ := lt_iff.1 h
  unfold rank at h
  unfold totalRank
  cases hnx : x.negative <;> cases hny : y.negative <;>
    simp only [hnx, hny, if_true, Bool.false_eq_true, if_false] at h ⊢ <;> omega

theorem magnitude_lt (x : Binary64) : x.magnitude < 0x8000000000000000 :=
  Nat.mod_lt _ (by decide)

/-- A word is its sign and its magnitude. -/
theorem toNat_bits (x : Binary64) :
    x.bits.toNat = (if x.negative then 0x8000000000000000 else 0) + x.magnitude := by
  have hlt := x.bits.toNat_lt
  unfold negative magnitude
  split <;> simp_all <;> omega

theorem ext_magnitude (hn : x.negative = y.negative) (hm : x.magnitude = y.magnitude) : x = y := by
  have h : x.bits.toNat = y.bits.toNat := by rw [toNat_bits, toNat_bits, hn, hm]
  cases x
  cases y
  exact congrArg _ (UInt64.toNat_inj.1 h)

/-- A word that is built from a sign and a magnitude has them. -/
theorem ofMagnitude_fields {n : Bool} {m : Nat} (h : m < 0x8000000000000000) :
    (ofMagnitude n m).magnitude = m ∧ (ofMagnitude n m).negative = n := by
  unfold ofMagnitude magnitude negative
  cases n <;> simp <;> omega

/-- Words of one rank are equal. -/
theorem totalRank_inj (h : x.totalRank = y.totalRank) : x = y := by
  unfold totalRank at h
  cases hx : x.negative <;> cases hy : y.negative <;> simp only [hx, hy] at h
  · simp at h
    exact ext_magnitude (by rw [hx, hy]) (by omega)
  · simp at h
    omega
  · simp at h
    omega
  · simp at h
    exact ext_magnitude (by rw [hx, hy]) (by omega)

/-! ## Infinities -/

theorem negInfinity_le (h : x.isNaN = false) : negInfinity ≤ x := by
  refine le_iff.2 ⟨by decide, h, ?_⟩
  have hr : negInfinity.rank = -(infiniteMagnitude : Int) := by decide
  simp only [isNaN, decide_eq_false_iff_not] at h
  rw [hr]
  unfold rank
  split <;> omega

theorem le_infinity (h : x.isNaN = false) : x ≤ infinity := by
  refine le_iff.2 ⟨h, by decide, ?_⟩
  have hr : infinity.rank = (infiniteMagnitude : Int) := by decide
  simp only [isNaN, decide_eq_false_iff_not] at h
  rw [hr]
  unfold rank
  split <;> omega

end Binary64
end Gazetteer
