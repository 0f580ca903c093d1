import Gazetteer.Proofs.FastReading
import Gazetteer.Proofs.SavedJson
import Gazetteer.Proofs.SavedToml

/-!
# Saved settings read back

Settings that are in order have a positive finite threshold. TOML text is read to the nearest
number, so the threshold comes back; JSON text is read fast, so it comes back a few places off
unless its decimal has few digits and a small power of ten.
-/

namespace Gazetteer

namespace Binary64

namespace IsPositive

variable {x : Binary64}

/-- A positive number is the one nearest to its gathered decimal. -/
theorem roundUnits_gathered (h : x.IsPositive) :
    0 < x.gathered.1 ∧ x.gathered.1 ≤ 10 ^ 18 ∧
      roundUnits (x.gathered.1 * 10 ^ x.gathered.2 * 2 ^ 1074) = x.magnitude := by
  obtain ⟨hpos, hle, hround⟩ :=
    BinaryFormat.roundUnits_shortest NumberStyle.json.tie h.magnitude_pos
  rw [gathered, Decimal.gathered_value]
  exact ⟨(Decimal.gathered_le hle hpos).1, (Decimal.gathered_le hle hpos).2, hround⟩

/-- At both ends of the format, fast reading neither overflows nor comes to zero. -/
theorem scaleDecimal?_of_end : ∀ k ∈ List.range' 1 9 ++ List.range' (infiniteMagnitude - 9) 9,
    let g := (BinaryFormat.binary64.shortest NumberStyle.json.tie k).gathered
    ∃ t ∈ scaleDecimal? 4 (ofUInt64 (.ofNat g.1)) g.2, t.negative = false ∧ 0 < t.magnitude ∧
      t.magnitude < infiniteMagnitude ∧ t.magnitude ≤ k + 3 ∧ k ≤ t.magnitude + 3 := by
  decide +kernel

/-- **A positive number is read fast as a positive number a few places off.** -/
theorem exists_reread? (h : x.IsPositive) : ∃ t : Binary64, t.IsPositive ∧
    x.reread? = some t ∧ t.magnitude ≤ x.magnitude + places x.gathered.2 ∧
      x.magnitude ≤ t.magnitude + places x.gathered.2 := by
  obtain ⟨hm, hle, hround⟩ := h.roundUnits_gathered
  have hlt : x.magnitude < infiniteMagnitude := h.lt_infinity
  have hpos := h.magnitude_pos
  have hplaces : 3 ≤ places x.gathered.2 ∧ places x.gathered.2 ≤ 9 := by
    unfold places
    split <;> decide
  by_cases hend : x.magnitude ≤ 9 ∨ infiniteMagnitude ≤ x.magnitude + 9
  · have hmem : x.magnitude ∈ List.range' 1 9 ++ List.range' (infiniteMagnitude - 9) 9 := by
      have hinf : infiniteMagnitude = 0x7ff0000000000000 := rfl
      rw [List.mem_append, List.mem_range'_1, List.mem_range'_1]
      omega
    obtain ⟨t, hread, hneg, hpos, hfin, hup, hdown⟩ := scaleDecimal?_of_end _ hmem
    refine ⟨t, ⟨decide_eq_true hfin, hneg, hpos⟩, hread, ?_, ?_⟩
    · exact hup.trans (Nat.add_le_add_left hplaces.1 _)
    · exact hdown.trans (Nat.add_le_add_left hplaces.1 _)
  · obtain ⟨t, n, hn, hrounded, hscale⟩ := exists_scaleDecimal? hm hle
      (le_exponent_of_pos hle (hround ▸ hpos)) (exponent_le_of_lt hm (hround ▸ hlt))
    have hup := hrounded.magnitude_le
    have hdown := hrounded.le_magnitude (by positivity) (by rw [hround]; exact hlt)
    rw [hround, hn] at hup hdown
    have hfin : t.isFinite = true := decide_eq_true (by omega)
    exact ⟨t, ⟨hfin, hrounded.negative, by omega⟩, hscale hfin, hup, hdown⟩

/-- A positive number whose decimal has few digits and a small power of ten is read exactly. -/
theorem reread?_of_le (h : x.IsPositive) (hfew : x.gathered.1 ≤ 2 ^ 53)
    (hsmall : x.gathered.2.natAbs ≤ 22) : x.reread? = some x := by
  obtain ⟨hm, -, hround⟩ := h.roundUnits_gathered
  exact scaleDecimal?_of_le hm hfew hsmall h.isFinite h.negative hround

end IsPositive

/-- A number that is not above zero is at most zero. -/
theorem le_zero_iff {x : Binary64} (h : x.isFinite = true) :
    x ≤ 0 ↔ x.negative = true ∨ x.magnitude = 0 := by
  have hzero : (0 : Binary64) = .zero := by decide +kernel
  have hrank : Binary64.zero.rank = 0 := by decide
  have hnan : Binary64.zero.isNaN = false := by decide
  rw [hzero, le_iff, hrank, rank]
  simp only [not_nan_of_isFinite h, hnan, true_and]
  split
  · rename_i hneg
    simp [hneg]
  · rename_i hneg
    simp [hneg]

end Binary64

namespace Settings

variable {s : Settings}

/-- Settings are in order if their threshold is positive and finite. -/
theorem check_eq_ok_iff : s.check = .ok () ↔ s.longRangeThreshold.IsPositive := by
  unfold check
  constructor
  · intro h
    split at h
    · cases h
    · rename_i hfin
      rw [Bool.not_eq_true, Bool.not_eq_false'] at hfin
      split at h
      · cases h
      · rename_i hpos
        rw [Binary64.le_zero_iff hfin, not_or, Bool.not_eq_true] at hpos
        exact ⟨hfin, hpos.1, Nat.pos_of_ne_zero hpos.2⟩
  · rintro ⟨hfin, hneg, hpos⟩
    rw [if_neg (by simp [hfin]), if_neg]
    rw [Binary64.le_zero_iff hfin, hneg, not_or]
    exact ⟨Bool.false_ne_true, hpos.ne'⟩

theorem checked_of_isPositive (h : s.longRangeThreshold.IsPositive) : s.checked = .ok s := by
  rw [checked, check_eq_ok_iff.2 h]

/-- **Saved settings are read back.** TOML text gives settings that are in order as they were. JSON
text gives them with a threshold that fast reading may have moved, by three places at most and by
nine if its power of ten is below the format; it is the same if the number of its digits needs no
more than 53 bits and the power of ten no more than 22 zeros. -/
theorem saved_read (s : Settings) (h : s.check = .ok ()) :
    ofToml s.toToml = .ok s ∧
      (∃ t : Binary64, s.longRangeThreshold.reread? = some t ∧
        ofJson s.toJsonText = .ok { s with longRangeThreshold := t } ∧
        t.magnitude ≤ s.longRangeThreshold.magnitude +
          Binary64.places s.longRangeThreshold.gathered.2 ∧
        s.longRangeThreshold.magnitude ≤ t.magnitude +
          Binary64.places s.longRangeThreshold.gathered.2) ∧
      (ofJson s.toJsonText = .ok s ↔
        s.longRangeThreshold.reread? = some s.longRangeThreshold) ∧
      (s.longRangeThreshold.gathered.1 ≤ 2 ^ 53 →
        s.longRangeThreshold.gathered.2.natAbs ≤ 22 → ofJson s.toJsonText = .ok s) := by
  have hx := check_eq_ok_iff.1 h
  obtain ⟨t, ht, hread, hup, hdown⟩ := hx.exists_reread?
  have hjson : ofJson s.toJsonText = .ok { s with longRangeThreshold := t } :=
    (ofJson_toJsonText hx hread).trans (checked_of_isPositive ht)
  have hiff : ofJson s.toJsonText = .ok s ↔
      s.longRangeThreshold.reread? = some s.longRangeThreshold := by
    rw [hjson, hread, Option.some.injEq, Except.ok.injEq]
    exact ⟨fun heq => congrArg longRangeThreshold heq, fun heq => by rw [heq]⟩
  exact ⟨(ofToml_toToml hx).trans (checked_of_isPositive hx), ⟨t, hread, hjson, hup, hdown⟩, hiff,
    fun hfew hsmall => hiff.2 (hx.reread?_of_le hfew hsmall)⟩

/-- Settings whose threshold is the number before the default. -/
def belowDefault : Settings := { longRangeThreshold := ⟨0x40f869ffffffffff⟩ }

/-- Saved as JSON, the number before the default comes back as the default. -/
theorem saved_read_belowDefault : belowDefault.check = .ok () ∧
    ofToml belowDefault.toToml = .ok belowDefault ∧ ofJson belowDefault.toJsonText = .ok {} ∧
      ofJson belowDefault.toJsonText ≠ .ok belowDefault := by
  have hcheck : belowDefault.check = .ok () := by decide +kernel
  have hreread : belowDefault.longRangeThreshold.reread? = some 100000 := by decide +kernel
  obtain ⟨htoml, ⟨t, ht, hjson, -⟩, -⟩ := saved_read belowDefault hcheck
  rw [hreread, Option.some.injEq] at ht
  rw [← ht] at hjson
  refine ⟨hcheck, htoml, hjson, fun heq => ?_⟩
  rw [hjson, Except.ok.injEq] at heq
  exact absurd (congrArg longRangeThreshold heq) (by decide +kernel)

end Settings
end Gazetteer
