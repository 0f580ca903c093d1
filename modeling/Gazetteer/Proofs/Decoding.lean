import Gazetteer.Proofs.Rounding
import Gazetteer.Proofs.WordOrder

/-!
# Words as floats

A word that is a number is the float of its sign and its magnitude, and back: rounded results beyond
the format become infinities.
-/

namespace Gazetteer

open Float.Model Float.Model.UnpackedFloat

namespace Binary64

/-- The float of a word. -/
def unpacked (x : Binary64) : UnpackedFloat := x.toFloat.toModel.unpack

/-- The word of a float. -/
def ofUnpacked (f : UnpackedFloat) : Binary64 := ⟨.ofBitVec (UnpackedFloat.pack .binary64 f)⟩

/-- The sign of a word. -/
def sign (x : Binary64) : Sign := if x.negative then .negative else .positive

theorem sub_eq (x y : Binary64) :
    x - y = ofUnpacked (UnpackedFloat.sub .binary64 x.unpacked y.unpacked) := rfl

theorem add_eq (x y : Binary64) :
    x + y = ofUnpacked (UnpackedFloat.add .binary64 x.unpacked y.unpacked) := rfl

theorem mul_eq (x y : Binary64) :
    x * y = ofUnpacked (UnpackedFloat.mul .binary64 x.unpacked y.unpacked) := rfl

theorem div_eq (x y : Binary64) :
    x / y = ofUnpacked (UnpackedFloat.div .binary64 x.unpacked y.unpacked) := rfl

theorem sqrt_eq (x : Binary64) : x.sqrt = ofUnpacked (UnpackedFloat.sqrt .binary64 x.unpacked) :=
  rfl

end Binary64

/-! ## Packing -/

/-- Whether a sign is a minus. -/
def isMinus : Sign → Bool
  | .negative => true
  | .positive => false

theorem toNat_packComponents (sign : Sign) (e : BitVec 11) (m : BitVec 52) :
    (packComponents .binary64 sign e m).toNat =
      (if isMinus sign then 0x8000000000000000 else 0) + e.toNat * 2 ^ 52 + m.toNat := by
  have hm := m.isLt
  have he := e.isLt
  unfold packComponents
  rw [BitVec.toNat_append, BitVec.toNat_append]
  rw [← Nat.shiftLeft_add_eq_or_of_lt hm, ← Nat.shiftLeft_add_eq_or_of_lt he]
  cases sign
  · simp [Sign.toBitVec, isMinus, Nat.shiftLeft_eq]
    omega
  · simp [Sign.toBitVec, isMinus, Nat.shiftLeft_eq]

theorem toNat_pack_infinity (sign : Sign) : (UnpackedFloat.pack .binary64 (.infinity sign)).toNat =
    (if isMinus sign then 0x8000000000000000 else 0) + Binary64.infiniteMagnitude := by
  cases sign <;> decide

/-- A canonical float is packed as its sign and its magnitude, cut off at the infinity. -/
theorem toNat_pack_of_isMagnitude {sign : Sign} {k : ℕ} {f : UnpackedFloat}
    (h : IsMagnitude sign k f) : (UnpackedFloat.pack .binary64 f).toNat =
      (if isMinus sign then 0x8000000000000000 else 0) + min Binary64.infiniteMagnitude k := by
  cases h with
  | zero => cases sign <;> decide
  | @finite m s pos lt normal =>
    have hbias : ((s : ℤ) - 1074 + (Format.binary64.exponentBias : ℕ) + (52 : ℕ)).toNat = s + 1 := by
      have : (Format.binary64.exponentBias : ℤ) = 1023 := rfl
      omega
    have hinf : Binary64.infiniteMagnitude = 2047 * 2 ^ 52 := rfl
    unfold UnpackedFloat.pack
    dsimp only
    rw [hbias]
    split
    · rename_i hover
      have hover : 2 ^ 11 ≤ s + 1 + 1 := hover
      rw [min_eq_left (by omega)]
      exact toNat_pack_infinity sign
    · rename_i hfit
      have hfit : ¬ 2 ^ 11 ≤ s + 1 + 1 := hfit
      rw [min_eq_right (by omega)]
      have hlog := log2_le_of_lt lt
      split
      · rename_i hnormal
        have hm : 2 ^ 52 ≤ m := by
          have := Nat.log2_self_le pos.ne'
          have hlog52 : m.log2 = 52 := Nat.succ.inj hnormal
          rwa [hlog52] at this
        rw [toNat_packComponents, BitVec.toNat_ofNat, BitVec.toNat_ofNat]
        omega
      · rename_i hsub
        have hm : m < 2 ^ 52 := by
          refine (Nat.log2_lt pos.ne').1 ?_
          have hlog52 : m.log2 ≠ 52 := fun h => hsub (congrArg Nat.succ h)
          omega
        have hs : s = 0 := by omega
        rw [toNat_packComponents, BitVec.toNat_ofNat, BitVec.toNat_ofNat, hs]
        omega

/-! ## Unpacking -/

theorem toNat_unpackExponent (b : BitVec 64) :
    (@unpackExponent .binary64 b).toNat = b.toNat / 2 ^ 52 % 2 ^ 11 := by
  unfold unpackExponent
  simp [Nat.shiftRight_eq_div_pow]

theorem toNat_unpackMantissa (b : BitVec 64) :
    (@unpackMantissa .binary64 b).toNat = b.toNat % 2 ^ 52 := by
  unfold unpackMantissa
  simp

theorem toNat_unpackSign (b : BitVec 64) :
    (@unpackSign .binary64 b).toNat = b.toNat / 2 ^ 63 % 2 := by
  unfold unpackSign
  simp [Nat.shiftRight_eq_div_pow]

theorem Binary64.ofBitVec_unpackSign (x : Binary64) :
    Sign.ofBitVec (@unpackSign .binary64 x.bits.toBitVec) = x.sign := by
  have hsign := toNat_unpackSign x.bits.toBitVec
  have hlt := x.bits.toNat_lt
  rw [UInt64.toNat_toBitVec] at hsign
  unfold Sign.ofBitVec Binary64.sign Binary64.negative
  by_cases h : 0x8000000000000000 ≤ x.bits.toNat
  · rw [if_neg, if_pos (decide_eq_true h)]
    intro h0
    rw [h0] at hsign
    simp at hsign
    omega
  · rw [if_pos, if_neg (by simpa using h)]
    refine BitVec.eq_of_toNat_eq ?_
    rw [hsign]
    simp
    omega

namespace Binary64

variable {x : Binary64}

/-- The exponent and fraction fields of a word are those of its magnitude. -/
theorem fields_of_magnitude (x : Binary64) :
    (@unpackExponent .binary64 x.bits.toBitVec).toNat = x.magnitude / 2 ^ 52 ∧
      (@unpackMantissa .binary64 x.bits.toBitVec).toNat = x.magnitude % 2 ^ 52 := by
  have hlt := x.bits.toNat_lt
  rw [toNat_unpackExponent, toNat_unpackMantissa, UInt64.toNat_toBitVec, magnitude]
  constructor
  · omega
  · omega

theorem isFinite_iff : x.isFinite = true ↔ x.magnitude < 2047 * 2 ^ 52 := decide_eq_true_iff

/-- A finite word is read as the float of its sign and its magnitude. -/
theorem isMagnitude_unpack (h : x.isFinite = true) :
    IsMagnitude x.sign x.magnitude (UnpackedFloat.unpack .binary64 x.bits.toBitVec) := by
  obtain ⟨he, hm⟩ := fields_of_magnitude x
  rw [isFinite_iff] at h
  have hbias : (Format.binary64.exponentBias : ℤ) = 1023 := rfl
  unfold UnpackedFloat.unpack
  dsimp only
  rw [ofBitVec_unpackSign, hbias]
  by_cases hones : @unpackExponent .binary64 x.bits.toBitVec = -1#_
  · rw [hones] at he
    have : x.magnitude / 2 ^ 52 = 2047 := he.symm
    omega
  rw [if_neg hones]
  by_cases hzero : @unpackExponent .binary64 x.bits.toBitVec = 0#_
  · rw [if_pos hzero]
    rw [hzero] at he ⊢
    have hexp : x.magnitude / 2 ^ 52 = 0 := he.symm
    by_cases hnone : @unpackMantissa .binary64 x.bits.toBitVec = 0#_
    · rw [dif_pos hnone]
      rw [hnone] at hm
      have hfrac : x.magnitude % 2 ^ 52 = 0 := hm.symm
      have : x.magnitude = 0 := by omega
      rw [this]
      exact .zero
    · rw [dif_neg hnone]
      refine .of_eq (s := 0) _ ?_ (Or.inl rfl) ?_ ?_
      · omega
      · omega
      · simp
  · rw [if_neg hzero]
    have hpos : 0 < x.magnitude / 2 ^ 52 := by
      rw [← he]
      exact Nat.pos_of_ne_zero fun h0 => hzero (BitVec.eq_of_toNat_eq h0)
    have hsig : (1#1 ++ @unpackMantissa .binary64 x.bits.toBitVec).toNat =
        2 ^ 52 + x.magnitude % 2 ^ 52 := by
      rw [BitVec.toNat_append, ← Nat.shiftLeft_add_eq_or_of_lt (BitVec.isLt _), hm]
      rfl
    refine .of_eq (s := x.magnitude / 2 ^ 52 - 1) _ ?_ (Or.inr ?_) ?_ ?_
    · omega
    · omega
    · omega
    · rw [he]
      push_cast
      omega

/-- An infinite word is read as an infinity. -/
theorem unpack_of_magnitude_eq (h : x.magnitude = infiniteMagnitude) :
    UnpackedFloat.unpack .binary64 x.bits.toBitVec = .infinity x.sign := by
  obtain ⟨he, hm⟩ := fields_of_magnitude x
  have hones : @unpackExponent .binary64 x.bits.toBitVec = -1#_ := by
    refine BitVec.eq_of_toNat_eq ?_
    rw [he, h]
    rfl
  have hnone : @unpackMantissa .binary64 x.bits.toBitVec = 0#_ := by
    refine BitVec.eq_of_toNat_eq ?_
    rw [hm, h]
    rfl
  unfold UnpackedFloat.unpack
  dsimp only
  rw [if_pos hones, if_pos hnone, ofBitVec_unpackSign]

/-- A NaN is read as one, whatever its fraction. -/
theorem unpack_of_isNaN (h : x.isNaN = true) :
    UnpackedFloat.unpack .binary64 x.bits.toBitVec = .notANumber := by
  obtain ⟨he, hm⟩ := fields_of_magnitude x
  have hnan : 2047 * 2 ^ 52 < x.magnitude := of_decide_eq_true h
  have hlt := x.magnitude_lt
  have hones : @unpackExponent .binary64 x.bits.toBitVec = -1#_ := by
    refine BitVec.eq_of_toNat_eq ?_
    rw [he]
    show x.magnitude / 2 ^ 52 = 2047
    omega
  unfold UnpackedFloat.unpack
  dsimp only
  rw [if_pos hones, if_neg]
  intro hnone
  rw [hnone] at hm
  have hfrac : x.magnitude % 2 ^ 52 = 0 := hm.symm
  omega

@[simp] theorem isMinus_sign (x : Binary64) : isMinus x.sign = x.negative := by
  unfold sign
  cases x.negative <;> rfl

/-- The word of a float with the sign and the magnitude of a word is that word. -/
theorem ofUnpacked_eq {f : UnpackedFloat} (h : (UnpackedFloat.pack .binary64 f).toNat =
    (if isMinus x.sign then 0x8000000000000000 else 0) + x.magnitude) : ofUnpacked f = x := by
  have hbits : (ofUnpacked f).bits.toNat = x.bits.toNat := by
    rw [x.toNat_bits, ← isMinus_sign, ← h]
    rfl
  exact congrArg Binary64.mk (UInt64.toNat_inj.1 hbits)

/-- The bits of a word are read as they are, up to the fraction of a NaN. -/
theorem unpacked_eq (x : Binary64) :
    x.unpacked = UnpackedFloat.unpack .binary64 x.bits.toBitVec := by
  have hround : x.unpacked = UnpackedFloat.unpack .binary64
      (ofUnpacked (UnpackedFloat.unpack .binary64 x.bits.toBitVec)).bits.toBitVec := rfl
  rcases Nat.lt_trichotomy x.magnitude infiniteMagnitude with h | h | h
  · have hpack := toNat_pack_of_isMagnitude (isMagnitude_unpack (decide_eq_true h))
    rw [min_eq_right h.le] at hpack
    rw [hround, ofUnpacked_eq hpack]
  · rw [hround, ofUnpacked_eq]
    rw [unpack_of_magnitude_eq h, toNat_pack_infinity, h]
  · have hnan : x.isNaN = true := decide_eq_true h
    rw [hround, unpack_of_isNaN hnan]
    rfl

/-- **A finite word is the float of its sign and its magnitude.** -/
theorem isMagnitude_unpacked (h : x.isFinite = true) : IsMagnitude x.sign x.magnitude x.unpacked :=
  unpacked_eq x ▸ isMagnitude_unpack h

theorem unpacked_of_magnitude_eq (h : x.magnitude = infiniteMagnitude) :
    x.unpacked = .infinity x.sign :=
  (unpacked_eq x).trans (unpack_of_magnitude_eq h)

/-! ## The word of a result -/

theorem magnitude_of_toNat {sign : Sign} {k : ℕ} (hk : k < 0x8000000000000000)
    (h : x.bits.toNat = (if isMinus sign then 0x8000000000000000 else 0) + k) :
    x.magnitude = k ∧ x.negative = isMinus sign := by
  unfold magnitude negative
  rw [h]
  cases sign <;> simp [isMinus] <;> omega

/-- **The word of a rounded result** has its sign and its magnitude, cut off at the infinity. -/
theorem magnitude_ofUnpacked {sign : Sign} {k : ℕ} {f : UnpackedFloat} (h : IsMagnitude sign k f) :
    (ofUnpacked f).magnitude = min infiniteMagnitude k ∧ (ofUnpacked f).negative = isMinus sign :=
  magnitude_of_toNat (by unfold infiniteMagnitude; omega) (toNat_pack_of_isMagnitude h)

theorem magnitude_ofUnpacked_infinity (sign : Sign) :
    (ofUnpacked (.infinity sign)).magnitude = infiniteMagnitude ∧
      (ofUnpacked (.infinity sign)).negative = isMinus sign :=
  magnitude_of_toNat (by decide) (toNat_pack_infinity sign)

end Binary64
end Gazetteer
