import Mathlib.Logic.Function.Iterate
import Gazetteer.Bytes.Checksum

/-!
# Which changes the check value detects

A register of the check loses nothing: two different registers stay different, whatever follows.
Four bytes are as many bits as the register has, and fed to one register, different ones leave it
in different states. So if all bytes that differ between two messages lie within four places next to
each other, the check values of the messages differ.
-/

namespace Gazetteer

/-! ## Bits of a register -/

/-- The bits of a register, from the least significant one on. -/
def crcBits (r : UInt32) (i : Nat) : Bool := r.toBitVec.getLsbD i

theorem crcBits_ext {r s : UInt32} (h : ∀ i < 32, crcBits r i = crcBits s i) : r = s := by
  apply UInt32.toBitVec_inj.1
  apply BitVec.eq_of_getLsbD_eq
  exact h

@[simp] theorem crcBits_zero (i : Nat) : crcBits 0 i = false := by
  simp [crcBits]

@[simp] theorem crcBits_xor (r s : UInt32) (i : Nat) :
    crcBits (r ^^^ s) i = (crcBits r i ^^ crcBits s i) := by
  simp [crcBits]

theorem crcBits_of_le {r : UInt32} {i : Nat} (h : 32 ≤ i) : crcBits r i = false :=
  BitVec.getLsbD_of_ge _ _ h

theorem crcBits_shiftRight_one (r : UInt32) (i : Nat) :
    crcBits (r >>> 1) i = crcBits r (i + 1) := by
  simp [crcBits, Nat.add_comm]

theorem crcBits_shiftLeft_eight (r : UInt32) (i : Nat) :
    crcBits (r <<< 8) i = (decide (i < 32) && !decide (i < 8) && crcBits r (i - 8)) := by
  simp [crcBits]

theorem crcBits_byte (b : UInt8) (i : Nat) : crcBits b.toUInt32 i = b.toBitVec.getLsbD i := by
  by_cases hi : i < 32
  · simp [crcBits, hi]
  · rw [crcBits_of_le (by omega), BitVec.getLsbD_of_ge _ _ (by omega)]

theorem and_one_eq_iff (r : UInt32) : r &&& 1 = 1 ↔ crcBits r 0 = true := by
  rw [← UInt32.toBitVec_inj, UInt32.toBitVec_and, crcBits]
  show r.toBitVec &&& 1#32 = 1#32 ↔ _
  rw [BitVec.and_one_eq_setWidth_ofBool_getLsbD]
  cases r.toBitVec.getLsbD 0 <;> simp

/-! ## One bit -/

/-- A step moves every bit down one place, and adds the polynomial if a one falls out. -/
theorem crcBits_crcBit (r : UInt32) (i : Nat) :
    crcBits (crcBit r) i = (crcBits r (i + 1) ^^ (crcBits r 0 && crcBits crcPolynomial i)) := by
  unfold crcBit
  by_cases h : crcBits r 0 = true
  · rw [if_pos ((and_one_eq_iff r).2 h)]
    simp [crcBits_shiftRight_one, h]
  · rw [if_neg (mt (and_one_eq_iff r).1 h)]
    simp [crcBits_shiftRight_one, h]

/-- A step loses nothing. The highest bit of the polynomial is set, so the highest bit of the
register tells afterwards whether a one fell out. -/
theorem crcBit_injective : Function.Injective crcBit := by
  intro r s h
  have hbit (i : Nat) : (crcBits r (i + 1) ^^ (crcBits r 0 && crcBits crcPolynomial i)) =
      (crcBits s (i + 1) ^^ (crcBits s 0 && crcBits crcPolynomial i)) := by
    rw [← crcBits_crcBit, ← crcBits_crcBit, h]
  have hlast : crcBits crcPolynomial 31 = true := by decide
  have hzero : crcBits r 0 = crcBits s 0 := by
    simpa [hlast, crcBits_of_le] using hbit 31
  apply crcBits_ext
  intro i _
  cases i with
  | zero => exact hzero
  | succ i => simpa [hzero] using hbit i

/-- What lies above the lowest bit moves down without a change. -/
theorem crcBit_xor {r s t : UInt32} (hzero : crcBits s 0 = false)
    (hmove : ∀ i, crcBits s (i + 1) = crcBits t i) : crcBit (r ^^^ s) = crcBit r ^^^ t := by
  apply crcBits_ext
  intro i _
  simp only [crcBits_crcBit, crcBits_xor, hzero, hmove, Bool.xor_false]
  cases crcBits r (i + 1) <;> cases crcBits t i <;> simp

/-- What lies above the lowest `n` bits moves down `n` places without a change. -/
theorem iterate_crcBit_xor {n : Nat} {r s t : UInt32} (hzero : ∀ i < n, crcBits s i = false)
    (hmove : ∀ i, crcBits s (i + n) = crcBits t i) :
    crcBit^[n] (r ^^^ s) = crcBit^[n] r ^^^ t := by
  induction n generalizing r s with
  | zero =>
    have hst : s = t := crcBits_ext fun i _ => hmove i
    simp [hst]
  | succ n ih =>
    have hone : crcBit (r ^^^ s) = crcBit r ^^^ (s >>> 1) :=
      crcBit_xor (hzero 0 (by omega)) fun i => (crcBits_shiftRight_one s i).symm
    rw [Function.iterate_succ_apply, hone, ih, ← Function.iterate_succ_apply]
    · intro i hi
      rw [crcBits_shiftRight_one]
      exact hzero (i + 1) (by omega)
    · intro i
      rw [crcBits_shiftRight_one]
      exact hmove i

/-! ## Bytes -/

theorem crcByte_eq (r : UInt32) (b : UInt8) : crcByte r b = crcBit^[8] (r ^^^ b.toUInt32) := rfl

theorem crcByte_injective (b : UInt8) : Function.Injective fun r => crcByte r b := by
  intro r s h
  exact (UInt32.xor_left_inj _).1 (crcBit_injective.iterate 8 h)

/-- Different registers stay different. -/
theorem foldl_crcByte_injective (bytes : List UInt8) :
    Function.Injective fun r => bytes.foldl crcByte r := by
  induction bytes with
  | nil => exact Function.injective_id
  | cons b bytes ih => exact fun r s h => crcByte_injective b (ih h)

/-- A few bytes as one word, the first byte in its lowest bits. -/
def burstWord : List UInt8 → UInt32
  | [] => 0
  | b :: bytes => b.toUInt32 ^^^ (burstWord bytes <<< 8)

theorem crcBits_burstWord {bytes : List UInt8} {i : Nat} (h : 8 * bytes.length ≤ i) :
    crcBits (burstWord bytes) i = false := by
  induction bytes generalizing i with
  | nil => exact crcBits_zero i
  | cons b bytes ih =>
    rw [List.length_cons] at h
    have hb : b.toBitVec.getLsbD i = false := BitVec.getLsbD_of_ge _ _ (by omega)
    rw [burstWord, crcBits_xor, crcBits_byte, hb, crcBits_shiftLeft_eight, ih (by omega)]
    simp

/-- **Up to four bytes go through the register as one word.** -/
theorem foldl_crcByte_eq {bytes : List UInt8} (h : bytes.length ≤ 4) (r : UInt32) :
    bytes.foldl crcByte r = crcBit^[8 * bytes.length] (r ^^^ burstWord bytes) := by
  induction bytes generalizing r with
  | nil => simp [burstWord]
  | cons b bytes ih =>
    rw [List.length_cons] at h
    have hmove : crcBit^[8] (r ^^^ b.toUInt32 ^^^ (burstWord bytes <<< 8)) =
        crcBit^[8] (r ^^^ b.toUInt32) ^^^ burstWord bytes := by
      apply iterate_crcBit_xor
      · intro i hi
        simp [crcBits_shiftLeft_eight, hi]
      · intro i
        rw [crcBits_shiftLeft_eight]
        by_cases hi : i + 8 < 32
        · simp [hi]
        · have hhigh : crcBits (burstWord bytes) i = false := crcBits_burstWord (by omega)
          simp [hi, hhigh]
    rw [List.foldl_cons, ih (by omega), crcByte_eq, ← hmove, ← Function.iterate_add_apply,
      List.length_cons, burstWord, UInt32.xor_assoc, Nat.mul_add]

/-- Different bytes, up to four of them, are different words. -/
theorem burstWord_inj {a b : List UInt8} (hlen : a.length = b.length) (h4 : a.length ≤ 4)
    (h : burstWord a = burstWord b) : a = b := by
  induction a generalizing b with
  | nil => exact (List.length_eq_zero_iff.1 hlen.symm).symm
  | cons x a ih =>
    cases b with
    | nil => simp at hlen
    | cons y b =>
      rw [List.length_cons, List.length_cons] at hlen
      rw [List.length_cons] at h4
      have hbit (i : Nat) : (x.toBitVec.getLsbD i ^^ crcBits (burstWord a <<< 8) i) =
          (y.toBitVec.getLsbD i ^^ crcBits (burstWord b <<< 8) i) := by
        rw [← crcBits_byte, ← crcBits_byte, ← crcBits_xor, ← crcBits_xor]
        exact congrArg (crcBits · i) h
      have hhead : x = y := by
        apply UInt8.toBitVec_inj.1
        apply BitVec.eq_of_getLsbD_eq
        intro i hi
        simpa [crcBits_shiftLeft_eight, hi] using hbit i
      have htail : burstWord a = burstWord b := by
        apply crcBits_ext
        intro i _
        by_cases hi : i < 24
        · simpa [hhead, crcBits_shiftLeft_eight, show i + 8 < 32 by omega,
            show ¬ i + 8 < 8 by omega] using hbit (i + 8)
        · rw [crcBits_burstWord (by omega), crcBits_burstWord (by omega)]
      rw [hhead, ih (by omega) (by omega) htail]

/-! ## Messages -/

/-- Lists of one length that differ within a window only have the same start and the same rest. -/
theorem take_drop_eq_of_window {a b : List UInt8} {start width : Nat}
    (hwin : ∀ i, a[i]? ≠ b[i]? → start ≤ i ∧ i < start + width) :
    a.take start = b.take start ∧ a.drop (start + width) = b.drop (start + width) := by
  constructor
  · apply List.ext_getElem?
    intro i
    rw [List.getElem?_take, List.getElem?_take]
    by_cases hi : i < start
    · rw [if_pos hi, if_pos hi]
      by_contra hne
      have := hwin i hne
      omega
    · rw [if_neg hi, if_neg hi]
  · apply List.ext_getElem?
    intro i
    rw [List.getElem?_drop, List.getElem?_drop]
    by_contra hne
    have := hwin _ hne
    omega

/-- **A burst of up to four bytes is detected**: if all bytes that differ between two messages of one
length lie within four places next to each other, the check values differ. -/
theorem crc32_ne_of_burst {a b : List UInt8} {start : Nat} (hlen : a.length = b.length)
    (hne : a ≠ b) (hwin : ∀ i, a[i]? ≠ b[i]? → start ≤ i ∧ i < start + 4) :
    crc32 a ≠ crc32 b := by
  obtain ⟨hfront, hrest⟩ := take_drop_eq_of_window hwin
  have hsplit (c : List UInt8) : c = c.take start ++ ((c.drop start).take 4 ++ c.drop (start + 4)) := by
    rw [← List.drop_drop, List.take_append_drop, List.take_append_drop]
  have hfold (c : List UInt8) : c.foldl crcByte 0xffffffff = (c.drop (start + 4)).foldl crcByte
      (((c.drop start).take 4).foldl crcByte ((c.take start).foldl crcByte 0xffffffff)) := by
    rw [← List.foldl_append, ← List.foldl_append, ← hsplit c]
  intro h
  have hstate := (UInt32.xor_left_inj _).1 h
  rw [hfold a, hfold b, hfront, hrest] at hstate
  have hburst := foldl_crcByte_injective _ hstate
  have hwidth : ((a.drop start).take 4).length = ((b.drop start).take 4).length := by simp [hlen]
  rw [foldl_crcByte_eq (List.length_take_le _ _), foldl_crcByte_eq (List.length_take_le _ _),
    hwidth] at hburst
  have hword := (UInt32.xor_right_inj _).1 (crcBit_injective.iterate _ hburst)
  have hmiddle := burstWord_inj hwidth (List.length_take_le _ _) hword
  apply hne
  rw [hsplit a, hsplit b, hfront, hmiddle, hrest]

end Gazetteer
