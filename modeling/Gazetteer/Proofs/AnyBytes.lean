import Mathlib.Data.List.Induction
import Gazetteer.Proofs.Reading

/-!
# Reading any bytes

A buffer that nobody vouches for may hold anything. A read of it either fails as damage, or the
piece that it gives stands at its offset: what was read is what the writer would have written there.
`FailsWith` follows the kind of an error through a chain of steps.
-/

namespace Gazetteer

/-! ## Kinds of failure -/

variable {β γ : Type} {P Q : Error → Prop}

/-- A step that fails, if at all, with an error of a kind. -/
def FailsWith (P : Error → Prop) (x : Except Error β) : Prop := ∀ e, x = .error e → P e

/-- The error of a damaged file. -/
def Error.IsDamage (e : Error) : Prop := ∃ cause, e = .corrupted cause

namespace FailsWith

theorem ok (b : β) : FailsWith P (.ok b) := by
  intro e h
  cases h

theorem error {e : Error} (h : P e) : FailsWith P (.error e : Except Error β) := by
  intro e' he
  cases he
  exact h

theorem mono {x : Except Error β} (h : FailsWith P x) (hPQ : ∀ e, P e → Q e) : FailsWith Q x :=
  fun e he => hPQ e (h e he)

theorem map {x : Except Error β} (h : FailsWith P x) (f : β → γ) : FailsWith P (x.map f) := by
  intro e he
  cases x with
  | ok b => cases he
  | error e' =>
    cases he
    exact h e rfl

/-- A chain fails where its first step fails, or where the rest does. -/
theorem bind {x : Except Error β} {f : β → Except Error γ} (hx : FailsWith P x)
    (hf : ∀ b, x = .ok b → FailsWith P (f b)) : FailsWith P (x >>= f) := by
  intro e he
  cases x with
  | ok b => exact hf b rfl e he
  | error e' =>
    cases he
    exact hx e rfl

theorem mapM {f : β → Except Error γ} {xs : List β} (h : ∀ x ∈ xs, FailsWith P (f x)) :
    FailsWith P (xs.mapM f) := by
  induction xs with
  | nil => exact ok []
  | cons x xs ih =>
    rw [List.mapM_cons]
    apply bind (h x (by simp))
    intro y _
    apply bind (ih fun z hz => h z (by simp [hz]))
    intro ys _
    exact ok (y :: ys)

end FailsWith

/-! ## Words of any bytes -/

theorem ofBigEndian_lt (bytes : List UInt8) : ofBigEndian bytes < 256 ^ bytes.length := by
  induction bytes using List.reverseRecOn with
  | nil => simp [ofBigEndian]
  | append_singleton bytes b ih =>
    have hb := b.toNat_lt
    rw [ofBigEndian_append_one, List.length_append, List.length_singleton, Nat.pow_succ]
    omega

/-- Bytes are written as the number that they are. -/
theorem bigEndian_ofBigEndian (bytes : List UInt8) :
    bigEndian bytes.length (ofBigEndian bytes) = bytes := by
  induction bytes using List.reverseRecOn with
  | nil => rfl
  | append_singleton bytes b ih =>
    have hb := b.toNat_lt
    have hdiv : (256 * ofBigEndian bytes + b.toNat) / 256 = ofBigEndian bytes := by omega
    have hlow : UInt8.ofNat (256 * ofBigEndian bytes + b.toNat) = b := by
      apply UInt8.toNat_inj.1
      rw [UInt8.toNat_ofNat']
      omega
    rw [ofBigEndian_append_one, List.length_append, List.length_singleton, bigEndian, hdiv, ih, hlow]

theorem int32Bytes_int32OfBytes {bytes : List UInt8} (h : bytes.length = 4) :
    int32Bytes (int32OfBytes bytes) = bytes := by
  have hlt := ofBigEndian_lt bytes
  rw [h] at hlt
  have hword : (int32OfBytes bytes).toUInt32.toNat = ofBigEndian bytes := by
    rw [int32OfBytes, Int32.toUInt32, UInt32.toInt32]
    exact UInt32.toNat_ofNat_of_lt' (by simpa using hlt)
  rw [int32Bytes, hword, ← h, bigEndian_ofBigEndian]

theorem int64Bytes_int64OfBytes {bytes : List UInt8} (h : bytes.length = 8) :
    int64Bytes (int64OfBytes bytes) = bytes := by
  have hlt := ofBigEndian_lt bytes
  rw [h] at hlt
  have hword : (int64OfBytes bytes).toUInt64.toNat = ofBigEndian bytes := by
    rw [int64OfBytes, Int64.toUInt64, UInt64.toInt64]
    exact UInt64.toNat_ofNat_of_lt' (by simpa using hlt)
  rw [int64Bytes, hword, ← h, bigEndian_ofBigEndian]

theorem real64Bytes_real64OfBytes {bytes : List UInt8} (h : bytes.length = 8) :
    real64Bytes (real64OfBytes bytes) = bytes := by
  have hlt := ofBigEndian_lt bytes
  rw [h] at hlt
  have hword : (real64OfBytes bytes).bits.toNat = ofBigEndian bytes :=
    UInt64.toNat_ofNat_of_lt' (by simpa using hlt)
  rw [real64Bytes, hword, ← h, bigEndian_ofBigEndian]

theorem real32Bytes_real32OfBytes {bytes : List UInt8} (h : bytes.length = 4) :
    real32Bytes (real32OfBytes bytes) = bytes := by
  have hlt := ofBigEndian_lt bytes
  rw [h] at hlt
  have hword : (real32OfBytes bytes).bits.toNat = ofBigEndian bytes :=
    UInt32.toNat_ofNat_of_lt' (by simpa using hlt)
  rw [real32Bytes, hword, ← h, bigEndian_ofBigEndian]

/-- A word that is not negative is the one that its number is written as. -/
theorem ofNat_toNat_toInt {v : Int32} (h : 0 ≤ v.toInt) : Int32.ofNat v.toInt.toNat = v := by
  apply Int32.toInt_inj.1
  have hlt := Int32.toInt_lt v
  rw [Int32.toInt_ofNat_of_lt (by omega)]
  omega

/-! ## Pieces -/

namespace HasAt

variable {whole a b piece : List UInt8} {offset : Nat}

theorem append (ha : HasAt whole offset a) (hb : HasAt whole (offset + a.length) b) :
    HasAt whole offset (a ++ b) := by
  obtain ⟨before, after, rfl, hl⟩ := ha
  obtain ⟨before', after', he, hl'⟩ := hb
  have hcut : before' = before ++ a := by
    have hle : before'.length = (before ++ a).length := by simp [hl', hl]
    rw [← List.append_assoc] at he
    exact (List.append_inj_left he hle.symm).symm
  subst hcut
  rw [← List.append_assoc] at he
  have hrest := List.append_cancel_left he
  exact ⟨before, after', by rw [hrest, List.append_assoc], hl⟩

/-- A piece in front of another, at an offset worked out by the caller. -/
theorem before {next : Nat} (ha : HasAt whole offset a) (hb : HasAt whole next b)
    (hn : offset + a.length = next) : HasAt whole offset (a ++ b) :=
  ha.append (hn ▸ hb)

/-- The bytes between two places stand where they are. -/
theorem of_le {n : Nat} (h : offset + n ≤ whole.length) :
    HasAt whole offset ((whole.drop offset).take n) := by
  refine ⟨whole.take offset, whole.drop (offset + n), ?_, ?_⟩
  · rw [← List.drop_drop, List.take_append_drop, List.take_append_drop]
  · rw [List.length_take]
    omega

/-- A piece at the start is the bytes up to its end. -/
theorem eq_take {n : Nat} (h : HasAt whole 0 piece) (hn : piece.length = n) :
    piece = whole.take n := by
  have hcut := h.take_drop_of_length hn
  rwa [List.drop_zero, eq_comm] at hcut

/-- A piece that takes all the room is the whole. -/
theorem eq_whole (h : HasAt whole 0 piece) (hl : whole.length ≤ piece.length) : piece = whole := by
  obtain ⟨before, after, rfl, h0⟩ := h
  have hb := List.eq_nil_of_length_eq_zero h0
  have ha : after = [] := by
    apply List.eq_nil_of_length_eq_zero
    rw [List.length_append, List.length_append] at hl
    omega
  simp [hb, ha]

end HasAt

/-! ## Reads -/

namespace Buffer

variable {buf : Buffer} {offset length n : Nat} {piece : List UInt8} {v : Int32}

theorem slice_failsWith : FailsWith Error.IsDamage (buf.slice offset length) := by
  unfold slice
  split
  · exact .ok _
  · exact .error ⟨_, rfl⟩

/-- A slice is the piece of its length that stands at its offset. -/
theorem slice_eq_ok :
    buf.slice offset length = .ok piece ↔ HasAt buf.bytes offset piece ∧ piece.length = length := by
  constructor
  · intro h
    by_cases hle : offset + length ≤ buf.size
    · rw [slice_eq _ _ _ hle] at h
      cases h
      rw [← length_bytes] at hle
      refine ⟨.of_le hle, ?_⟩
      rw [List.length_take, List.length_drop]
      omega
    · simp [slice, hle] at h
  · rintro ⟨h, hl⟩
    exact slice_of_hasAt h hl

theorem readInt32_failsWith : FailsWith Error.IsDamage (buf.readInt32 offset) :=
  slice_failsWith.map _

theorem readReal64_failsWith : FailsWith Error.IsDamage (buf.readReal64 offset) :=
  slice_failsWith.map _

/-- A word is read just if it stands there. -/
theorem readInt32_eq_ok : buf.readInt32 offset = .ok v ↔ HasAt buf.bytes offset (int32Bytes v) := by
  constructor
  · intro h
    obtain ⟨piece, hp, rfl⟩ := map_eq_ok.1 h
    obtain ⟨hat, hl⟩ := slice_eq_ok.1 hp
    rwa [int32Bytes_int32OfBytes hl]
  · exact readInt32_of_hasAt

theorem readOffset_failsWith : FailsWith Error.IsDamage (buf.readOffset offset) := by
  apply readInt32_failsWith.bind
  intro v _
  by_cases hv : v = emptyOffset
  · rw [if_pos hv]
    exact .ok none
  · rw [if_neg hv]
    by_cases hpos : 0 ≤ v.toInt
    · rw [if_pos hpos]
      exact .ok _
    · rw [if_neg hpos]
      exact .error ⟨_, rfl⟩

/-- An offset that is read is one of the file format. -/
theorem readOffset_lt (h : buf.readOffset offset = .ok (some n)) : n < 0x80000000 := by
  obtain ⟨v, -, h⟩ := bind_eq_ok.1 h
  have hlt := Int32.toInt_lt v
  split at h
  · cases h
  · split at h
    · cases h
      omega
    · cases h

end Buffer
end Gazetteer
