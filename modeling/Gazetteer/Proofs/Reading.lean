import Mathlib.Algebra.GroupWithZero.Nat
import Gazetteer.Header
import Gazetteer.Proofs.Steps

/-!
# Reading what was written

A file is written by putting pieces of bytes one after another. `HasAt` says that a piece stands at
an offset; it passes from a piece to its parts, and a read of a part gives back what the part was
made of.
-/

namespace Gazetteer

/-! ## Words as bytes -/

@[simp] theorem length_int32Bytes (v : Int32) : (int32Bytes v).length = 4 := by simp [int32Bytes]

@[simp] theorem length_int64Bytes (v : Int64) : (int64Bytes v).length = 8 := by simp [int64Bytes]

@[simp] theorem length_real64Bytes (v : Binary64) : (real64Bytes v).length = 8 := by
  simp [real64Bytes]

@[simp] theorem length_real32Bytes (v : Binary32) : (real32Bytes v).length = 4 := by
  simp [real32Bytes]

theorem toInt_ofNat_of_lt {n : Nat} (h : n < 0x80000000) : (Int32.ofNat n).toInt = n := by
  exact Int32.toInt_ofNat_of_lt h

/-- A number that was narrowed is below `2 ^ 31` and is read back as it was. -/
theorem toInt32_eq_ok {n : Nat} {what : String} {v : Int32} :
    toInt32 n what = .ok v ↔ n < 0x80000000 ∧ v = Int32.ofNat n := by
  unfold toInt32
  split
  · simp_all [eq_comm]
  · simp only [reduceCtorEq, false_iff, not_and]
    exact fun h => absurd h ‹_›

theorem toInt_of_toInt32 {n : Nat} {what : String} {v : Int32} (h : toInt32 n what = .ok v) :
    v.toInt = n := by
  obtain ⟨hn, rfl⟩ := toInt32_eq_ok.1 h
  exact toInt_ofNat_of_lt hn

/-- An offset that fits is no mark of a missing one. -/
theorem ofNat_ne_emptyOffset {n : Nat} (h : n < 0x80000000) : Int32.ofNat n ≠ emptyOffset := by
  intro e
  have hi := toInt_ofNat_of_lt h
  rw [e] at hi
  exact absurd hi (by simp [emptyOffset])

/-! ## Pieces of bytes -/

variable {whole piece a b : List UInt8} {offset : Nat}

/-- A piece of bytes stands at an offset. -/
def HasAt (whole : List UInt8) (offset : Nat) (piece : List UInt8) : Prop :=
  ∃ before after, whole = before ++ (piece ++ after) ∧ before.length = offset

theorem hasAt_self (piece : List UInt8) : HasAt piece 0 piece := ⟨[], [], by simp, rfl⟩

theorem length_flatten_of_forall {pieces : List (List UInt8)} (size : Nat)
    (hs : ∀ p ∈ pieces, p.length = size) : pieces.flatten.length = pieces.length * size := by
  induction pieces with
  | nil => simp
  | cons p pieces ih =>
    rw [List.flatten_cons, List.length_append, hs p (by simp), ih fun q hq => hs q (by simp [hq]),
      List.length_cons, Nat.add_mul, Nat.one_mul, Nat.add_comm]

/-- Pieces that steps gave are as long together as the steps say one by one. -/
theorem length_flatten_of_mapM {β : Type} {f : β → Except Error (List UInt8)} {size : β → Nat}
    {xs : List β} {pieces : List (List UInt8)}
    (hsize : ∀ x bytes, f x = .ok bytes → bytes.length = size x)
    (h : xs.mapM f = .ok pieces) : pieces.flatten.length = (xs.map size).sum := by
  rw [mapM_eq_ok] at h
  induction h with
  | nil => rfl
  | cons hx _ ih => simp [ih, hsize _ _ hx]

namespace HasAt

theorem left (h : HasAt whole offset (a ++ b)) : HasAt whole offset a := by
  obtain ⟨before, after, e, hl⟩ := h
  exact ⟨before, b ++ after, by simp [e], hl⟩

theorem right (h : HasAt whole offset (a ++ b)) : HasAt whole (offset + a.length) b := by
  obtain ⟨before, after, e, hl⟩ := h
  exact ⟨before ++ a, after, by simp [e], by simp [hl]⟩

/-- What stands behind a piece, at an offset worked out by the caller. -/
theorem after (h : HasAt whole offset (a ++ b)) (next : Nat) (hn : offset + a.length = next) :
    HasAt whole next b := hn ▸ h.right

/-- A piece of a piece. -/
theorem trans {inner : Nat} (h : HasAt whole offset piece) (h' : HasAt piece inner a) :
    HasAt whole (offset + inner) a := by
  obtain ⟨before, after, rfl, rfl⟩ := h
  obtain ⟨before', after', rfl, rfl⟩ := h'
  exact ⟨before ++ before', after' ++ after, by simp, by simp⟩

theorem le_length (h : HasAt whole offset piece) : offset + piece.length ≤ whole.length := by
  obtain ⟨before, after, rfl, rfl⟩ := h
  simp only [List.length_append]
  omega

theorem take_drop (h : HasAt whole offset piece) :
    (whole.drop offset).take piece.length = piece := by
  obtain ⟨before, after, rfl, rfl⟩ := h
  rw [List.drop_left, List.take_left]

theorem take_drop_of_length {n : Nat} (h : HasAt whole offset piece) (hn : piece.length = n) :
    (whole.drop offset).take n = piece := hn ▸ h.take_drop

/-- The piece with a number among pieces of one size. -/
theorem flatten {pieces : List (List UInt8)} {size : Nat} (h : HasAt whole offset pieces.flatten)
    (hs : ∀ p ∈ pieces, p.length = size) {i : Nat} (hp : pieces[i]? = some piece) :
    HasAt whole (offset + i * size) piece := by
  induction pieces generalizing offset i with
  | nil => simp at hp
  | cons q pieces ih =>
    rw [List.flatten_cons] at h
    cases i with
    | zero =>
      cases (by simpa using hp : q = piece)
      simpa using h.left
    | succ i =>
      have hq : q.length = size := hs q (by simp)
      have := ih h.right (fun p' hp' => hs p' (by simp [hp'])) (by simpa using hp)
      rwa [hq, Nat.add_assoc, Nat.add_comm size, ← Nat.succ_mul] at this

/-- The piece that a step gave stands behind those of the steps before. -/
theorem of_mapM {β : Type} {f : β → Except Error (List UInt8)} {size : β → Nat} {xs : List β}
    {pieces : List (List UInt8)} (hsize : ∀ x bytes, f x = .ok bytes → bytes.length = size x)
    (h : xs.mapM f = .ok pieces) (hat : HasAt whole offset pieces.flatten) {i : Nat} {x : β}
    (hx : xs[i]? = some x) :
    ∃ bytes, f x = .ok bytes ∧ HasAt whole (offset + ((xs.take i).map size).sum) bytes := by
  rw [mapM_eq_ok] at h
  induction h generalizing offset i with
  | nil => simp at hx
  | @cons y bytes ys rest hy _ ih =>
    rw [List.flatten_cons] at hat
    cases i with
    | zero =>
      cases (by simpa using hx : y = x)
      exact ⟨bytes, hy, by simpa using hat.left⟩
    | succ i =>
      obtain ⟨bytes', hx', hat'⟩ := ih hat.right (by simpa using hx)
      refine ⟨bytes', hx', ?_⟩
      rw [hsize y bytes hy] at hat'
      simpa [Nat.add_assoc] using hat'

end HasAt

/-! ## Reads from a buffer -/

namespace Buffer

variable {buf : Buffer}

theorem slice_of_hasAt {n : Nat} (h : HasAt buf.bytes offset piece) (hn : piece.length = n) :
    buf.slice offset n = .ok piece := by
  have hle : offset + n ≤ buf.size := hn ▸ length_bytes buf ▸ h.le_length
  rw [slice_eq _ _ _ hle, h.take_drop_of_length hn]

theorem readInt32_of_hasAt {v : Int32} (h : HasAt buf.bytes offset (int32Bytes v)) :
    buf.readInt32 offset = .ok v := by
  rw [readInt32, slice_of_hasAt h (length_int32Bytes v), ok_map, int32OfBytes_int32Bytes]

theorem readReal64_of_hasAt {v : Binary64} (h : HasAt buf.bytes offset (real64Bytes v)) :
    buf.readReal64 offset = .ok v := by
  rw [readReal64, slice_of_hasAt h (length_real64Bytes v), ok_map, real64OfBytes_real64Bytes]

/-- The mark of a missing offset is read as one. -/
theorem readOffset_of_hasAt_empty (h : HasAt buf.bytes offset (int32Bytes emptyOffset)) :
    buf.readOffset offset = .ok none := by
  simp [readOffset, readInt32_of_hasAt h]

/-- An offset that fits is read back. -/
theorem readOffset_of_hasAt {n : Nat} (hn : n < 0x80000000)
    (h : HasAt buf.bytes offset (int32Bytes (Int32.ofNat n))) :
    buf.readOffset offset = .ok (some n) := by
  have hi := toInt_ofNat_of_lt hn
  have hne := ofNat_ne_emptyOffset hn
  simp only [readOffset, readInt32_of_hasAt h, ok_bind, hne, if_false, hi]
  simp

end Buffer
end Gazetteer
