import Gazetteer.Proofs.Parsing

/-!
# Opening with machine words

Offsets are natural numbers here and words of 64 bits on a machine, where a sum that does not fit
ends the program, as does an index past the end. `Checked` is a computation that gives up in these
two cases, and `ofBufferChecked` is the opening of a buffer written in it. It never gives up: the
header bounds the size of the buffer before any offset is computed from its content.
-/

namespace Gazetteer

/-- A computation on a machine: none if it had to be given up. -/
abbrev Checked := ExceptT Error Option

namespace Checked

variable {β γ : Type}

/-- A step that needs no arithmetic. -/
def step (x : Except Error β) : Checked β := ExceptT.mk (some x)

/-- A number, if it fits a word of 64 bits. -/
def word (n : Nat) : Checked Nat := if n < 0x10000000000000000 then pure n else ExceptT.lift none

/-- The byte at an index, if there is one. -/
def byteAt (bytes : List UInt8) (i : Nat) : Checked UInt8 := ExceptT.lift bytes[i]?

/-- A checked computation goes through, with the outcome of a plain one. -/
def Yields (x : Checked β) (y : Except Error β) : Prop := x = step y

@[simp] theorem step_ok_bind (b : β) (f : β → Checked γ) : (step (.ok b) >>= f) = f b := rfl

theorem yields_step (x : Except Error β) : Yields (step x) x := rfl

theorem yields_pure (b : β) : Yields (pure b) (.ok b) := rfl

/-- A chain goes through if its first step does and the rest does after it. -/
theorem Yields.bind {x : Checked β} {y : Except Error β} {f : β → Checked γ}
    {g : β → Except Error γ} (hx : Yields x y) (hf : ∀ b, y = .ok b → Yields (f b) (g b)) :
    Yields (x >>= f) (y >>= g) := by
  rw [Yields] at hx
  subst hx
  cases y with
  | ok b => exact hf b rfl
  | error e => rfl

/-- A number that fits is no obstacle. -/
theorem Yields.word {n : Nat} {f : Nat → Checked γ} {y : Except Error γ}
    (hn : n < 0x10000000000000000) (hf : Yields (f n) y) : Yields (word n >>= f) y := by
  rw [Checked.word, if_pos hn]
  exact hf

/-- An index inside is no obstacle. -/
theorem Yields.byteAt {bytes : List UInt8} {i : Nat} {f : UInt8 → Checked γ} {y : Except Error γ}
    (hi : i < bytes.length) (hf : Yields (f (bytes.getD i 0)) y) :
    Yields (byteAt bytes i >>= f) y := by
  have hget : bytes[i]? = some (bytes.getD i 0) := by simp [hi]
  rw [Checked.byteAt, hget]
  exact hf

theorem Yields.ite {c : Prop} [Decidable c] {x x' : Checked β} {y y' : Except Error β}
    (hx : c → Yields x y) (hx' : ¬ c → Yields x' y') :
    Yields (if c then x else x') (if c then y else y') := by
  by_cases hc : c
  · rw [if_pos hc, if_pos hc]
    exact hx hc
  · rw [if_neg hc, if_neg hc]
    exact hx' hc

/-- Steps that go through one by one go through together. -/
theorem yields_mapM {f : β → Checked γ} {g : β → γ} {xs : List β}
    (h : ∀ x ∈ xs, Yields (f x) (.ok (g x))) : Yields (xs.mapM f) (.ok (xs.map g)) := by
  induction xs with
  | nil => exact yields_pure []
  | cons x xs ih =>
    have hx : f x = step (.ok (g x)) := h x (by simp)
    have hxs : xs.mapM f = step (.ok (xs.map g)) := ih fun y hy => h y (by simp [hy])
    rw [List.mapM_cons, hx, step_ok_bind, hxs, step_ok_bind]
    exact yields_pure _

end Checked

open Checked

variable {buf : Buffer} {offset : Nat}

/-! ## The strings -/

/-- String number `index`, at `offset`, and the offset after it. -/
def readStringChecked (buf : Buffer) (index offset : Nat) : Checked (String × Nat) := do
  let length ← step (buf.readInt32 offset)
  if length.toInt < 0 then step (.error (.invalidFormat (.negativeStringLength length index)))
  else
    let n := length.toInt.toNat
    let textAt ← word (offset + 4)
    let room ← word (n + 1)
    let bytes ← step (buf.slice textAt room)
    let terminator ← byteAt bytes n
    let s ← step (decodeText index (bytes.take n) terminator)
    let next ← word (offset + 4 + n + 1)
    return (s, next)

theorem yields_readStringChecked {index : Nat} (h : offset < 0x8000000000000000) :
    Yields (readStringChecked buf index offset) (readString buf index offset) := by
  apply (yields_step _).bind
  intro length _
  have hlt := Int32.toInt_lt length
  apply Yields.ite
  · intro _
    exact yields_step _
  · intro hneg
    apply Yields.word (by omega)
    apply Yields.word (by omega)
    apply (yields_step _).bind
    intro bytes hbytes
    have hlength := (Buffer.slice_eq_ok.1 hbytes).2
    apply Yields.byteAt (by omega)
    apply (yields_step _).bind
    intro s _
    apply Yields.word (by omega)
    exact yields_pure _

/-- `count` strings from number `index` on, at `offset`, and the offset after them. -/
def readStringsFromChecked (buf : Buffer) :
    (count index offset : Nat) → Checked (List String × Nat)
  | 0, _, offset => pure ([], offset)
  | count + 1, index, offset => do
    let (s, next) ← readStringChecked buf index offset
    let (ss, stop) ← readStringsFromChecked buf count (index + 1) next
    return (s :: ss, stop)

theorem yields_readStringsFromChecked {count index : Nat} (hbuf : buf.size < 0x8000000000000000)
    (h : offset ≤ buf.size) : Yields (readStringsFromChecked buf count index offset)
      (readStringsFrom buf count index offset) := by
  induction count generalizing index offset with
  | zero => exact yields_pure _
  | succ count ih =>
    apply (yields_readStringChecked (by omega)).bind
    rintro ⟨s, next⟩ hs
    obtain ⟨-, hat, rfl⟩ := readString_eq_ok.1 hs
    apply (ih hat.le_length).bind
    rintro ⟨ss, stop⟩ _
    exact yields_pure _

/-- The string table at `offset`, and the offset after it. -/
def StringTable.readChecked (buf : Buffer) (offset : Nat) : Checked (StringTable × Nat) := do
  let count ← step (buf.readInt32 offset)
  if count.toInt < 0 then step (.error (.invalidFormat (.negativeStringCount count)))
  else
    let first ← word (offset + 4)
    let (ss, stop) ← readStringsFromChecked buf count.toInt.toNat 0 first
    return (⟨ss.toArray⟩, stop)

theorem StringTable.yields_readChecked (hbuf : buf.size < 0x8000000000000000) :
    Yields (StringTable.readChecked buf offset) (StringTable.read buf offset) := by
  apply (yields_step _).bind
  intro count hcount
  have hle := (Buffer.readInt32_eq_ok.1 hcount).le_length
  rw [length_int32Bytes, Buffer.length_bytes] at hle
  apply Yields.ite
  · intro _
    exact yields_step _
  · intro _
    apply Yields.word (by omega)
    apply (yields_readStringsFromChecked hbuf hle).bind
    rintro ⟨ss, stop⟩ _
    exact yields_pure _

/-! ## The layout -/

/-- The geometry at an offset. -/
def TableGeometry.readChecked (buf : Buffer) (offset : Nat) : Checked TableGeometry := do
  let length ← step (buf.readInt32 offset)
  let rehashAt ← word (offset + 4)
  let rehash ← step (buf.readInt32 rehashAt)
  if length.toInt ≤ 0 ∨ rehash.toInt ≤ 0 ∨ length.toInt ≤ rehash.toInt then
    step (.error (.invalidFormat (.tableGeometry length rehash)))
  else return ⟨length.toInt.toNat, rehash.toInt.toNat⟩

theorem TableGeometry.yields_readChecked (h : offset < 0x8000000000000000) :
    Yields (TableGeometry.readChecked buf offset) (TableGeometry.read buf offset) := by
  apply (yields_step _).bind
  intro length _
  apply Yields.word (by omega)
  apply (yields_step _).bind
  intro rehash _
  apply Yields.ite
  · intro _
    exact yields_step _
  · intro _
    exact yields_pure _

section
variable (α : Type) [Schema α]

/-- The layout of a buffer whose strings end at an offset. Every sum on the way to a section is part
of the place of the section. -/
def readLayoutChecked (buf : Buffer) (offset : Nat) : Checked Layout := do
  let count ← step (buf.readInt32 offset)
  let sizeAt ← word (offset + 4)
  let size ← step (buf.readInt32 sizeAt)
  if count.toInt < 0 then step (.error (.invalidFormat (.negativeItemCount count)))
  else
    let expected := Schema.recordSize α
    if size.toInt ≠ expected then
      step (.error (.invalidFormat (.itemSize size (Schema.schemaName α) expected)))
    else
      let itemsAt ← word (offset + 8)
      let n := count.toInt.toNat
      let mapAt ← word (itemsAt + n * expected)
      let geometry ← TableGeometry.readChecked buf mapAt
      let layout : Layout := ⟨itemsAt, expected, n, geometry⟩
      let _ ← word layout.slotsAt
      let _ ← word layout.nodesAt
      let stop ← word layout.stop
      if stop ≠ buf.size then step (.error (.invalidFormat (.sectionsEnd stop buf.size)))
      else return layout

/-- Opens a buffer. -/
def Database.ofBufferChecked (settings : Settings) (buf : Buffer) : Checked (Database α) := do
  step (settings.check.mapError .settings)
  let header ← step (Header.read buf)
  step (header.check settings.verifyChecksum buf)
  let (strings, stop) ← StringTable.readChecked buf headerSize
  step (checkSchema α strings)
  let layout ← readLayoutChecked α buf stop
  return ⟨buf, header, strings, layout, ⟨settings.longRangeThreshold⟩⟩

end

variable {α : Type} [Schema α] [StorableSchema α]

/-- The places of sections whose counts are words fit in twice the bits. -/
theorem Layout.stop_lt {l : Layout} (hitems : l.itemsAt < 0x100000000)
    (hsize : l.itemSize < 0x80000000) (hcount : l.count < 0x80000000)
    (hlength : l.geometry.length < 0x80000000) :
    l.slotsAt ≤ l.nodesAt ∧ l.nodesAt ≤ l.stop ∧ l.stop < 0x8000000000000000 := by
  have hrecords : l.count * l.itemSize < 0x80000000 * 0x80000000 :=
    Nat.mul_lt_mul'' hcount hsize
  have hmap : l.mapAt = l.itemsAt + l.count * l.itemSize := rfl
  have hslots : l.slotsAt = l.mapAt + 8 := rfl
  have hnodes := l.nodesAt_eq
  have hstop : l.stop = l.nodesAt + l.count * 12 := rfl
  refine ⟨?_, ?_, ?_⟩ <;> omega

theorem yields_readLayoutChecked (h : offset < 0x80000000) :
    Yields (readLayoutChecked α buf offset) (readLayout α buf offset) := by
  have hrecord : Schema.recordSize α < 0x80000000 := StorableSchema.recordSize_lt
  apply (yields_step _).bind
  intro count _
  have hcount := Int32.toInt_lt count
  apply Yields.word (by omega)
  apply (yields_step _).bind
  intro size _
  apply Yields.ite
  · intro _
    exact yields_step _
  intro hneg
  apply Yields.ite
  · intro _
    exact yields_step _
  intro _
  have hrecords : count.toInt.toNat * Schema.recordSize α < 0x80000000 * 0x80000000 :=
    Nat.mul_lt_mul'' (by omega) hrecord
  apply Yields.word (by omega)
  apply Yields.word (by omega)
  apply (TableGeometry.yields_readChecked (by omega)).bind
  intro g hg
  obtain ⟨-, -, -, hlength⟩ := TableGeometry.read_eq_ok.1 hg
  obtain ⟨hslots, hnodes, hstop⟩ := Layout.stop_lt
    (l := ⟨offset + 8, Schema.recordSize α, count.toInt.toNat, g⟩) (by dsimp only; omega) hrecord
    (by dsimp only; omega) hlength
  apply Yields.word (by omega)
  apply Yields.word (by omega)
  apply Yields.word (by omega)
  apply Yields.ite
  · intro _
    exact yields_step _
  · intro _
    exact yields_pure _

/-- **No buffer makes its opening give up**: every offset fits a machine word. -/
theorem Database.yields_ofBufferChecked (settings : Settings) (buf : Buffer) :
    Yields (Database.ofBufferChecked α settings buf) (Database.ofBuffer α settings buf) := by
  apply (yields_step _).bind
  intro _ _
  apply (yields_step _).bind
  intro header _
  apply (yields_step _).bind
  intro _ hcheck
  -- the header gives the size of the buffer as a word
  obtain ⟨-, htotal, -⟩ := Header.check_eq_ok.1 hcheck
  have hsize := Int32.toInt_lt header.totalLength
  apply (StringTable.yields_readChecked (by omega)).bind
  rintro ⟨strings, stop⟩ hstrings
  obtain ⟨ss, -, hat, -, rfl⟩ := StringTable.read_eq_ok.1 hstrings
  have hle := hat.le_length
  rw [Buffer.length_bytes] at hle
  apply (yields_step _).bind
  intro _ _
  apply (yields_readLayoutChecked (by omega)).bind
  intro layout _
  exact yields_pure _

end Gazetteer
