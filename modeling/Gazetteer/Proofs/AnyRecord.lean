import Gazetteer.Item.Airport
import Gazetteer.Item.Place
import Gazetteer.Proofs.AnyBytes

/-!
# Reading any records

A record that nobody vouches for is read or refused: it may lie outside the buffer, and it may refer
to a string that is not there. Nothing else can be wrong with it. The name that is compared in a
search and the name of the item that is read come from the same bytes.
-/

namespace Gazetteer

variable {buf : Buffer} {table : StringTable} {offset : Nat} {v hash : Int32} {key s : String}

/-! ## Strings -/

/-- The error of a string index outside the table. -/
def Error.LacksString (table : StringTable) (e : Error) : Prop :=
  ∃ v : Int32, (v.toInt < 0 ∨ table.size ≤ v.toInt) ∧ e = .corrupted (.stringIndex v)

theorem Error.LacksString.isDamage (e : Error) (h : e.LacksString table) : e.IsDamage := by
  obtain ⟨v, -, rfl⟩ := h
  exact ⟨_, rfl⟩

namespace StringTable

/-- An index has no string if it is negative or too large. -/
theorem get?_eq_none : table.get? v = none ↔ v.toInt < 0 ∨ table.size ≤ v.toInt := by
  unfold get? size
  by_cases hv : 0 ≤ v.toInt
  · rw [if_pos hv, Array.getElem?_eq_none_iff]
    omega
  · rw [if_neg hv]
    simp only [true_iff]
    omega

theorem resolve_failsWith : FailsWith (Error.LacksString table) (table.resolve v) := by
  unfold resolve
  cases h : table.get? v with
  | some t => exact .ok t
  | none => exact .error ⟨v, get?_eq_none.1 h, rfl⟩

end StringTable

/-! ## Payloads -/

/-- A schema whose payload is read from any bytes: all that can be missing is a string, and the
common fields stay as they are. -/
class ForgivingSchema (α : Type) [Schema α] : Prop where
  base_ofPayload {base : ItemBase} {bytes : List UInt8} {table : StringTable} {x : α}
    (h : Schema.ofPayload base bytes table = .ok x) : Schema.base x = base
  ofPayload_failsWith (base : ItemBase) (bytes : List UInt8) (table : StringTable) :
    FailsWith (Error.LacksString table) (Schema.ofPayload base bytes table : Except Error α)

instance : ForgivingSchema Place where
  base_ofPayload h := by
    obtain ⟨kind, -, h⟩ := bind_eq_ok.1 h
    obtain ⟨description, -, h⟩ := bind_eq_ok.1 h
    cases h
    rfl
  ofPayload_failsWith base bytes table := by
    apply StringTable.resolve_failsWith.bind
    intro kind _
    apply StringTable.resolve_failsWith.bind
    intro description _
    exact .ok _

instance : ForgivingSchema Airport where
  base_ofPayload h := by
    obtain ⟨city, -, h⟩ := bind_eq_ok.1 h
    obtain ⟨country, -, h⟩ := bind_eq_ok.1 h
    cases h
    rfl
  ofPayload_failsWith base bytes table := by
    apply StringTable.resolve_failsWith.bind
    intro city _
    apply StringTable.resolve_failsWith.bind
    intro country _
    exact .ok _

/-! ## Records -/

theorem ItemBase.decode_failsWith {bytes : List UInt8} :
    FailsWith (Error.LacksString table) (ItemBase.decode table bytes) := by
  apply StringTable.resolve_failsWith.bind
  intro name _
  exact .ok _

/-- A part of a slice is a slice. -/
theorem Buffer.slice_of_slice {n k m : Nat} {bytes : List UInt8}
    (h : buf.slice offset n = .ok bytes) (hk : k + m ≤ n) :
    buf.slice (offset + k) m = .ok ((bytes.drop k).take m) := by
  obtain ⟨hat, hlength⟩ := Buffer.slice_eq_ok.1 h
  refine slice_of_hasAt (hat.trans (.of_le (by omega))) ?_
  rw [List.length_take, List.length_drop]
  omega

/-- A word of a slice is the word at its place in the buffer. -/
theorem Buffer.readInt32_of_slice {n k : Nat} {bytes : List UInt8}
    (h : buf.slice offset n = .ok bytes) (hk : k + 4 ≤ n) :
    buf.readInt32 (offset + k) = .ok (int32At bytes k) := by
  rw [readInt32, slice_of_slice h hk]
  rfl

/-- A number of a slice is the number at its place in the buffer. -/
theorem Buffer.readReal64_of_slice {n k : Nat} {bytes : List UInt8}
    (h : buf.slice offset n = .ok bytes) (hk : k + 8 ≤ n) :
    buf.readReal64 (offset + k) = .ok (real64At bytes k) := by
  rw [readReal64, slice_of_slice h hk]
  rfl

namespace Schema

variable {α : Type} [Schema α] [ForgivingSchema α] {x : α}

/-- A record inside the buffer is read, unless it refers to a string that is not there. -/
theorem readItem_failsWith (h : offset + recordSize α ≤ buf.size) :
    FailsWith (Error.LacksString table) (readItem α buf table offset) := by
  rw [readItem, Buffer.slice_eq _ _ _ h, ok_bind]
  apply ItemBase.decode_failsWith.bind
  intro base _
  exact ForgivingSchema.ofPayload_failsWith base _ table

/-- Whatever is wrong with a record is damage. -/
theorem readItem_damage : FailsWith Error.IsDamage (readItem α buf table offset) := by
  apply Buffer.slice_failsWith.bind
  intro bytes _
  apply (ItemBase.decode_failsWith.mono Error.LacksString.isDamage).bind
  intro base _
  exact (ForgivingSchema.ofPayload_failsWith base _ table).mono Error.LacksString.isDamage

/-- The hash and the name of an item that was read stand in its record. -/
theorem readInt32_of_readItem (h : readItem α buf table offset = .ok x) :
    buf.readInt32 offset = .ok (base x).hash ∧ ∃ v,
      buf.readInt32 (offset + nameIndexOffset) = .ok v ∧
        table.resolve v = .ok (itemName x) := by
  obtain ⟨bytes, hbytes, h⟩ := bind_eq_ok.1 h
  obtain ⟨b, hb, h⟩ := bind_eq_ok.1 h
  obtain ⟨name, hname, hb⟩ := bind_eq_ok.1 hb
  cases hb
  rw [itemName, ForgivingSchema.base_ofPayload h]
  have hsize : nameIndexOffset + 4 ≤ recordSize α := Nat.le_add_right _ _
  have hhash := Buffer.readInt32_of_slice (k := 0) hbytes (by omega)
  have hindex := Buffer.readInt32_of_slice (k := nameIndexOffset) hbytes hsize
  exact ⟨hhash, _, hindex, hname⟩

end Schema

/-! ## Comparing names -/

theorem nameMatches_damage : FailsWith Error.IsDamage (nameMatches buf table hash key offset) := by
  apply Buffer.readInt32_failsWith.bind
  intro stored _
  split
  · exact .ok false
  · apply Buffer.readInt32_failsWith.bind
    intro v _
    apply (StringTable.resolve_failsWith.mono Error.LacksString.isDamage).bind
    intro name _
    exact .ok _

/-- A record that matches has the hash and the name. -/
theorem nameMatches_eq_true (h : nameMatches buf table hash key offset = .ok true) :
    buf.readInt32 offset = .ok hash ∧ ∃ v,
      buf.readInt32 (offset + nameIndexOffset) = .ok v ∧ table.resolve v = .ok key := by
  obtain ⟨stored, hstored, h⟩ := bind_eq_ok.1 h
  by_cases hsame : stored ≠ hash
  · rw [if_pos hsame] at h
    cases h
  · rw [if_neg hsame] at h
    obtain ⟨v, hv, h⟩ := bind_eq_ok.1 h
    obtain ⟨name, hname, h⟩ := bind_eq_ok.1 h
    rw [pure_eq, Except.ok.injEq, beq_iff_eq] at h
    exact ⟨not_ne_iff.1 hsame ▸ hstored, v, hv, h ▸ hname⟩

/-- **Both decoders agree**: the item of a record that matches has the hash and the name. -/
theorem Schema.eq_of_nameMatches {α : Type} [Schema α] [ForgivingSchema α] {x : α}
    (hm : nameMatches buf table hash key offset = .ok true)
    (hx : readItem α buf table offset = .ok x) : itemName x = key ∧ (base x).hash = hash := by
  obtain ⟨hhash, v, hv, hname⟩ := nameMatches_eq_true hm
  obtain ⟨hhash', w, hw, hname'⟩ := readInt32_of_readItem hx
  obtain rfl := Except.ok.inj (hv.symm.trans hw)
  exact ⟨Except.ok.inj (hname'.symm.trans hname), Except.ok.inj (hhash'.symm.trans hhash)⟩

end Gazetteer
