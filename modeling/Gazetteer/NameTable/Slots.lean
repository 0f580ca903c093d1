import Gazetteer.NameTable.Geometry

/-!
# Slots of the name table

Each record is entered under the hash of its name in the first free slot of the probe. A search
follows the same probe until it meets the record or a free slot; a search that has seen more records
than the file holds proves the table damaged.

| here | operation |
| --- | --- |
| `buildSlots` | `build_slots` |
| `encodeSlots` | `write_slots` |
| `lookupSlots` | `lookup` |
-/

namespace Gazetteer

/-- A record to be entered: the hash of its name, and its offset in the file. -/
structure SlotEntry where
  hash : Int32
  offset : Nat
deriving DecidableEq, Inhabited, Repr

/-- The first free slot on a probe, among `fuel` of them. -/
def freeSlot? (slots : Array Int32) : (fuel : Nat) → Probe → Option Nat
  | 0, _ => none
  | fuel + 1, p =>
    if slots[p.slot]? = some emptyOffset then some p.slot else freeSlot? slots fuel p.next

/-- Enters one record. -/
def enterSlot (g : TableGeometry) (slots : Array Int32) (e : SlotEntry) :
    Except Error (Array Int32) := do
  let offset ← toInt32 e.offset "item offset"
  let probe ← Probe.start e.hash g
  match freeSlot? slots g.length probe with
  | some i => return slots.setIfInBounds i offset
  | none => throw (.tooLarge .tableFull)

/-- The slots after entering records in order into an empty table. -/
def buildSlots (g : TableGeometry) (entries : List SlotEntry) : Except Error (Array Int32) :=
  entries.foldlM (enterSlot g) (Array.replicate g.length emptyOffset)

/-- A table as it is stored: its geometry, then its slots. -/
def encodeSlots (g : TableGeometry) (slots : Array Int32) : Except Error (List UInt8) := do
  let geometry ← g.encode
  return geometry ++ slots.toList.flatMap int32Bytes

/-! ## Search -/

/-- What a search found, and the offsets it asked about on the way, in order. -/
structure SlotSearch where
  result : Except Error (Option Nat)
  asked : List Nat

/-- Follows a probe for at most `fuel` slots. `isMatch` tells whether the record at an offset is the
one sought; `exhausted` is the error when no slot is left. -/
def searchSlots (buf : Buffer) (slotsAt : Nat) (isMatch : Nat → Except Error Bool)
    (exhausted : Error) : (fuel : Nat) → Probe → SlotSearch
  | 0, _ => ⟨.error exhausted, []⟩
  | fuel + 1, p =>
    match buf.readOffset (slotsAt + 4 * p.slot) with
    | .error e => ⟨.error e, []⟩
    | .ok none => ⟨.ok none, []⟩
    | .ok (some offset) =>
      match isMatch offset with
      | .error e => ⟨.error e, [offset]⟩
      | .ok true => ⟨.ok (some offset), [offset]⟩
      | .ok false =>
        let rest := searchSlots buf slotsAt isMatch exhausted fuel p.next
        ⟨rest.result, offset :: rest.asked⟩

/-- Looks for a record among `items` of them, in the slots at `slotsAt`. A table that is in order
has a free slot among any `items + 1` slots of a probe. -/
def lookupSlots (buf : Buffer) (slotsAt : Nat) (g : TableGeometry) (items : Nat) (hash : Int32)
    (isMatch : Nat → Except Error Bool) : SlotSearch :=
  match Probe.start hash g with
  | .error e => ⟨.error e, []⟩
  | .ok p =>
    searchSlots buf slotsAt isMatch (.corrupted (.unendingProbe hash (items + 1))) (items + 1) p

end Gazetteer
