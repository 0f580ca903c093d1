import Mathlib.Data.Nat.Find
import Gazetteer.Proofs.Entering

/-!
# Searching the name table

A search passes the records that are not sought and stops at the one that is, or at a free slot. In
a table that was filled it does so before it has seen more records than there are.
-/

namespace Gazetteer

section
variable {buf : Buffer} {slotsAt : Nat} {slots : Array Int32} {i n : Nat}

/-- The slots stand in a buffer. -/
def HasSlots (buf : Buffer) (slotsAt : Nat) (slots : Array Int32) : Prop :=
  HasAt buf.bytes slotsAt (slots.toList.flatMap int32Bytes)

theorem HasSlots.hasAt (h : HasSlots buf slotsAt slots) {v : Int32} (hv : slots[i]? = some v) :
    HasAt buf.bytes (slotsAt + 4 * i) (int32Bytes v) := by
  rw [HasSlots, List.flatMap_def] at h
  rw [Nat.mul_comm]
  refine h.flatten (by simp) ?_
  rw [List.getElem?_map, Array.getElem?_toList, hv]
  rfl

theorem HasSlots.readOffset_free (h : HasSlots buf slotsAt slots)
    (hv : slots[i]? = some emptyOffset) : buf.readOffset (slotsAt + 4 * i) = .ok none :=
  Buffer.readOffset_of_hasAt_empty (h.hasAt hv)

theorem HasSlots.readOffset (h : HasSlots buf slotsAt slots) (hn : n < 0x80000000)
    (hv : slots[i]? = some (.ofNat n)) : buf.readOffset (slotsAt + 4 * i) = .ok (some n) :=
  Buffer.readOffset_of_hasAt hn (h.hasAt hv)

end

/-! ## The walk along a probe -/

section
variable {buf : Buffer} {slotsAt : Nat} {isMatch : Nat → Except Error Bool} {exhausted : Error}
  {fuel j : Nat} {p : Probe}

/-- What ends a search at a slot: the record that is sought, or no record. -/
def StopsAt (buf : Buffer) (isMatch : Nat → Except Error Bool) (place : Nat) (r : Option Nat) :
    Prop :=
  (buf.readOffset place = .ok none ∧ r = none) ∨
    ∃ o, buf.readOffset place = .ok (some o) ∧ isMatch o = .ok true ∧ r = some o

/-- **A search that passes some slots ends where it stops.** -/
theorem searchSlots_result {r : Option Nat} (hp : p.slot < p.length) (hj : j < fuel)
    (hpass : ∀ k < j, ∃ o, buf.readOffset (slotsAt + 4 * p.slotAt k) = .ok (some o) ∧
      isMatch o = .ok false)
    (hstop : StopsAt buf isMatch (slotsAt + 4 * p.slotAt j) r) :
    (searchSlots buf slotsAt isMatch exhausted fuel p).result = .ok r := by
  induction j generalizing p fuel with
  | zero =>
    obtain ⟨fuel, rfl⟩ := Nat.exists_eq_succ_of_ne_zero (Nat.ne_of_gt hj)
    rw [Probe.slotAt_zero hp] at hstop
    rcases hstop with ⟨hr, rfl⟩ | ⟨o, ho, hm, rfl⟩
    · simp [searchSlots, hr]
    · simp [searchSlots, ho, hm]
  | succ j ih =>
    obtain ⟨fuel, rfl⟩ := Nat.exists_eq_succ_of_ne_zero (by omega : fuel ≠ 0)
    obtain ⟨o, ho, hm⟩ := hpass 0 (by omega)
    rw [Probe.slotAt_zero hp] at ho
    rw [searchSlots, ho]
    simp only [hm]
    refine ih (Nat.mod_lt _ (by omega)) (by omega) (fun k hk => ?_) ?_
    · rw [Probe.slotAt_next]
      exact hpass (k + 1) (by omega)
    · rwa [Probe.slotAt_next]

end

/-! ## Lookups in a table that was filled -/

variable {g : TableGeometry} {es : List SlotEntry} {slots : Array Int32} {e : SlotEntry}
  {buf : Buffer} {slotsAt : Nat} {isMatch : Nat → Except Error Bool}

namespace Entered

/-- **A lookup finds the first entry on its probe that matches.** -/
theorem lookupSlots_found (h : Entered g es slots) (hs : HasSlots buf slotsAt slots) {n : Nat}
    (he : es[n]? = some e) (hm : isMatch e.offset = .ok true)
    (hfirst : ∀ m < n, ∀ e', es[m]? = some e' → isMatch e'.offset = .ok false) :
    (lookupSlots buf slotsAt g es.length e.hash isMatch).result = .ok (some e.offset) := by
  obtain ⟨p, j, hp, hj, hat, hpath⟩ := h.placed n e he
  obtain ⟨hl, hslot, -⟩ := Probe.bounds_of_start hp
  have hmem := List.mem_of_getElem? he
  have hlt : j < es.length := by
    refine h.place_lt hj (by omega) fun k hk => ?_
    rcases Nat.lt_or_eq_of_le hk with hk | rfl
    · obtain ⟨m, -, e', he', hat'⟩ := hpath k hk
      exact ⟨e', List.mem_of_getElem? he', hat'⟩
    · exact ⟨e, hmem, hat⟩
  rw [lookupSlots, hp]
  refine searchSlots_result hslot (by omega : j < es.length + 1) (fun k hk => ?_) (Or.inr ?_)
  · obtain ⟨m, hm, e', he', hat'⟩ := hpath k hk
    exact ⟨e'.offset, hs.readOffset (h.offset_lt e' (List.mem_of_getElem? he')) hat',
      hfirst m hm e' he'⟩
  · exact ⟨e.offset, hs.readOffset (h.offset_lt e hmem) hat, hm, rfl⟩

/-- **A lookup that no entry matches ends at a free slot.** -/
theorem lookupSlots_absent (h : Entered g es slots) (hs : HasSlots buf slotsAt slots) (hash : Int32)
    (hp : g.length.Prime) (hpos : 0 < g.rehash) (hr : g.rehash < g.length)
    (hlen : es.length < g.length) (hm : ∀ e ∈ es, isMatch e.offset = .ok false) :
    (lookupSlots buf slotsAt g es.length hash isMatch).result = .ok none := by
  obtain ⟨p, hstart⟩ : ∃ p, Probe.start hash g = .ok p :=
    ⟨_, Probe.start_eq_ok.2 ⟨⟨by omega, by omega⟩, rfl⟩⟩
  obtain ⟨hl, hslot, -⟩ := Probe.bounds_of_start hstart
  have hperiod := TableGeometry.period_of_start hp hr hstart
  have hfree := h.exists_free (m := es.length + 1) hl (by omega) (by omega) (by omega)
  -- The walk goes up to the first of the free slots.
  have hbefore := fun k (hk : k < Nat.find hfree) => Nat.find_min hfree hk
  obtain ⟨hj, hj'⟩ := Nat.find_spec hfree
  rw [lookupSlots, hstart]
  refine searchSlots_result hslot hj (fun k hk => ?_) (Or.inl ⟨hs.readOffset_free hj', rfl⟩)
  have hk' : p.slotAt k < slots.size := h.size_eq ▸ hl ▸ Probe.slotAt_lt (by omega) k
  have hv := Array.getElem?_eq_getElem hk'
  obtain hempty | ⟨e, he, hv'⟩ := h.word_cases hv
  · exact absurd ⟨by omega, hempty ▸ hv⟩ (hbefore k hk)
  · exact ⟨e.offset, hs.readOffset (h.offset_lt e he) (hv' ▸ hv), hm e he⟩

end Entered
end Gazetteer
