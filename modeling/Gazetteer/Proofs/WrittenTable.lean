import Gazetteer.Proofs.Lookup
import Gazetteer.Proofs.Parsing

/-!
# Filled tables through a file

A table that was filled and written is searched from its bytes. Writer and reader follow the same
probes, so a test of records that accepts nothing but records of the hash is answered with the
earliest entry that it accepts. This needs no prime length: an entry stands on its probe behind
earlier entries only, each in a slot of its own, and the reader follows a probe for longer than
that. Where the length is a prime and more than the number of entries, there is always a free slot:
every entry finds room, and a search that nothing answers ends.
-/

namespace Gazetteer

variable {g : TableGeometry} {es : List SlotEntry} {slots : Array Int32} {e e' : SlotEntry}
  {buf : Buffer} {offset slotsAt : Nat} {hash : Int32} {accepts : Nat → Bool}

/-! ## The words of a table -/

/-- The offsets in the slots that are not free. -/
def storedOffsets (slots : Array Int32) : List Int := (occupied slots).map Int32.toInt

/-- **A filled table stores the offsets of its entries**, each as often as it was entered. -/
theorem Entered.storedOffsets_perm (h : Entered g es slots) :
    (storedOffsets slots).Perm (es.map fun e => (e.offset : Int)) := by
  have hwords : (es.map fun e => Int32.ofNat e.offset).map Int32.toInt =
      es.map fun e => (e.offset : Int) := by
    rw [List.map_map]
    exact List.map_congr_left fun e he => toInt_ofNat_of_lt (h.offset_lt e he)
  rw [← hwords]
  exact h.occupied_perm.map _

theorem Entered.nodup_storedOffsets (h : Entered g es slots)
    (hd : (es.map SlotEntry.offset).Nodup) : (storedOffsets slots).Nodup := by
  rw [h.storedOffsets_perm.nodup_iff]
  have hcast := hd.map (f := fun n : Nat => (n : Int)) fun _ _ hn => Int.ofNat.inj hn
  simpa [Function.comp_def] using hcast

/-! ## Tables as they are written -/

theorem encodeSlots_eq (hl : g.length < 0x80000000) (hr : g.rehash < 0x80000000) :
    encodeSlots g slots = .ok (g.bytes ++ slots.toList.flatMap int32Bytes) := by
  have hgeometry : g.encode = .ok g.bytes :=
    bind_eq_ok.2 ⟨_, toInt32_eq_ok.2 ⟨hl, rfl⟩, bind_eq_ok.2 ⟨_, toInt32_eq_ok.2 ⟨hr, rfl⟩, rfl⟩⟩
  rw [encodeSlots, hgeometry]
  rfl

/-- Behind the geometry of a written table stand its slots. -/
theorem hasSlots_of_hasAt
    (h : HasAt buf.bytes offset (g.bytes ++ slots.toList.flatMap int32Bytes)) :
    HasSlots buf (offset + 8) slots := h.after _ (by simp [TableGeometry.bytes])

/-! ## Tests of records -/

/-- The entries of a hash that a test accepts. -/
def answers (hash : Int32) (accepts : Nat → Bool) (e : SlotEntry) : Bool :=
  decide (e.hash = hash) && accepts e.offset

/-- Where offsets are distinct, a test that accepts only entries of the hash accepts no other entry,
so what it accepts is what answers. -/
theorem accepts_eq_answers (hd : (es.map SlotEntry.offset).Nodup)
    (honly : ∀ o, accepts o = true → ∃ e ∈ es, e.hash = hash ∧ e.offset = o) (he : e ∈ es) :
    accepts e.offset = answers hash accepts e := by
  cases ha : accepts e.offset with
  | false => simp [answers, ha]
  | true =>
    obtain ⟨e', he', hhash, hoffset⟩ := honly e.offset ha
    obtain rfl := List.inj_on_of_nodup_map hd he' he hoffset
    simp [answers, ha, hhash]

/-- **A lookup finds the earliest entry of the hash that is accepted.** -/
theorem Entered.lookupSlots_earliest (h : Entered g es slots) (hs : HasSlots buf slotsAt slots)
    (hd : (es.map SlotEntry.offset).Nodup)
    (honly : ∀ o, accepts o = true → ∃ e ∈ es, e.hash = hash ∧ e.offset = o)
    (he : es.find? (answers hash accepts) = some e) :
    (lookupSlots buf slotsAt g es.length hash fun o => .ok (accepts o)).result =
      .ok (some e.offset) := by
  obtain ⟨hanswers, n, hn, rfl, hfirst⟩ := List.find?_eq_some_iff_getElem.1 he
  have hhash : es[n].hash = hash := by simp_all [answers]
  rw [← hhash]
  refine h.lookupSlots_found hs (List.getElem?_eq_getElem hn) ?_ fun m hm e' he' => ?_
  · rw [accepts_eq_answers hd honly (List.getElem_mem hn), hanswers]
  · obtain ⟨hlt, rfl⟩ := List.getElem?_eq_some_iff.1 he'
    have hnot := hfirst m hm
    rw [accepts_eq_answers hd honly (List.getElem_mem hlt)]
    simpa using hnot

/-! ## Writer and reader -/

/-- **Writer and reader of a table agree.** Whatever the length and the rehash, a table that could
be filled holds the offsets of its entries, each once, its geometry is read back, and a search of
its bytes finds the earliest entry of the hash that is accepted. A table of the geometry for at
least as many entries can always be filled, and a search that accepts no entry of it finds none. -/
theorem search_of_buildSlots (hd : (es.map SlotEntry.offset).Nodup)
    (ho : ∀ e ∈ es, e.offset < 0x80000000) (hpos : 1 ≤ g.rehash) (hlt : g.rehash < g.length)
    (hlen : g.length < 0x80000000) :
    (∀ slots, buildSlots g es = .ok slots →
      ((storedOffsets slots).Perm (es.map fun e => (e.offset : Int)) ∧
        (storedOffsets slots).Nodup) ∧
      ∃ bytes, encodeSlots g slots = .ok bytes ∧
        ∀ (buf : Buffer) (offset : Nat), HasAt buf.bytes offset bytes →
          TableGeometry.read buf offset = .ok g ∧
          ∀ (hash : Int32) (accepts : Nat → Bool),
            (∀ o, accepts o = true → ∃ e ∈ es, e.hash = hash ∧ e.offset = o) →
            ∀ e, es.find? (answers hash accepts) = some e →
              (lookupSlots buf (offset + 8) g es.length hash fun o => .ok (accepts o)).result =
                .ok (some e.offset)) ∧
    ∀ m, es.length ≤ m → TableGeometry.forItems m = .ok g →
      ∃ slots, buildSlots g es = .ok slots ∧ ∃ bytes, encodeSlots g slots = .ok bytes ∧
        ∀ (buf : Buffer) (offset : Nat), HasAt buf.bytes offset bytes →
          ∀ (hash : Int32) (accepts : Nat → Bool), (∀ e ∈ es, accepts e.offset = false) →
            (lookupSlots buf (offset + 8) g es.length hash fun o => .ok (accepts o)).result =
              .ok none := by
  have hencode (slots : Array Int32) :
      encodeSlots g slots = .ok (g.bytes ++ slots.toList.flatMap int32Bytes) :=
    encodeSlots_eq hlen (by omega)
  constructor
  · intro slots hslots
    have hent := entered_of_buildSlots hslots
    refine ⟨⟨hent.storedOffsets_perm, hent.nodup_storedOffsets hd⟩, _, hencode slots, ?_⟩
    intro buf offset hat
    refine ⟨TableGeometry.read_eq_ok.2 ⟨hat.left, hpos, hlt, hlen⟩, ?_⟩
    intro hash accepts honly e he
    exact hent.lookupSlots_earliest (hasSlots_of_hasAt hat) hd honly he
  · intro m hm hg
    obtain ⟨hroom, -, -, -, hprime⟩ := TableGeometry.spec_of_forItems hg
    obtain ⟨slots, hslots⟩ := exists_buildSlots hprime hpos hlt (by omega) ho
    refine ⟨slots, hslots, _, hencode slots, ?_⟩
    intro buf offset hat hash accepts hnone
    refine (entered_of_buildSlots hslots).lookupSlots_absent (hasSlots_of_hasAt hat) hash hprime
      hpos hlt (by omega) fun e he => ?_
    rw [hnone e he]

/-- Three records of one hash and one of another. -/
def crowdedEntries : List SlotEntry := [⟨7, 100⟩, ⟨7, 200⟩, ⟨7, 300⟩, ⟨99, 400⟩]

theorem search_of_buildSlots_crowded :
    (crowdedEntries.map SlotEntry.offset).Nodup ∧
    ∃ slots, buildSlots ⟨19, 17⟩ crowdedEntries = .ok slots ∧
      (storedOffsets slots).Perm [100, 200, 300, 400] ∧
      ∃ bytes, encodeSlots ⟨19, 17⟩ slots = .ok bytes ∧
        (lookupSlots (.ofList bytes) 8 ⟨19, 17⟩ 4 7
          fun o => .ok (decide (o = 200 ∨ o = 300))).result = .ok (some 200) ∧
        (lookupSlots (.ofList bytes) 8 ⟨19, 17⟩ 4 7 fun _ => .ok false).result = .ok none := by
  have hd : (crowdedEntries.map SlotEntry.offset).Nodup := by decide
  obtain ⟨hfilled, hroom⟩ := search_of_buildSlots (g := ⟨19, 17⟩) hd (by decide) (by decide)
    (by decide) (by decide)
  obtain ⟨slots, hslots, bytes, hbytes, hnone⟩ := hroom 4 (by decide) rfl
  obtain ⟨⟨hperm, -⟩, bytes', hbytes', hfound⟩ := hfilled slots hslots
  obtain rfl := Except.ok.inj (hbytes.symm.trans hbytes')
  refine ⟨hd, slots, hslots, hperm, bytes, hbytes, ?_, ?_⟩
  · refine (hfound (.ofList bytes) 0 (hasAt_self bytes)).2 7 _ (fun o ho => ?_) ⟨7, 200⟩ rfl
    rcases of_decide_eq_true ho with rfl | rfl
    · exact ⟨⟨7, 200⟩, by decide, rfl, rfl⟩
    · exact ⟨⟨7, 300⟩, by decide, rfl, rfl⟩
  · exact hnone (.ofList bytes) 0 (hasAt_self bytes) 7 _ (by simp)

end Gazetteer
