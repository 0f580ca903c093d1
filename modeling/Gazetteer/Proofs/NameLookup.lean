import Gazetteer.Proofs.RoundTrip

/-!
# Finding items by name

The name table of an opened file leads to every item whose stored hash is that of its name. A record
is compared by hash first and by name only then, so neither a collision of slots nor one of hashes
is taken for a match, and an item entered under another hash is never found.
-/

namespace Gazetteer

variable {α : Type} [Schema α] {db : Database α} {items : List α} {key : String} {x : α}

/-- What is compared at the record of an item. -/
theorem Database.Holds.nameMatches_eq (h : db.Holds items) (key : String) {i : Nat}
    (hx : items[i]? = some x) :
    nameMatches db.buf db.strings (nameHash key) key (db.layout.itemAt i) =
      .ok (decide ((Schema.base x).hash = nameHash key ∧ Schema.itemName x = key)) := by
  obtain ⟨v, hv, hat⟩ := h.base_at i x hx
  exact nameMatches_of_hasAt hv hat

theorem Database.Holds.searchName_eq (h : db.Holds items) (key : String) :
    db.searchName key = lookupSlots db.buf db.layout.slotsAt db.layout.geometry
      (db.layout.entries items).length (nameHash key)
      (nameMatches db.buf db.strings (nameHash key) key) := by
  rw [Layout.length_entries, ← h.count_eq]
  rfl

/-- **An item that is entered under the hash of its name is found.** -/
theorem Database.Holds.get?_found (h : db.Holds items) (hx : x ∈ items)
    (hkey : Schema.itemName x = key) (hhash : (Schema.base x).hash = nameHash key)
    (hnodup : (items.map Schema.itemName).Nodup) : db.get? key = .ok (some x) := by
  obtain ⟨slots, hent, hslots⟩ := h.slots_at
  obtain ⟨i, hi⟩ := List.mem_iff_getElem?.1 hx
  have hentry : (db.layout.entries items)[i]? = some ⟨nameHash key, db.layout.itemAt i⟩ :=
    Layout.getElem?_entries.2 ⟨x, hi, by rw [hhash]⟩
  have hmatch := h.nameMatches_eq key hi
  rw [decide_eq_true ⟨hhash, hkey⟩] at hmatch
  have hname : (items.map Schema.itemName)[i]? = some key := by
    rw [List.getElem?_map, hi, Option.map_some, hkey]
  have hfirst (m : Nat) (hm : m < i) (e : SlotEntry) (he : (db.layout.entries items)[m]? = some e) :
      nameMatches db.buf db.strings (nameHash key) key e.offset = .ok false := by
    obtain ⟨y, hy, rfl⟩ := Layout.getElem?_entries.1 he
    rw [h.nameMatches_eq key hy, decide_eq_false]
    rintro ⟨-, hkey'⟩
    have hname' : (items.map Schema.itemName)[m]? = some key := by
      rw [List.getElem?_map, hy, Option.map_some, hkey']
    have hlt : m < (items.map Schema.itemName).length :=
      (List.getElem?_eq_some_iff.1 hname').1
    have := (List.getElem?_inj hlt hnodup).1 (hname'.trans hname.symm)
    omega
  have hresult := hent.lookupSlots_found hslots hentry hmatch hfirst
  rw [Database.get?, h.searchName_eq, hresult]
  simp only [ok_bind, h.read_at i x hi, pure_eq]

/-- **A name under whose hash no item is entered is not found.** -/
theorem Database.Holds.get?_absent (h : db.Holds items)
    (hkey : ∀ x ∈ items, Schema.itemName x = key → (Schema.base x).hash ≠ nameHash key) :
    db.get? key = .ok none := by
  obtain ⟨slots, hent, hslots⟩ := h.slots_at
  obtain ⟨hlen, hpos, hlt, -, hprime⟩ := TableGeometry.spec_of_forItems h.geometry
  have hmiss (e : SlotEntry) (he : e ∈ db.layout.entries items) :
      nameMatches db.buf db.strings (nameHash key) key e.offset = .ok false := by
    obtain ⟨i, hi⟩ := List.mem_iff_getElem?.1 he
    obtain ⟨y, hy, rfl⟩ := Layout.getElem?_entries.1 hi
    have hne := hkey y (List.mem_of_getElem? hy)
    rw [h.nameMatches_eq key hy, decide_eq_false fun hm => hne hm.2 hm.1]
  have hresult := hent.lookupSlots_absent hslots (nameHash key) hprime hpos hlt
    (by rw [Layout.length_entries]; omega) hmiss
  rw [Database.get?, h.searchName_eq, hresult]
  rfl

/-- **Lookup by name is complete and exclusive** in a packed file: an item is found just if it was
entered under the hash of its name, as every item is that was made from a name and a position. -/
theorem get?_ofBuffer_pack [LawfulSchema α] {settings reading : Settings} {d : Draft α}
    {date : Int64} {image : Image} (hd : Draft.ofItems settings items = .ok d)
    (hp : d.pack date = .ok image)
    (ho : Database.ofBuffer α reading (.ofList image.bytes) = .ok db) (key : String) :
    (∀ x ∈ items, Schema.itemName x = key → (Schema.base x).hash = nameHash key →
      db.get? key = .ok (some x)) ∧
    ((∀ x ∈ items, Schema.itemName x = key → (Schema.base x).hash ≠ nameHash key) →
      db.get? key = .ok none) ∧
    ∀ x ∈ items, ∀ (_ : Trig) (pos : Position), Schema.base x = .ofPosition key pos →
      db.get? key = .ok (some x) := by
  obtain ⟨hholds, -, -⟩ := holds_of_ofBuffer hd hp ho
  have hnodup := (Draft.inOrder_of_ofItems hd).nodup_names
  rw [Draft.toList_of_ofItems hd] at hnodup
  refine ⟨fun x hx hkey hhash => hholds.get?_found hx hkey hhash hnodup, hholds.get?_absent, ?_⟩
  intro x hx _ pos hbase
  exact hholds.get?_found hx (by rw [Schema.itemName, hbase]; rfl) (by rw [hbase]; rfl) hnodup

section
open Crowd

theorem get?_ofBuffer_pack_crowd :
    (nameHash "costarring" = nameHash "liquid" ∧
      Probe.start (nameHash "liquid") ⟨19, 17⟩ = .ok ⟨13, 6, 19⟩ ∧
      Probe.start (nameHash "Natal") ⟨19, 17⟩ = .ok ⟨13, 13, 19⟩ ∧
      nameHash "zinke" = nameHash "altarage") ∧
    (∃ d image db, Draft.ofItems lenientSettings (bases.map place) = .ok d ∧
      d.pack 7 = .ok image ∧
      Database.ofBuffer Place lenientSettings (.ofList image.bytes) = .ok db ∧
      db.get? "liquid" = .ok (some (place liquid)) ∧
      db.get? "costarring" = .ok (some (place costarring)) ∧
      db.get? "Natal" = .ok (some (place natal)) ∧
      db.get? "altarage" = .ok (some (place altarage)) ∧
      db.get? "zinke" = .ok none ∧ db.get? "Quito" = .ok none) ∧
    ∃ d image db, Draft.ofItems lenientSettings (bases.map airport) = .ok d ∧
      d.pack 7 = .ok image ∧
      Database.ofBuffer Airport lenientSettings (.ofList image.bytes) = .ok db ∧
      db.get? "liquid" = .ok (some (airport liquid)) ∧
      db.get? "costarring" = .ok (some (airport costarring)) ∧
      db.get? "Natal" = .ok (some (airport natal)) ∧
      db.get? "altarage" = .ok (some (airport altarage)) ∧
      db.get? "zinke" = .ok none ∧ db.get? "Quito" = .ok none := by
  have hcheck : lenientSettings.check = .ok () := by decide
  have hcollisions : nameHash "costarring" = nameHash "liquid" ∧
      Probe.start (nameHash "liquid") ⟨19, 17⟩ = .ok ⟨13, 6, 19⟩ ∧
      Probe.start (nameHash "Natal") ⟨19, 17⟩ = .ok ⟨13, 13, 19⟩ ∧
      nameHash "zinke" = nameHash "altarage" := by decide +kernel
  have hzinke : ∀ b ∈ bases, b.name = "zinke" → b.hash ≠ nameHash "zinke" := by decide +kernel
  have hquito : ∀ b ∈ bases, b.name = "Quito" → b.hash ≠ nameHash "Quito" := by decide +kernel
  have hone {β : Type} [Schema β] [LawfulSchema β] {make : ItemBase → β} {d : Draft β}
      {image : Image} {db : Database β} (hmake : ∀ b, Schema.base (make b) = b)
      (hd : Draft.ofItems lenientSettings (bases.map make) = .ok d) (hp : d.pack 7 = .ok image)
      (ho : Database.ofBuffer β lenientSettings (.ofList image.bytes) = .ok db) :
      db.get? "liquid" = .ok (some (make liquid)) ∧
      db.get? "costarring" = .ok (some (make costarring)) ∧
      db.get? "Natal" = .ok (some (make natal)) ∧
      db.get? "altarage" = .ok (some (make altarage)) ∧
      db.get? "zinke" = .ok none ∧ db.get? "Quito" = .ok none := by
    have hget := get?_ofBuffer_pack hd hp ho
    have hfound (b : ItemBase) (hb : b ∈ bases) (hhash : b.hash = nameHash b.name) :
        db.get? b.name = .ok (some (make b)) :=
      (hget b.name).1 (make b) (List.mem_map_of_mem hb) (by rw [Schema.itemName, hmake])
        (by rw [hmake, hhash])
    have habsent (key : String) (hkey : ∀ b ∈ bases, b.name = key → b.hash ≠ nameHash key) :
        db.get? key = .ok none := by
      refine (hget key).2.1 (List.forall_mem_map.2 fun b hb => ?_)
      rw [Schema.itemName, hmake]
      exact hkey b hb
    exact ⟨hfound liquid (by simp [bases]) rfl, hfound costarring (by simp [bases]) rfl,
      hfound natal (by simp [bases]) rfl, hfound altarage (by simp [bases]) rfl,
      habsent "zinke" hzinke, habsent "Quito" hquito⟩
  obtain ⟨dp, ip, hdp, hpp⟩ := exists_pack_place
  obtain ⟨da, ia, hda, hpa⟩ := exists_pack_airport
  obtain ⟨dbp, hop⟩ := exists_ofBuffer hdp hpp hcheck
  obtain ⟨dba, hoa⟩ := exists_ofBuffer hda hpa hcheck
  exact ⟨hcollisions, ⟨dp, ip, dbp, hdp, hpp, hop, hone (fun _ => rfl) hdp hpp hop⟩,
    ⟨da, ia, dba, hda, hpa, hoa, hone (fun _ => rfl) hda hpa hoa⟩⟩

end

end Gazetteer
