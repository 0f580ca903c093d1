import Gazetteer.Database.Query
import Gazetteer.Proofs.Drafting
import Gazetteer.Proofs.Lookup
import Gazetteer.Proofs.Parsing
import Gazetteer.Proofs.Records
import Gazetteer.Proofs.Splitting

/-!
# Opening a packed file

The places that packing wrote at are those that opening computes, section after section. So a file
that was packed is opened again, and the database holds the items of the draft: `Database.Holds`
says what its file has for each of them.
-/

namespace Gazetteer

variable {α : Type} [Schema α] {d : Draft α} {date : Int64} {image : Image} {s : Sections}

/-! ## Sizes of the sections -/

theorem Layout.itemAt_le_stop (l : Layout) {i : Nat} (h : i ≤ l.count) : l.itemAt i ≤ l.stop := by
  have hmul := Nat.mul_le_mul_right l.itemSize h
  unfold stop nodesAt mapAt itemAt
  omega

theorem Layout.nodeAt_le_stop (l : Layout) {i : Nat} (h : i ≤ l.count) :
    l.nodesAt + i * nodeSize ≤ l.stop := by
  have hmul := Nat.mul_le_mul_right nodeSize h
  unfold stop
  omega

theorem length_encodeNode {plan : TreePlan} {n : TreeNode} {bytes : List UInt8}
    (h : plan.encodeNode n = .ok bytes) : bytes.length = nodeSize := by
  obtain ⟨_, -, h⟩ := bind_eq_ok.1 h
  obtain ⟨_, -, h⟩ := bind_eq_ok.1 h
  obtain ⟨_, -, h⟩ := bind_eq_ok.1 h
  cases h
  simp [nodeSize]

theorem Draft.length_points (h : d.InOrder) : d.points.toList.length = d.toList.length := by
  rw [h.points_eq, List.length_map]

/-- The sections end where the layout does, if each has its size. -/
theorem Sections.length_bytes {l : Layout} (hi : l.itemsAt = headerSize + s.strings.length + 8)
    (hr : s.records.flatten.length = l.count * l.itemSize)
    (hs : (s.slots.toList.flatMap int32Bytes).length = 4 * l.geometry.length)
    (hn : s.nodes.flatten.length = l.count * nodeSize) :
    headerSize + (s.bytes l).length = l.stop := by
  rw [Layout.stop, Layout.nodesAt_eq, Layout.slotsAt, Layout.mapAt, Layout.itemAt, hi]
  simp only [Sections.bytes, List.length_append, length_int32Bytes, hr, hs, hn]
  omega

theorem length_slots {g : TableGeometry} {es : List SlotEntry} {slots : Array Int32}
    (h : buildSlots g es = .ok slots) :
    (slots.toList.flatMap int32Bytes).length = 4 * g.length := by
  rw [List.flatMap_def, length_flatten_of_forall 4 (by simp)]
  simp [(entered_of_buildSlots h).size_eq, Nat.mul_comm]

namespace Draft

theorem length_records {records : List (List UInt8)}
    (h : d.toList.mapM (Schema.encodeItem d.pool) = .ok records) :
    records.flatten.length = d.toList.length * Schema.recordSize α := by
  rw [length_flatten_of_forall (Schema.recordSize α), length_of_mapM_eq_ok h]
  intro bytes hb
  obtain ⟨x, -, hx⟩ := mem_of_mapM_eq_ok h hb
  exact (Schema.encodeItem_eq_ok hx).1

theorem length_nodes {plan : TreePlan} {nodes : List (List UInt8)} (ho : d.InOrder)
    (h : d.tree.nodes.mapM plan.encodeNode = .ok nodes) :
    nodes.flatten.length = d.toList.length * nodeSize := by
  rw [length_flatten_of_forall nodeSize, length_of_mapM_eq_ok h]
  · rw [Tree.nodes, Tree.length_layout, tree, Tree.size_ofPoints, length_points ho]
  · intro bytes hb
    obtain ⟨n, -, hn⟩ := mem_of_mapM_eq_ok h hb
    exact length_encodeNode hn

end Draft

/-! ## Where the sections stand -/

/-- The places of the sections in a file. -/
structure Sections.PlacedIn (s : Sections) (l : Layout) (bytes : List UInt8) : Prop where
  strings : HasAt bytes headerSize s.strings
  count : HasAt bytes (headerSize + s.strings.length) (int32Bytes (.ofNat l.count))
  itemSize : HasAt bytes (headerSize + s.strings.length + 4) (int32Bytes (.ofNat l.itemSize))
  records : HasAt bytes l.itemsAt s.records.flatten
  length : HasAt bytes l.mapAt (int32Bytes (.ofNat l.geometry.length))
  rehash : HasAt bytes (l.mapAt + 4) (int32Bytes (.ofNat l.geometry.rehash))
  slots : HasAt bytes l.slotsAt (s.slots.toList.flatMap int32Bytes)
  nodes : HasAt bytes l.nodesAt s.nodes.flatten

namespace Draft.Packed

theorem length_records_eq (h : d.Packed date image s) :
    s.records.flatten.length = image.layout.count * image.layout.itemSize := by
  rw [Draft.length_records h.records, h.count_eq, h.itemSize_eq]

/-- **The sections stand where the layout says.** -/
theorem placedIn (h : d.Packed date image s) : s.PlacedIn image.layout image.bytes := by
  have h0 : HasAt image.bytes 0
      ((Header.ofBody date (s.bytes image.layout)).encode ++ s.bytes image.layout) := by
    rw [h.bytes_eq]
    exact hasAt_self _
  have hs := h0.after headerSize (by rw [Header.length_encode, Nat.zero_add])
  have hc := hs.after (headerSize + s.strings.length) rfl
  have hi := hc.after (headerSize + s.strings.length + 4) (by rw [length_int32Bytes])
  have hr := hi.after image.layout.itemsAt (by rw [length_int32Bytes, h.itemsAt_eq])
  have hl := hr.after image.layout.mapAt (by rw [h.length_records_eq]; rfl)
  have hh := hl.after (image.layout.mapAt + 4) (by rw [length_int32Bytes])
  have ht := hh.after image.layout.slotsAt (by rw [length_int32Bytes]; rfl)
  have hn := ht.after image.layout.nodesAt (by rw [length_slots h.slots, Layout.nodesAt_eq])
  exact ⟨hs.left, hc.left, hi.left, hr.left, hl.left, hh.left, ht.left, hn⟩

/-- A packed file ends where its layout says. -/
theorem stop_eq (h : d.Packed date image s) (ho : d.InOrder) :
    image.layout.stop = image.bytes.length := by
  rw [h.bytes_eq, List.length_append, Header.length_encode]
  refine (Sections.length_bytes h.itemsAt_eq h.length_records_eq (length_slots h.slots) ?_).symm
  rw [Draft.length_nodes ho h.nodes, h.count_eq]

end Draft.Packed

/-! ## What opening computes -/

theorem checkSchema_eq_ok {strings : StringTable} (h : strings.get? 0 = some (Schema.schemaName α)) :
    checkSchema α strings = .ok () := by
  simp [checkSchema, h]

/-- A file of another schema is refused. -/
theorem checkSchema_eq_error {β : Type} [Schema β] {strings : StringTable}
    (h : strings.get? 0 = some (Schema.schemaName α))
    (hne : Schema.schemaName β ≠ Schema.schemaName α) :
    checkSchema β strings = .error (.schemaMismatch (Schema.schemaName β) (Schema.schemaName α)) := by
  simp [checkSchema, h, hne.symm]

theorem Header.check_ofBody {buf : Buffer} {body : List UInt8} (verify : Bool)
    (hb : buf.bytes = (ofBody date body).encode ++ body)
    (hl : headerSize + body.length < 0x80000000) :
    (ofBody date body).check verify buf = .ok () := by
  refine check_eq_ok.2 ⟨rfl, ?_, fun _ => ?_⟩
  · rw [← Buffer.length_bytes, hb, List.length_append, length_encode]
    exact toInt_ofNat_of_lt hl
  · rw [hb, contentCrc_encode_append]
    rfl

/-- The database of a packed file. -/
def Draft.database (d : Draft α) (date : Int64) (image : Image) (s : Sections)
    (reading : Settings) : Database α :=
  ⟨.ofList image.bytes, .ofBody date (s.bytes image.layout), ⟨d.pool.strings⟩, image.layout,
    ⟨reading.longRangeThreshold⟩⟩

namespace Draft

theorem indexed_pool (d : Draft α) : d.pool.Indexed :=
  StringPool.indexed_empty.insertMany _

/-- The name of the schema is the first string. -/
theorem pool_head (d : Draft α) : d.pool.toList[0]? = some (Schema.schemaName α) := by
  have hone := StringPool.indexed_empty.toList_insert (Schema.schemaName α)
  have hempty : (∅ : StringPool).toList = [] := rfl
  rw [hempty, if_neg List.not_mem_nil, List.nil_append] at hone
  obtain ⟨rest, hrest⟩ := (StringPool.indexed_empty.insert (Schema.schemaName α)).prefix_insertMany
    (d.toList.flatMap fun i => Schema.itemName i :: Schema.strings i)
  have hpool : d.pool.toList = [Schema.schemaName α] ++ rest := by
    rw [← hone, hrest]
    rfl
  rw [hpool]
  rfl

theorem readLayout_of_packed (h : d.Packed date image s) (ho : d.InOrder) :
    readLayout α (.ofList image.bytes) (headerSize + s.strings.length) = .ok image.layout := by
  have hp := h.placedIn
  obtain ⟨-, hpos, hlt, -⟩ := TableGeometry.spec_of_forItems h.geometry
  have hcounts : HasAt image.bytes (headerSize + s.strings.length)
      (int32Bytes (.ofNat image.layout.count) ++ int32Bytes (.ofNat image.layout.itemSize)) := by
    apply hp.count.append
    rw [length_int32Bytes]
    exact hp.itemSize
  have hgeometry : HasAt image.bytes image.layout.mapAt image.layout.geometry.bytes := by
    apply hp.length.append
    rw [length_int32Bytes]
    exact hp.rehash
  exact readLayout_eq_ok.2 ⟨h.itemsAt_eq, h.itemSize_eq, h.count_lt, h.itemSize_lt, hcounts,
    TableGeometry.read_eq_ok.2 ⟨hgeometry, hpos, hlt, h.length_lt⟩, h.stop_eq ho⟩

/-- What every opening of a packed file reads first, whatever schema it expects. -/
theorem read_front_of_packed (h : d.Packed date image s) (verify : Bool) :
    Header.read (.ofList image.bytes) = .ok (.ofBody date (s.bytes image.layout)) ∧
      (Header.ofBody date (s.bytes image.layout)).check verify (.ofList image.bytes) = .ok () ∧
      StringTable.read (.ofList image.bytes) headerSize =
        .ok (⟨d.pool.strings⟩, headerSize + s.strings.length) ∧
      (⟨d.pool.strings⟩ : StringTable).get? 0 = some (Schema.schemaName α) := by
  refine ⟨Header.read_eq_ok.2 ?_, Header.check_ofBody verify h.bytes_eq h.bytes_lt, ?_, ?_⟩
  · rw [Buffer.bytes_ofList, h.bytes_eq]
    exact (hasAt_self _).left
  · refine StringTable.read_encodeStrings h.strings ?_
    exact h.placedIn.strings
  · have hhead : d.pool.strings[0]? = some (Schema.schemaName α) := by
      rw [← Array.getElem?_toList]
      exact d.pool_head
    simpa [StringTable.get?] using hhead

/-- **A packed file is opened again**, as the database of its draft. -/
theorem ofBuffer_of_packed {reading : Settings} (h : d.Packed date image s) (ho : d.InOrder)
    (hr : reading.check = .ok ()) :
    Database.ofBuffer α reading (.ofList image.bytes) = .ok (d.database date image s reading) := by
  obtain ⟨hread, hcheck, hstrings, hname⟩ := read_front_of_packed h reading.verifyChecksum
  rw [Database.ofBuffer, hr, hread]
  simp only [Except.mapError, ok_bind, hcheck, hstrings, checkSchema_eq_ok hname,
    readLayout_of_packed h ho]
  rfl

/-- **A packed file is refused as a file of another schema.** -/
theorem ofBuffer_of_packed_other {β : Type} [Schema β] {reading : Settings}
    (h : d.Packed date image s) (hr : reading.check = .ok ())
    (hne : Schema.schemaName β ≠ Schema.schemaName α) :
    Database.ofBuffer β reading (.ofList image.bytes) =
      .error (.schemaMismatch (Schema.schemaName β) (Schema.schemaName α)) := by
  obtain ⟨hread, hcheck, hstrings, hname⟩ := read_front_of_packed h reading.verifyChecksum
  rw [Database.ofBuffer, hr, hread]
  simp only [Except.mapError, ok_bind, hcheck, hstrings, checkSchema_eq_error hname hne]
  rfl

end Draft

/-! ## What an opened database holds -/

/-- The entries of a name table for the records of items. -/
def Layout.entries (l : Layout) (items : List α) : List SlotEntry :=
  items.mapIdx fun i x => ⟨(Schema.base x).hash, l.itemAt i⟩

theorem Layout.getElem?_entries {l : Layout} {items : List α} {i : Nat} {e : SlotEntry} :
    (l.entries items)[i]? = some e ↔
      ∃ x, items[i]? = some x ∧ e = ⟨(Schema.base x).hash, l.itemAt i⟩ := by
  simp [entries, eq_comm]

@[simp] theorem Layout.length_entries (l : Layout) (items : List α) :
    (l.entries items).length = items.length := by
  simp [entries]

/-- The file of a database has these items: their records, their name table and their tree. -/
structure Database.Holds (db : Database α) (items : List α) : Prop where
  count_eq : db.layout.count = items.length
  itemSize_pos : 0 < db.layout.itemSize
  geometry : TableGeometry.forItems items.length = .ok db.layout.geometry
  place_lt : ∀ i < items.length, db.layout.itemAt i < 0x80000000
  base_at : ∀ (i : Nat) (x : α), items[i]? = some x → ∃ v,
    db.strings.resolve v = .ok (Schema.itemName x) ∧
      HasAt db.buf.bytes (db.layout.itemAt i) ((Schema.base x).encode v)
  read_at : ∀ (i : Nat) (x : α), items[i]? = some x → db.read (db.layout.itemAt i) = .ok x
  slots_at : ∃ slots, Entered db.layout.geometry (db.layout.entries items) slots ∧
    HasSlots db.buf db.layout.slotsAt slots
  nodes_at : ∃ pieces, (Tree.ofPoints (items.map fun x => (Schema.base x).ecef)).nodes.mapM
    db.layout.plan.encodeNode = .ok pieces ∧ HasAt db.buf.bytes db.layout.nodesAt pieces.flatten

theorem Draft.slotEntries_eq {l : Layout} (hc : l.count = d.toList.length) :
    d.slotEntries l = l.entries d.toList := by
  refine List.ext_getElem ?_ fun i h₁ h₂ => ?_
  · simp [slotEntries, hc]
  · simp [slotEntries, Layout.itemPlaces, Layout.entries]

namespace Draft.Packed

/-- The record of an item stands at its place. -/
theorem record_at (h : d.Packed date image s) {i : Nat} {x : α} (hx : d.toList[i]? = some x) :
    ∃ bytes, Schema.encodeItem d.pool x = .ok bytes ∧
      HasAt image.bytes (image.layout.itemAt i) bytes := by
  obtain ⟨bytes, hb, he⟩ := getElem?_of_mapM_eq_ok h.records hx
  refine ⟨bytes, he, h.placedIn.records.flatten (fun piece hp => ?_) hb⟩
  obtain ⟨y, -, hy⟩ := mem_of_mapM_eq_ok h.records hp
  rw [h.itemSize_eq]
  exact (Schema.encodeItem_eq_ok hy).1

theorem resolves (h : d.Packed date image s) : StringTable.Resolves ⟨d.pool.strings⟩ d.pool :=
  d.indexed_pool.resolves (length_lt_of_encodeStrings h.strings)

theorem place_lt (h : d.Packed date image s) (ho : d.InOrder) {i : Nat}
    (hi : i < d.toList.length) : image.layout.itemAt i < 0x80000000 := by
  have hstop : image.layout.stop < 0x80000000 := by
    rw [h.stop_eq ho, h.bytes_eq, List.length_append, Header.length_encode]
    exact h.bytes_lt
  have := image.layout.itemAt_le_stop (Nat.le_of_lt (h.count_eq ▸ hi))
  omega

end Draft.Packed

/-- **The database of a draft holds the items of the draft.** -/
theorem Draft.holds_of_packed [LawfulSchema α] {reading : Settings} (h : d.Packed date image s)
    (ho : d.InOrder) : (d.database date image s reading).Holds d.toList where
  count_eq := h.count_eq
  itemSize_pos := by
    show 0 < image.layout.itemSize
    rw [h.itemSize_eq, Schema.recordSize, baseSize]
    omega
  geometry := h.geometry
  place_lt _ hi := h.place_lt ho hi
  base_at i x hx := by
    obtain ⟨bytes, he, hat⟩ := h.record_at hx
    obtain ⟨v, hv, hat'⟩ := Schema.hasAt_base_of_encodeItem he hat
    exact ⟨v, h.resolves _ _ hv, hat'⟩
  read_at i x hx := by
    obtain ⟨bytes, he, hat⟩ := h.record_at hx
    exact Schema.readItem_encodeItem h.resolves he hat
  slots_at := ⟨s.slots, slotEntries_eq h.count_eq ▸ entered_of_buildSlots h.slots, h.placedIn.slots⟩
  nodes_at := ⟨s.nodes, ho.points_eq ▸ h.nodes, h.placedIn.nodes⟩

/-- A database gives the items that it holds, in order. -/
theorem Database.Holds.items_eq {db : Database α} {items : List α} (h : db.Holds items) :
    db.items = items.map .ok := by
  refine List.ext_getElem ?_ fun i h₁ h₂ => ?_
  · simp [Database.items, h.count_eq]
  · rw [List.length_map] at h₂
    have hread := h.read_at i items[i] (List.getElem?_eq_getElem h₂)
    simpa [Database.items, Layout.itemPlaces] using hread

end Gazetteer
