import Gazetteer.Proofs.AnyBytes
import Gazetteer.Proofs.Collecting
import Gazetteer.Proofs.RoundTrip

/-!
# Which files are too large

Packing narrows every count, index and offset to a word, and each of these steps may refuse. They
come down to one number, the size of the file: where it is below `2 ^ 31` none of them refuses, and
where one refuses, the file is too large. What was packed has its numbers in full: every word of the
file reads as the number that it stands for.
-/

namespace Gazetteer

variable {α : Type} [Schema α] {d : Draft α} {date : Int64} {image : Image} {s : Sections}

/-! ## How many items a name table takes -/

theorem TableGeometry.exists_forItems {n : Nat} :
    (∃ g, TableGeometry.forItems n = .ok g) ↔ n ≤ 33554432 := by
  have hmost : ∀ c ∈ choices, c.1 ≤ 33554432 := by decide
  unfold forItems
  cases hc : choices.find? fun c => n ≤ c.1 with
  | some c =>
    have hn : n ≤ c.1 := by simpa using List.find?_some hc
    have := hmost c (List.mem_of_find?_eq_some hc)
    simp
    omega
  | none =>
    have hlast := List.find?_eq_none.1 hc (33554432, ⟨67109323, 67109321⟩) (by decide)
    simpa using hlast

/-! ## The size of a packed file -/

namespace Draft

theorem Packed.stop_eq_fileSize (h : d.Packed date image s) :
    image.layout.stop = d.fileSize image.layout.geometry := by
  have hstrings := length_encodeStrings h.strings
  rw [toList_pool] at hstrings
  rw [fileSize, Layout.stop, Layout.nodesAt, Layout.mapAt, Layout.itemAt, h.itemsAt_eq, hstrings,
    h.count_eq, h.itemSize_eq]

/-- **A packed file has the size of its draft**, which is below `2 ^ 31`. -/
theorem Packed.length_bytes (h : d.Packed date image s) (ho : d.InOrder) :
    image.bytes.length = d.fileSize image.layout.geometry ∧ image.bytes.length < 0x80000000 := by
  refine ⟨by rw [← h.stop_eq ho, h.stop_eq_fileSize], ?_⟩
  rw [h.bytes_eq, List.length_append, Header.length_encode]
  exact h.bytes_lt

/-- The file of a draft has a name table and stays below `2 ^ 31` bytes. -/
def Fits (d : Draft α) : Prop :=
  d.toList.length ≤ 33554432 ∧
    ∀ g, TableGeometry.forItems d.toList.length = .ok g → d.fileSize g ≤ 2147483647

/-- **A draft with items is packed just if its file fits.** -/
theorem exists_pack_iff [LawfulSchema α] (ho : d.InOrder) (hne : d.toList ≠ []) (date : Int64) :
    (∃ image, d.pack date = .ok image) ↔ d.Fits := by
  constructor
  · rintro ⟨image, hp⟩
    obtain ⟨s, hs⟩ := pack_eq_ok_iff.1 hp
    obtain ⟨hsize, hlt⟩ := hs.length_bytes ho
    refine ⟨TableGeometry.exists_forItems.1 ⟨_, hs.geometry⟩, fun g hg => ?_⟩
    rw [hs.geometry] at hg
    cases hg
    omega
  · rintro ⟨hn, hsize⟩
    obtain ⟨g, hg⟩ := TableGeometry.exists_forItems.2 hn
    have := hsize g hg
    exact exists_pack ho hne hg (by omega) date

end Draft

/-! ## Why a packing fails -/

/-- The error of a number that the format cannot hold. A full name table is not meant. -/
def Error.IsOversize (e : Error) : Prop := ∃ cause, e = .tooLarge cause ∧ cause ≠ .tableFull

theorem toInt32_failsWith (n : Nat) (what : String) :
    FailsWith Error.IsOversize (toInt32 n what) := by
  unfold toInt32
  split
  · exact .ok _
  · exact .error ⟨_, rfl, by simp⟩

theorem TableGeometry.forItems_failsWith (n : Nat) :
    FailsWith Error.IsOversize (TableGeometry.forItems n) := by
  unfold forItems
  split
  · exact .ok _
  · exact .error ⟨_, rfl, by simp⟩

theorem encodeStrings_failsWith (ss : List String) :
    FailsWith Error.IsOversize (encodeStrings ss) := by
  refine (toInt32_failsWith _ _).bind fun _ _ => ?_
  refine FailsWith.bind (.mapM fun t _ => ?_) fun _ _ => .ok _
  exact (toInt32_failsWith _ _).bind fun _ _ => .ok _

theorem encodeSlots_failsWith (g : TableGeometry) (slots : Array Int32) :
    FailsWith Error.IsOversize (encodeSlots g slots) := by
  refine FailsWith.bind ?_ fun _ _ => .ok _
  refine (toInt32_failsWith _ _).bind fun _ _ => ?_
  exact (toInt32_failsWith _ _).bind fun _ _ => .ok _

theorem TreePlan.encodeNodes_failsWith (plan : TreePlan) (nodes : List TreeNode) :
    FailsWith Error.IsOversize (plan.encodeNodes nodes) := by
  have hchild (child : Option Nat) : FailsWith Error.IsOversize (plan.childOffset child) := by
    cases child with
    | none => exact .ok _
    | some i => exact toInt32_failsWith _ _
  refine FailsWith.map (.mapM fun n _ => ?_) _
  refine (toInt32_failsWith _ _).bind fun _ _ => ?_
  exact (hchild n.left).bind fun _ _ => (hchild n.right).bind fun _ _ => .ok _

section
variable {g : TableGeometry} {es : List SlotEntry} {slots : Array Int32}

/-- A record finds room in a table of prime length with fewer entries than slots. -/
theorem Entered.enterSlot_failsWith (h : Entered g es slots) (hp : g.length.Prime)
    (hpos : 0 < g.rehash) (hr : g.rehash < g.length) (hlen : es.length < g.length) (e : SlotEntry) :
    FailsWith Error.IsOversize (enterSlot g slots e) := by
  refine (toInt32_failsWith _ _).bind fun v _ => ?_
  obtain ⟨p, hs⟩ : ∃ p, Probe.start e.hash g = .ok p :=
    ⟨_, Probe.start_eq_ok.2 ⟨⟨by omega, by omega⟩, rfl⟩⟩
  obtain ⟨i, hi⟩ := h.exists_freeSlot hp hr hlen hs
  rw [hs, ok_bind, hi]
  exact .ok _

/-- **A table of prime length is never full**, as long as it has more slots than entries. -/
theorem buildSlots_failsWith (hp : g.length.Prime) (hpos : 0 < g.rehash)
    (hr : g.rehash < g.length) (hlen : es.length < g.length) :
    FailsWith Error.IsOversize (buildSlots g es) := by
  suffices hrun : ∀ (rest done : List SlotEntry) (slots : Array Int32), Entered g done slots →
      (done ++ rest).length < g.length →
      FailsWith Error.IsOversize (rest.foldlM (enterSlot g) slots) from
    hrun es [] _ (entered_nil g) hlen
  intro rest
  induction rest with
  | nil => exact fun _ slots _ _ => .ok slots
  | cons e rest ih =>
    intro done slots h hl
    rw [List.length_append, List.length_cons] at hl
    rw [List.foldlM_cons]
    refine (h.enterSlot_failsWith hp hpos hr (by omega) e).bind fun slots' h' => ?_
    exact ih (done ++ [e]) slots' (h.enter h') (by simp; omega)

end

namespace Draft

/-- Every text of a record is in the pool, and the record has its size. -/
theorem exists_encodeRecords [LawfulSchema α] (d : Draft α) :
    ∃ bytes, d.encodeRecords = .ok bytes := by
  obtain ⟨records, hr⟩ := exists_mapM_eq_ok fun x hx =>
    Schema.exists_encodeItem d.indexed_pool fun t ht => d.mem_pool (x := x) hx ht
  exact ⟨_, encodeRecords_eq_ok.2 ⟨records, hr, rfl⟩⟩

theorem encodeFront_failsWith (d : Draft α) (date : Int64) :
    FailsWith Error.IsOversize (d.encodeFront date) := by
  refine (encodeStrings_failsWith _).bind fun _ _ => ?_
  refine (toInt32_failsWith _ _).bind fun _ _ => ?_
  exact (toInt32_failsWith _ _).bind fun _ _ => .ok _

/-- **A packing fails only where a number is too large.** -/
theorem pack_failsWith [LawfulSchema α] (hne : d.toList ≠ []) (date : Int64) :
    FailsWith Error.IsOversize (d.pack date) := by
  have hitems : ¬ d.items.isEmpty = true := by simpa [toList] using hne
  unfold pack packBehind
  rw [if_neg hitems, d.size_eq]
  refine (TableGeometry.forItems_failsWith _).bind fun g hg => ?_
  refine (d.encodeFront_failsWith date).bind fun front hfront => ?_
  obtain ⟨records, hrecords⟩ := d.exists_encodeRecords
  rw [hrecords, ok_bind]
  obtain ⟨hroom, hpos, hlt, -, hprime⟩ := TableGeometry.spec_of_forItems hg
  have hentries (l : Layout) (hl : l.count = d.toList.length) :
      (d.slotEntries l).length < g.length := by
    rw [slotEntries_eq hl, Layout.length_entries]
    omega
  refine FailsWith.bind ?_ fun names _ => ?_
  · refine (buildSlots_failsWith hprime hpos hlt (hentries _ rfl)).bind fun slots _ => ?_
    exact encodeSlots_failsWith g slots
  refine (TreePlan.encodeNodes_failsWith _ _).bind fun nodes _ => ?_
  refine (toInt32_failsWith _ _).bind fun _ hlength => ?_
  -- The header was reserved, so it is there to be filled in.
  obtain ⟨strings, -, -, -, rfl⟩ := encodeFront_eq_ok.1 hfront
  have hsize := (toInt32_eq_ok.1 hlength).1
  rw [List.append_assoc] at hsize ⊢
  rw [List.length_append, Header.length_reserved] at hsize
  rw [sealHeader_reserved hsize]
  exact .ok _

end Draft

/-! ## The words of a packed file -/

/-- The word at a place of a file reads as a number. -/
def HasWord (bytes : List UInt8) (place : Nat) (n : Int) : Prop :=
  ∃ v, (Buffer.ofList bytes).readInt32 place = .ok v ∧ v.toInt = n

section
variable {bytes : List UInt8} {place n : Nat}

theorem hasWord_of_hasAt (hn : n < 0x80000000) (h : HasAt bytes place (int32Bytes (.ofNat n))) :
    HasWord bytes place n :=
  ⟨_, Buffer.readInt32_of_hasAt h, toInt_ofNat_of_lt hn⟩

theorem hasWord_of_toInt32 {what : String} {v : Int32} (hv : toInt32 n what = .ok v)
    (h : HasAt bytes place (int32Bytes v)) : HasWord bytes place n :=
  ⟨v, Buffer.readInt32_of_hasAt h, toInt_of_toInt32 hv⟩

theorem hasWord_empty (h : HasAt bytes place (int32Bytes emptyOffset)) :
    HasWord bytes place (-1) :=
  ⟨_, Buffer.readInt32_of_hasAt h, rfl⟩

end

/-- The place of a child of a node, or the mark of a missing one. -/
def Layout.childPlace (l : Layout) : Option Nat → Int
  | none => -1
  | some i => (l.nodesAt + i * nodeSize : Nat)

/-- The word of a child is its place. -/
theorem Layout.hasWord_child {l : Layout} {bytes : List UInt8} {place : Nat} {child : Option Nat}
    {v : Int32} (hv : l.plan.childOffset child = .ok v) (h : HasAt bytes place (int32Bytes v)) :
    HasWord bytes place (l.childPlace child) := by
  cases child with
  | none =>
    cases hv
    exact hasWord_empty h
  | some i => exact hasWord_of_toInt32 hv h

/-- The numbers of a packed file, each in full: its length, the counts and the sizes, the index of
each text of a record, the slots of the name table and the words of the nodes. -/
structure Draft.InFull (d : Draft α) (image : Image) : Prop where
  total : HasWord image.bytes 4 image.bytes.length
  itemsAt_eq : image.layout.itemsAt =
    headerSize + (4 + ((firstOccurrences d.usedStrings).map stringSize).sum) + 8
  string_count : HasWord image.bytes headerSize (firstOccurrences d.usedStrings).length
  string_length : ∀ i t, (firstOccurrences d.usedStrings)[i]? = some t →
    HasWord image.bytes
      (headerSize + 4 + (((firstOccurrences d.usedStrings).take i).map stringSize).sum)
      (utf8Bytes t).length
  item_count : HasWord image.bytes (image.layout.itemsAt - 8) d.toList.length
  item_size : HasWord image.bytes (image.layout.itemsAt - 4) (Schema.recordSize α)
  text : ∀ i x, d.toList[i]? = some x → ∀ j t, (Schema.fields x)[j]? = some (.text t) →
    ∃ k : Nat, (firstOccurrences d.usedStrings)[k]? = some t ∧
      HasWord image.bytes
        (image.layout.itemAt i + (((Schema.fields x).take j).map RecordField.size).sum) k
  table_length : HasWord image.bytes image.layout.mapAt image.layout.geometry.length
  table_rehash : HasWord image.bytes (image.layout.mapAt + 4) image.layout.geometry.rehash
  slot : ∀ k < image.layout.geometry.length,
    HasWord image.bytes (image.layout.slotsAt + 4 * k) (-1) ∨
      ∃ i < d.toList.length,
        HasWord image.bytes (image.layout.slotsAt + 4 * k) (image.layout.itemAt i)
  node : ∀ k v, d.tree.nodes[k]? = some v →
    HasWord image.bytes (image.layout.nodesAt + k * nodeSize) (image.layout.itemAt v.item) ∧
      HasWord image.bytes (image.layout.nodesAt + k * nodeSize + 4)
        (image.layout.childPlace v.left) ∧
      HasWord image.bytes (image.layout.nodesAt + k * nodeSize + 8)
        (image.layout.childPlace v.right)

namespace Draft.Packed

theorem hasWord_total (h : d.Packed date image s) :
    HasWord image.bytes 4 image.bytes.length := by
  have hat : HasAt image.bytes 0 (Header.ofBody date (s.bytes image.layout)).encode := by
    rw [h.bytes_eq]
    exact (hasAt_self _).left
  have hlength : image.bytes.length = headerSize + (s.bytes image.layout).length := by
    rw [h.bytes_eq, List.length_append, Header.length_encode]
  have hword := hasWord_of_hasAt h.bytes_lt (hat.after 4 (by rw [length_int32Bytes])).left
  rwa [← hlength] at hword

theorem hasWord_string (h : d.Packed date image s) {i : Nat} {t : String}
    (ht : d.pool.toList[i]? = some t) :
    HasWord image.bytes (headerSize + 4 + ((d.pool.toList.take i).map stringSize).sum)
      (utf8Bytes t).length := by
  obtain ⟨-, pieces, hp, hs⟩ := encodeStrings_eq_ok.1 h.strings
  have hat := h.placedIn.strings
  rw [hs] at hat
  obtain ⟨bytes, he, hat⟩ := HasAt.of_mapM (fun _ _ => length_encodeString) hp
    (hat.after (headerSize + 4) (by rw [length_int32Bytes])) ht
  obtain ⟨hlt, rfl⟩ := encodeString_eq_ok.1 he
  exact hasWord_of_hasAt hlt hat.left

theorem hasWord_text (h : d.Packed date image s) {i j : Nat} {x : α} {t : String}
    (hx : d.toList[i]? = some x) (ht : (Schema.fields x)[j]? = some (.text t)) :
    ∃ k : Nat, d.pool.toList[k]? = some t ∧ HasWord image.bytes
      (image.layout.itemAt i + (((Schema.fields x).take j).map RecordField.size).sum) k := by
  obtain ⟨bytes, he, hat⟩ := h.record_at hx
  obtain ⟨-, pieces, hp, rfl⟩ := Schema.exists_fields_of_encodeItem he
  obtain ⟨bytes, hb, hat⟩ := HasAt.of_mapM (fun _ _ => RecordField.length_of_encode) hp hat ht
  obtain ⟨v, hv, rfl⟩ := RecordField.encode_text_eq_ok.1 hb
  obtain ⟨k, hk, rfl⟩ := d.indexed_pool.of_require hv
  have hcount := length_lt_of_encodeStrings h.strings
  have hlt : k < d.pool.toList.length := (List.getElem?_eq_some_iff.1 hk).1
  exact ⟨k, hk, hasWord_of_hasAt (by omega) hat⟩

theorem hasWord_slot (h : d.Packed date image s) (ho : d.InOrder) {k : Nat}
    (hk : k < image.layout.geometry.length) :
    HasWord image.bytes (image.layout.slotsAt + 4 * k) (-1) ∨
      ∃ i < d.toList.length,
        HasWord image.bytes (image.layout.slotsAt + 4 * k) (image.layout.itemAt i) := by
  have hent := entered_of_buildSlots h.slots
  have hslots : HasSlots (.ofList image.bytes) image.layout.slotsAt s.slots := h.placedIn.slots
  have hv := Array.getElem?_eq_getElem (hent.size_eq.symm ▸ hk : k < s.slots.size)
  have hat := hslots.hasAt hv
  rcases hent.word_cases hv with hfree | ⟨e, he, hword⟩
  · rw [hfree] at hat
    exact Or.inl (hasWord_empty hat)
  · rw [Draft.slotEntries_eq h.count_eq] at he
    obtain ⟨i, hi, rfl⟩ := List.mem_mapIdx.1 he
    rw [hword] at hat
    exact Or.inr ⟨i, hi, hasWord_of_hasAt (h.place_lt ho hi) hat⟩

theorem hasWord_node (h : d.Packed date image s) {k : Nat} {v : TreeNode}
    (hv : d.tree.nodes[k]? = some v) :
    HasWord image.bytes (image.layout.nodesAt + k * nodeSize) (image.layout.itemAt v.item) ∧
      HasWord image.bytes (image.layout.nodesAt + k * nodeSize + 4)
        (image.layout.childPlace v.left) ∧
      HasWord image.bytes (image.layout.nodesAt + k * nodeSize + 8)
        (image.layout.childPlace v.right) := by
  have hsize (piece : List UInt8) (hp : piece ∈ s.nodes) : piece.length = nodeSize := by
    obtain ⟨n, -, hn⟩ := mem_of_mapM_eq_ok h.nodes hp
    exact length_encodeNode hn
  obtain ⟨bytes, hb, he⟩ := getElem?_of_mapM_eq_ok h.nodes hv
  have hat := h.placedIn.nodes.flatten hsize hb
  obtain ⟨item, hitem, he⟩ := bind_eq_ok.1 he
  obtain ⟨left, hleft, he⟩ := bind_eq_ok.1 he
  obtain ⟨right, hright, he⟩ := bind_eq_ok.1 he
  cases he
  rw [List.append_assoc] at hat
  have hat4 := hat.after _ (by rw [length_int32Bytes])
  have hat8 := hat4.after _ (by rw [length_int32Bytes])
  exact ⟨hasWord_of_toInt32 hitem hat.left, image.layout.hasWord_child hleft hat4.left,
    image.layout.hasWord_child hright hat8⟩

/-- **What was packed has its numbers in full.** -/
theorem inFull (h : d.Packed date image s) (ho : d.InOrder) : d.InFull image := by
  have hp := h.placedIn
  have hstrings := length_encodeStrings h.strings
  have hat := hp.strings
  obtain ⟨hcount, pieces, -, hs⟩ := encodeStrings_eq_ok.1 h.strings
  rw [hs] at hat
  have hitems := h.itemsAt_eq
  refine {
    total := h.hasWord_total
    itemsAt_eq := ?_
    string_count := ?_
    string_length := ?_
    item_count := ?_
    item_size := ?_
    text := ?_
    table_length := hasWord_of_hasAt h.length_lt hp.length
    table_rehash := hasWord_of_hasAt h.rehash_lt hp.rehash
    slot := fun k hk => h.hasWord_slot ho hk
    node := fun k v hv => h.hasWord_node hv }
  · rw [hitems, hstrings, toList_pool]
  · rw [← toList_pool]
    exact hasWord_of_hasAt hcount hat.left
  · rw [← toList_pool]
    exact fun i t ht => h.hasWord_string ht
  · rw [show image.layout.itemsAt - 8 = headerSize + s.strings.length by omega, ← h.count_eq]
    exact hasWord_of_hasAt h.count_lt hp.count
  · rw [show image.layout.itemsAt - 4 = headerSize + s.strings.length + 4 by omega,
      ← h.itemSize_eq]
    exact hasWord_of_hasAt h.itemSize_lt hp.itemSize
  · rw [← toList_pool]
    exact fun i x hx j t ht => h.hasWord_text hx ht

end Draft.Packed

/-! ## Drafts of any calls -/

namespace Draft

/-- The size of a file, section by section. -/
theorem fileSize_eq (d : Draft α) (g : TableGeometry) :
    d.fileSize g = 20 + 4 + ((firstOccurrences d.usedStrings).map fun t =>
      5 + (utf8Bytes t).length).sum + 8 + d.toList.length * Schema.recordSize α +
        8 + 4 * g.length + 12 * d.toList.length := by
  have hstrings : (fun t => 5 + (utf8Bytes t).length) = stringSize := by
    funext t
    rw [stringSize, Nat.add_comm]
  rw [hstrings, fileSize, headerSize, TableGeometry.byteSize, nodeSize]
  omega

/-- **A draft is packed just if its file fits.** Whatever was offered to a draft: without items it
is refused for that; with items it is packed if there is a name table for that many and the file
stays below `2 ^ 31` bytes, and otherwise it is refused as too large, never because a table was
full, a string was missing or a record had the wrong size. A packed file has just the size that was
counted, and every number in it is stored in full. -/
theorem pack_collected [LawfulSchema α] (settings : Settings) (calls : List (Call α))
    (date : Int64) :
    let d := collected settings calls
    let n := d.toList.length
    let size (g : TableGeometry) : Nat :=
      20 + 4 + ((firstOccurrences d.usedStrings).map fun t => 5 + (utf8Bytes t).length).sum + 8 +
        n * Schema.recordSize α + 8 + 4 * g.length + 12 * n
    (d.toList = [] → d.pack date = .error .noItems) ∧
    (d.toList ≠ [] →
      ((∃ image, d.pack date = .ok image) ↔
        n ≤ 33554432 ∧ ∀ g, TableGeometry.forItems n = .ok g → size g ≤ 2147483647) ∧
      ((∃ image, d.pack date = .ok image) ∨
        ∃ cause, d.pack date = .error (.tooLarge cause) ∧ cause ≠ .tableFull) ∧
      ∀ image, d.pack date = .ok image →
        TableGeometry.forItems n = .ok image.layout.geometry ∧
        image.bytes.length = size image.layout.geometry ∧ d.InFull image) := by
  intro d n size
  have ho : d.InOrder := inOrder_collected settings calls
  have hsize (g : TableGeometry) : d.fileSize g = size g := d.fileSize_eq g
  refine ⟨fun hempty => ?_, fun hne => ⟨?_, ?_, fun image hp => ?_⟩⟩
  · have hitems : d.items.isEmpty = true := by simpa [toList] using hempty
    rw [pack, if_pos hitems]
    rfl
  · rw [exists_pack_iff ho hne, Fits]
    simp only [hsize]
    rfl
  · cases hp : d.pack date with
    | ok image => exact Or.inl ⟨image, rfl⟩
    | error e =>
      obtain ⟨cause, rfl, hcause⟩ := pack_failsWith hne date e hp
      exact Or.inr ⟨cause, rfl, hcause⟩
  · obtain ⟨s, hs⟩ := pack_eq_ok_iff.1 hp
    exact ⟨hs.geometry, by rw [(hs.length_bytes ho).1, hsize], hs.inFull ho⟩

/-- A draft that is offered one item in order holds it. -/
theorem collected_singleton {settings : Settings} {x : α}
    (h : (empty settings).check x = .ok ()) :
    collected settings [.add x] = (empty settings).push x := by
  simp [collected, after, (add_eq_ok_iff _ _ _).2 ⟨h, rfl⟩]

theorem pack_collected_quito :
    (collected lenientSettings ([] : List (Call Place))).pack 7 = .error .noItems ∧
    (∃ image, (collected lenientSettings [.add quitoPlace]).pack 7 = .ok image ∧
      image.bytes.length = 217 ∧ HasWord image.bytes 4 217) ∧
    ∃ image, (collected lenientSettings [.add quitoAirport]).pack 7 = .ok image ∧
      image.bytes.length = 236 ∧ HasWord image.bytes 4 236 := by
  have hone {β : Type} [Schema β] [LawfulSchema β] {x : β} {size : Nat}
      (hx : Schema.base x = quitoBase) (hsize : ((empty lenientSettings).push x).fileSize ⟨19, 17⟩ =
        size) (hfit : size ≤ 2147483647) :
      ∃ image, (collected lenientSettings [.add x]).pack 7 = .ok image ∧
        image.bytes.length = size ∧ HasWord image.bytes 4 size := by
    have h := pack_collected lenientSettings [.add x] 7
    rw [collected_singleton (check_quito hx)] at h ⊢
    rw [fileSize_eq] at hsize
    obtain ⟨hfits, -, hpacked⟩ := h.2 (by simp)
    have hgeometry {g : TableGeometry}
        (hg : TableGeometry.forItems ((empty lenientSettings).push x).toList.length = .ok g) :
        g = ⟨19, 17⟩ := (Except.ok.inj hg).symm
    obtain ⟨image, hp⟩ := hfits.2 ⟨by simp, fun g hg => hgeometry hg ▸ hsize.trans_le hfit⟩
    obtain ⟨hg, hlength, hfull⟩ := hpacked image hp
    rw [hgeometry hg] at hlength
    have hlength : image.bytes.length = size := hlength.trans hsize
    exact ⟨image, hp, hlength, hlength ▸ hfull.total⟩
  exact ⟨(pack_collected lenientSettings ([] : List (Call Place)) 7).1 rfl,
    hone rfl rfl (by decide), hone rfl rfl (by decide)⟩

end Draft

end Gazetteer
