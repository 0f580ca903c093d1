import Gazetteer.Image
import Gazetteer.Proofs.Reading

/-!
# The parts of a packed file

A file that was packed is a sealed header and the sections of its draft, each of which came out of
its own step. `Draft.Packed` names the sections and says what each of them is.
-/

namespace Gazetteer

/-! ## Sealed headers -/

namespace Header

/-- The bytes of a header. -/
def encode (h : Header) : List UInt8 :=
  int32Bytes h.magic ++ (int32Bytes h.totalLength ++ (int32Bytes h.crc ++ int64Bytes h.date))

@[simp] theorem length_encode (h : Header) : h.encode.length = headerSize := by
  simp [encode, headerSize]

theorem read_of_hasAt {buf : Buffer} {h : Header} (hh : HasAt buf.bytes 0 h.encode) :
    Header.read buf = .ok h := by
  have hle : headerSize ≤ buf.size := by
    have := hh.le_length
    rwa [length_encode, Buffer.length_bytes, Nat.zero_add] at this
  have h4 := hh.after 4 (by rw [length_int32Bytes])
  have h8 := h4.after 8 (by rw [length_int32Bytes])
  have h12 := h8.after 12 (by rw [length_int32Bytes])
  rw [read, if_neg (by omega), Buffer.readInt32_of_hasAt hh.left, ok_bind,
    Buffer.readInt32_of_hasAt h4.left, ok_bind, Buffer.readInt32_of_hasAt h8.left, ok_bind,
    Buffer.slice_of_hasAt h12 (length_int64Bytes _), ok_bind, int64OfBytes_int64Bytes]
  rfl

/-- The header that is reserved is one whose length and check value are zero. -/
theorem reserved_eq (date : Int64) : reserved date = encode ⟨headerMagic, 0, 0, date⟩ := by
  simp [reserved, encode]

/-- The header of a complete file. -/
def ofBody (date : Int64) (body : List UInt8) : Header :=
  ⟨headerMagic, Int32.ofNat (headerSize + body.length), (crc32 body).toInt32, date⟩

end Header

theorem putWord_append (a b : List UInt8) (w v : Int32) :
    putWord (a ++ (int32Bytes w ++ b)) a.length v = .ok (a ++ (int32Bytes v ++ b)) := by
  have hle : a.length + 4 ≤ (a ++ (int32Bytes w ++ b)).length := by simp
  have hdrop : (a ++ (int32Bytes w ++ b)).drop (a.length + 4) = b := by
    rw [← List.append_assoc]
    exact List.drop_left' (by simp)
  rw [putWord, if_pos hle, List.take_left, hdrop, List.append_assoc]

theorem contentCrc_encode_append (h : Header) (body : List UInt8) :
    contentCrc (h.encode ++ body) = (crc32 body).toInt32 := by
  rw [contentCrc, List.drop_left' h.length_encode]

theorem sealCrc_append (h : Header) (body : List UInt8) :
    sealCrc (h.encode ++ body) =
      .ok (Header.encode ⟨h.magic, h.totalLength, (crc32 body).toInt32, h.date⟩ ++ body) := by
  have hw := putWord_append (int32Bytes h.magic ++ int32Bytes h.totalLength)
    (int64Bytes h.date ++ body) h.crc (crc32 body).toInt32
  rw [sealCrc, contentCrc_encode_append]
  simpa [Header.encode] using hw

theorem sealLength_append {h : Header} {body : List UInt8}
    (hl : headerSize + body.length < 0x80000000) :
    sealLength (h.encode ++ body) = .ok (Header.encode
      ⟨h.magic, .ofNat (headerSize + body.length), h.crc, h.date⟩ ++ body) := by
  have hw := putWord_append (int32Bytes h.magic) (int32Bytes h.crc ++ (int64Bytes h.date ++ body))
    h.totalLength (Int32.ofNat (headerSize + body.length))
  have hn : toInt32 (h.encode ++ body).length "total length" =
      .ok (Int32.ofNat (headerSize + body.length)) := by
    rw [List.length_append, Header.length_encode]
    exact toInt32_eq_ok.2 ⟨hl, rfl⟩
  rw [sealLength, hn, ok_bind]
  simpa [Header.encode] using hw

/-- **Sealing fills in the header of the complete file.** -/
theorem sealHeader_reserved {date : Int64} {body : List UInt8}
    (hl : headerSize + body.length < 0x80000000) :
    sealHeader (Header.reserved date ++ body) = .ok ((Header.ofBody date body).encode ++ body) := by
  rw [sealHeader, Header.reserved_eq, sealLength_append hl, ok_bind, sealCrc_append]
  rfl

/-! ## Sections -/

/-- The sections of a file, with the pieces that they are made of. -/
structure Sections where
  strings : List UInt8
  records : List (List UInt8)
  slots : Array Int32
  nodes : List (List UInt8)

/-- Everything behind the header. -/
def Sections.bytes (s : Sections) (l : Layout) : List UInt8 :=
  s.strings ++ (int32Bytes (.ofNat l.count) ++ (int32Bytes (.ofNat l.itemSize) ++
    (s.records.flatten ++ (int32Bytes (.ofNat l.geometry.length) ++
      (int32Bytes (.ofNat l.geometry.rehash) ++
        (s.slots.toList.flatMap int32Bytes ++ s.nodes.flatten))))))

namespace Draft

variable {α : Type} [Schema α] {d : Draft α} {date : Int64} {image : Image} {s : Sections}

/-- The file of a draft has these sections. -/
structure Packed (d : Draft α) (date : Int64) (image : Image) (s : Sections) : Prop where
  nonempty : d.toList ≠ []
  count_eq : image.layout.count = d.toList.length
  count_lt : image.layout.count < 0x80000000
  itemSize_eq : image.layout.itemSize = Schema.recordSize α
  itemSize_lt : image.layout.itemSize < 0x80000000
  itemsAt_eq : image.layout.itemsAt = headerSize + s.strings.length + 8
  geometry : TableGeometry.forItems d.toList.length = .ok image.layout.geometry
  length_lt : image.layout.geometry.length < 0x80000000
  rehash_lt : image.layout.geometry.rehash < 0x80000000
  strings : encodeStrings d.pool.toList = .ok s.strings
  records : d.toList.mapM (Schema.encodeItem d.pool) = .ok s.records
  slots : buildSlots image.layout.geometry (d.slotEntries image.layout) = .ok s.slots
  nodes : d.tree.nodes.mapM image.layout.plan.encodeNode = .ok s.nodes
  bytes_lt : headerSize + (s.bytes image.layout).length < 0x80000000
  bytes_eq : image.bytes =
    (Header.ofBody date (s.bytes image.layout)).encode ++ s.bytes image.layout
  depth_eq : image.depth = d.tree.height

theorem encodeFront_eq_ok {front : List UInt8} :
    d.encodeFront date = .ok front ↔ ∃ strings, encodeStrings d.pool.toList = .ok strings ∧
      d.toList.length < 0x80000000 ∧ Schema.recordSize α < 0x80000000 ∧
      front = Header.reserved date ++ (strings ++ (int32Bytes (.ofNat d.toList.length) ++
        int32Bytes (.ofNat (Schema.recordSize α)))) := by
  unfold encodeFront
  rw [d.size_eq, bind_eq_ok]
  constructor
  · rintro ⟨strings, hs, h⟩
    obtain ⟨_, hc', h⟩ := bind_eq_ok.1 h
    obtain ⟨_, hr', h⟩ := bind_eq_ok.1 h
    obtain ⟨hc, rfl⟩ := toInt32_eq_ok.1 hc'
    obtain ⟨hr, rfl⟩ := toInt32_eq_ok.1 hr'
    cases h
    exact ⟨strings, hs, hc, hr, by simp⟩
  · rintro ⟨strings, hs, hc, hr, rfl⟩
    refine ⟨strings, hs, bind_eq_ok.2 ⟨_, toInt32_eq_ok.2 ⟨hc, rfl⟩, ?_⟩⟩
    exact bind_eq_ok.2 ⟨_, toInt32_eq_ok.2 ⟨hr, rfl⟩, by simp⟩

theorem encodeRecords_eq_ok {bytes : List UInt8} :
    d.encodeRecords = .ok bytes ↔
      ∃ records, d.toList.mapM (Schema.encodeItem d.pool) = .ok records ∧
        bytes = records.flatten := by
  unfold encodeRecords
  rw [bind_eq_ok]
  exact exists_congr fun records => and_congr_right fun _ => by simp [eq_comm]

theorem encodeNames_eq_ok {l : Layout} {bytes : List UInt8} :
    d.encodeNames l = .ok bytes ↔ ∃ slots, buildSlots l.geometry (d.slotEntries l) = .ok slots ∧
      l.geometry.length < 0x80000000 ∧ l.geometry.rehash < 0x80000000 ∧
      bytes = int32Bytes (.ofNat l.geometry.length) ++ (int32Bytes (.ofNat l.geometry.rehash) ++
        slots.toList.flatMap int32Bytes) := by
  unfold encodeNames
  rw [bind_eq_ok]
  refine exists_congr fun slots => and_congr_right fun _ => ?_
  rw [encodeSlots, bind_eq_ok]
  constructor
  · rintro ⟨_, hg, h⟩
    obtain ⟨_, hl', hg⟩ := bind_eq_ok.1 hg
    obtain ⟨_, hr', hg⟩ := bind_eq_ok.1 hg
    obtain ⟨hl, rfl⟩ := toInt32_eq_ok.1 hl'
    obtain ⟨hr, rfl⟩ := toInt32_eq_ok.1 hr'
    cases hg
    cases h
    exact ⟨hl, hr, by simp⟩
  · rintro ⟨hl, hr, rfl⟩
    refine ⟨int32Bytes (.ofNat l.geometry.length) ++ int32Bytes (.ofNat l.geometry.rehash),
      bind_eq_ok.2 ⟨_, toInt32_eq_ok.2 ⟨hl, rfl⟩, ?_⟩, by simp⟩
    exact bind_eq_ok.2 ⟨_, toInt32_eq_ok.2 ⟨hr, rfl⟩, rfl⟩

theorem packBehind_eq_ok {front : List UInt8} {l : Layout} :
    d.packBehind front l = .ok image ↔ ∃ records slots nodes bytes,
      d.toList.mapM (Schema.encodeItem d.pool) = .ok records ∧
      buildSlots l.geometry (d.slotEntries l) = .ok slots ∧
      l.geometry.length < 0x80000000 ∧ l.geometry.rehash < 0x80000000 ∧
      d.tree.nodes.mapM l.plan.encodeNode = .ok nodes ∧
      bytes = front ++ (records.flatten ++ (int32Bytes (.ofNat l.geometry.length) ++
        (int32Bytes (.ofNat l.geometry.rehash) ++
          (slots.toList.flatMap int32Bytes ++ nodes.flatten)))) ∧
      bytes.length < 0x80000000 ∧ sealHeader bytes = .ok image.bytes ∧ image.layout = l ∧
      image.depth = d.tree.height := by
  unfold packBehind
  constructor
  · intro h
    obtain ⟨_, hr, h⟩ := bind_eq_ok.1 h
    obtain ⟨_, hn, h⟩ := bind_eq_ok.1 h
    obtain ⟨_, ht, h⟩ := bind_eq_ok.1 h
    obtain ⟨_, hl, h⟩ := bind_eq_ok.1 h
    obtain ⟨out, ho, hout⟩ := bind_eq_ok.1 h
    obtain ⟨records, hr', rfl⟩ := encodeRecords_eq_ok.1 hr
    obtain ⟨slots, hb, hlen, hreh, rfl⟩ := encodeNames_eq_ok.1 hn
    obtain ⟨nodes, ht', rfl⟩ := map_eq_ok.1 ht
    cases hout
    have hl' := (toInt32_eq_ok.1 hl).1
    rw [List.append_assoc, List.append_assoc] at ho hl'
    exact ⟨records, slots, nodes, _, hr', hb, hlen, hreh, ht', rfl, hl', ho, rfl, rfl⟩
  · rintro ⟨records, slots, nodes, bytes, hr, hb, hlen, hreh, ht, hbytes, hl, ho, hil, hd⟩
    refine bind_eq_ok.2 ⟨_, encodeRecords_eq_ok.2 ⟨records, hr, rfl⟩, ?_⟩
    refine bind_eq_ok.2 ⟨_, encodeNames_eq_ok.2 ⟨slots, hb, hlen, hreh, rfl⟩, ?_⟩
    refine bind_eq_ok.2 ⟨_, map_eq_ok.2 ⟨nodes, ht, rfl⟩, ?_⟩
    rw [List.append_assoc, List.append_assoc, ← hbytes]
    refine bind_eq_ok.2 ⟨_, toInt32_eq_ok.2 ⟨hl, rfl⟩, bind_eq_ok.2 ⟨_, ho, ?_⟩⟩
    rw [← hil, ← hd]
    rfl

/-- The front and what follows it are the header and the sections. -/
theorem front_append_sections (s : Sections) (l : Layout) (date : Int64) :
    Header.reserved date ++ (s.strings ++ (int32Bytes (.ofNat l.count) ++
      int32Bytes (.ofNat l.itemSize))) ++ (s.records.flatten ++
        (int32Bytes (.ofNat l.geometry.length) ++ (int32Bytes (.ofNat l.geometry.rehash) ++
          (s.slots.toList.flatMap int32Bytes ++ s.nodes.flatten)))) =
      Header.reserved date ++ s.bytes l := by
  simp only [Sections.bytes, List.append_assoc]

theorem exists_packed (h : d.pack date = .ok image) : ∃ s, d.Packed date image s := by
  obtain ⟨out, l, depth⟩ := image
  unfold pack at h
  rw [d.size_eq] at h
  split at h
  · cases h
  rename_i hne
  obtain ⟨geometry, hg, h⟩ := bind_eq_ok.1 h
  obtain ⟨_, hf, hrest⟩ := bind_eq_ok.1 h
  obtain ⟨strings, hs, hc, hi, rfl⟩ := encodeFront_eq_ok.1 hf
  obtain ⟨records, slots, nodes, bytes, hr, hb, hlen, hreh, ht, hbytes, hl, ho, rfl, hd⟩ :=
    packBehind_eq_ok.1 hrest
  obtain rfl := hbytes.trans (front_append_sections ⟨strings, records, slots, nodes⟩
    ⟨_, Schema.recordSize α, d.toList.length, geometry⟩ date)
  rw [List.length_append, Header.length_reserved] at hl
  rw [sealHeader_reserved hl, Except.ok.injEq] at ho
  have hat : (Header.reserved date ++ (strings ++ (int32Bytes (.ofNat d.toList.length) ++
      int32Bytes (.ofNat (Schema.recordSize α))))).length = headerSize + strings.length + 8 := by
    simp [Nat.add_assoc]
  exact ⟨⟨strings, records, slots, nodes⟩, fun he => hne (by simpa [toList] using he), rfl, hc, rfl, hi,
    hat, hg, hlen, hreh, hs, hr, hb, ht, hl, ho.symm, hd⟩

theorem Packed.pack_eq_ok {s : Sections} (h : d.Packed date image s) : d.pack date = .ok image := by
  obtain ⟨out, l, depth⟩ := image
  have hat : (Header.reserved date ++ (s.strings ++ (int32Bytes (.ofNat d.toList.length) ++
      int32Bytes (.ofNat (Schema.recordSize α))))).length = l.itemsAt := by
    rw [h.itemsAt_eq]
    simp [Nat.add_assoc]
  have hl : (⟨l.itemsAt, Schema.recordSize α, d.toList.length, l.geometry⟩ : Layout) = l := by
    rw [← h.count_eq, ← h.itemSize_eq]
  have hne : ¬ d.items.isEmpty = true := fun he => h.nonempty (by simpa [toList] using he)
  unfold pack
  rw [d.size_eq, if_neg hne]
  refine bind_eq_ok.2 ⟨_, h.geometry, bind_eq_ok.2 ⟨_, encodeFront_eq_ok.2 ⟨s.strings, h.strings,
    h.count_eq ▸ h.count_lt, h.itemSize_eq ▸ h.itemSize_lt, rfl⟩, ?_⟩⟩
  rw [hat, hl]
  refine packBehind_eq_ok.2 ⟨s.records, s.slots, s.nodes, _, h.records, h.slots, h.length_lt,
    h.rehash_lt, h.nodes, rfl, ?_, ?_, rfl, h.depth_eq⟩
  · rw [← h.count_eq, ← h.itemSize_eq, front_append_sections, List.length_append,
      Header.length_reserved]
    exact h.bytes_lt
  · rw [← h.count_eq, ← h.itemSize_eq, front_append_sections, sealHeader_reserved h.bytes_lt]
    exact congrArg Except.ok h.bytes_eq.symm

/-- **A draft is packed into its sections**, behind a header that describes them. -/
theorem pack_eq_ok_iff : d.pack date = .ok image ↔ ∃ s, d.Packed date image s :=
  ⟨exists_packed, fun ⟨_, h⟩ => h.pack_eq_ok⟩

end Draft
end Gazetteer
