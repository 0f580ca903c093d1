import Gazetteer.Item.Airport
import Gazetteer.Item.Place
import Gazetteer.Proofs.MachineWords
import Gazetteer.Proofs.RoundTrip

/-!
# The format of a file

A file is a header followed by the strings, two counts, the records, the geometry of the name table,
its slots and the nodes. `FileForm` names these parts and `FileForm.IsFile` says how they have to fit
together. Opening accepts exactly the files of this form, each of which has one form only.
-/

namespace Gazetteer

/-- The parts of a file that its other bytes follow from. -/
@[ext]
structure FileForm where
  crc : Int32
  date : Int64
  strings : List String
  count : Nat
  records : List UInt8
  geometry : TableGeometry
  slots : List UInt8
  nodes : List UInt8
deriving DecidableEq

namespace FileForm

section
variable (α : Type) [Schema α] (f : FileForm)

/-- Everything behind the header. -/
def body : List UInt8 :=
  stringsBytes f.strings ++ ((int32Bytes (.ofNat f.count) ++
    int32Bytes (.ofNat (Schema.recordSize α))) ++ (f.records ++
      (f.geometry.bytes ++ (f.slots ++ f.nodes))))

/-- The header, with the length of the file. -/
def header : Header :=
  ⟨headerMagic, .ofNat (headerSize + (f.body α).length), f.crc, f.date⟩

/-- The bytes of the file. -/
def bytes : List UInt8 := (f.header α).encode ++ f.body α

/-- Where the sections of the file lie. -/
def layout : Layout :=
  ⟨headerSize + (stringsBytes f.strings).length + 8, Schema.recordSize α, f.count, f.geometry⟩

/-- The database of the file. -/
def database (settings : Settings) : Database α :=
  ⟨.ofList (f.bytes α), f.header α, ⟨f.strings.toArray⟩, f.layout α, ⟨settings.longRangeThreshold⟩⟩

/-- Every section has the size that the counts give it. -/
structure Sized : Prop where
  records : f.records.length = f.count * Schema.recordSize α
  slots : f.slots.length = 4 * f.geometry.length
  nodes : f.nodes.length = f.count * nodeSize

/-- The parts fit together: the schema is named first, every section has its size, the geometry is
one of a table, the check value is that of the content if it has to be, and the length of the file
can be written. -/
structure IsFile (verify : Bool) : Prop extends Sized α f where
  schema : f.strings.head? = some (Schema.schemaName α)
  rehash_pos : 0 < f.geometry.rehash
  rehash_lt : f.geometry.rehash < f.geometry.length
  crc : verify = true → f.crc = (crc32 (f.body α)).toInt32
  length_lt : (f.bytes α).length < 0x80000000

end

variable {α : Type} [Schema α] {f g : FileForm} {verify : Bool}

/-! ## Where the parts stand -/

theorem length_bytes (f : FileForm) : (f.bytes α).length = headerSize + (f.body α).length := by
  rw [bytes, List.length_append, Header.length_encode]

/-- The places of the parts in the bytes of a file. -/
structure PlacedIn (f : FileForm) (l : Layout) (bytes : List UInt8) : Prop where
  strings : HasAt bytes headerSize (stringsBytes f.strings)
  counts : HasAt bytes (headerSize + (stringsBytes f.strings).length)
    (int32Bytes (.ofNat l.count) ++ int32Bytes (.ofNat l.itemSize))
  records : HasAt bytes l.itemsAt f.records
  geometry : HasAt bytes l.mapAt f.geometry.bytes
  slots : HasAt bytes l.slotsAt f.slots
  nodes : HasAt bytes l.nodesAt f.nodes

theorem Sized.placedIn (h : f.Sized α) : f.PlacedIn (f.layout α) (f.bytes α) := by
  have h0 : HasAt (f.bytes α) 0 ((f.header α).encode ++ f.body α) := hasAt_self _
  have hs := h0.after headerSize (by rw [Header.length_encode, Nat.zero_add])
  have hc := hs.after (headerSize + (stringsBytes f.strings).length) rfl
  have hr := hc.after (f.layout α).itemsAt (by simp [layout])
  have hg := hr.after (f.layout α).mapAt (by rw [h.records]; rfl)
  have ht := hg.after (f.layout α).slotsAt (by simp [TableGeometry.bytes, Layout.slotsAt])
  have hn := ht.after (f.layout α).nodesAt (by rw [h.slots, Layout.nodesAt_eq]; rfl)
  exact ⟨hs.left, hc.left, hr.left, hg.left, ht.left, hn⟩

/-- Parts that stand in their places stand there together. -/
theorem Sized.hasAt_body {bytes : List UInt8} (h : f.Sized α)
    (hp : f.PlacedIn (f.layout α) bytes) : HasAt bytes headerSize (f.body α) := by
  have ht := hp.slots.append (by rw [h.slots]; exact (f.layout α).nodesAt_eq ▸ hp.nodes)
  have hg := hp.geometry.append (by simpa [TableGeometry.bytes, Layout.slotsAt] using ht)
  have hr := hp.records.append (by rw [h.records]; exact hg)
  have hc := hp.counts.append (by simpa [layout] using hr)
  exact hp.strings.append hc

/-- A file ends where its layout says. -/
theorem Sized.stop_eq (h : f.Sized α) : (f.layout α).stop = headerSize + (f.body α).length := by
  rw [Layout.stop, Layout.nodesAt_eq, Layout.slotsAt, Layout.mapAt, Layout.itemAt]
  simp only [body, layout, TableGeometry.bytes, List.length_append, length_int32Bytes, h.records,
    h.slots, h.nodes]
  omega

/-! ## What fits -/

theorem length_stringsBytes (ss : List String) :
    (stringsBytes ss).length = 4 + (ss.map stringSize).sum := by
  have hsize (s : String) : (stringBytes s).length = stringSize s := length_stringBytes s
  rw [stringsBytes, List.length_append, length_int32Bytes, List.length_flatMap]
  simp only [hsize]

/-- The numbers of a file that are written as words fit them. -/
theorem IsFile.fits (h : f.IsFile α verify) :
    (f.strings.length < 0x80000000 ∧ ∀ s ∈ f.strings, (utf8Bytes s).length < 0x80000000) ∧
      f.count < 0x80000000 ∧ f.geometry.length < 0x80000000 := by
  have hbytes := h.length_lt
  have hp := h.placedIn
  have hs := hp.strings.le_length
  have hn := hp.nodes.le_length
  have ht := hp.slots.le_length
  rw [length_stringsBytes] at hs
  rw [h.nodes, nodeSize] at hn
  rw [h.slots] at ht
  obtain ⟨hcount, hlen⟩ := le_sum_stringSize f.strings
  refine ⟨⟨by omega, ?_⟩, by omega, by omega⟩
  intro s hs
  have := hlen s hs
  omega

end FileForm

/-! ## Opening a file -/

variable {α : Type} [Schema α] {settings : Settings} {buf : Buffer} {db : Database α}
  {f g : FileForm}

theorem Buffer.ofList_bytes (buf : Buffer) : ofList buf.bytes = buf := by
  cases buf
  simp [ofList, bytes]

/-- The bytes between two places of a buffer. -/
def Buffer.part (buf : Buffer) (offset n : Nat) : List UInt8 := (buf.bytes.drop offset).take n

theorem Buffer.hasAt_part {offset n : Nat} (h : offset + n ≤ buf.size) :
    HasAt buf.bytes offset (buf.part offset n) ∧ (buf.part offset n).length = n := by
  rw [← Buffer.length_bytes] at h
  refine ⟨.of_le h, ?_⟩
  rw [part, List.length_take, List.length_drop]
  omega

/-- The steps of an opening that succeeds. -/
theorem Database.ofBuffer_eq_ok_iff_steps : Database.ofBuffer α settings buf = .ok db ↔
    settings.check = .ok () ∧ Header.read buf = .ok db.header ∧
      db.header.check settings.verifyChecksum buf = .ok () ∧
      ∃ stop, StringTable.read buf headerSize = .ok (db.strings, stop) ∧
        checkSchema α db.strings = .ok () ∧ readLayout α buf stop = .ok db.layout ∧
        db.buf = buf ∧ db.metric = ⟨settings.longRangeThreshold⟩ := by
  constructor
  · intro h
    have hcheck := check_of_ofBuffer h
    obtain ⟨⟨⟩, -, h⟩ := bind_eq_ok.1 h
    obtain ⟨header, hheader, h⟩ := bind_eq_ok.1 h
    obtain ⟨⟨⟩, hdescribes, h⟩ := bind_eq_ok.1 h
    obtain ⟨⟨strings, stop⟩, hstrings, h⟩ := bind_eq_ok.1 h
    obtain ⟨⟨⟩, hschema, h⟩ := bind_eq_ok.1 h
    obtain ⟨layout, hlayout, h⟩ := bind_eq_ok.1 h
    cases h
    exact ⟨hcheck, hheader, hdescribes, stop, hstrings, hschema, hlayout, rfl, rfl⟩
  · rintro ⟨hcheck, hheader, hdescribes, stop, hstrings, hschema, hlayout, rfl, hmetric⟩
    rw [Database.ofBuffer, hcheck, hheader]
    simp only [Except.mapError, ok_bind, hdescribes, hstrings, hschema, hlayout, ← hmetric]
    rfl

namespace FileForm

/-- The parts of an opened file. -/
def ofDatabase (db : Database α) : FileForm where
  crc := db.header.crc
  date := db.header.date
  strings := db.strings.toList
  count := db.layout.count
  records := db.buf.part db.layout.itemsAt (db.layout.count * db.layout.itemSize)
  geometry := db.layout.geometry
  slots := db.buf.part db.layout.slotsAt (4 * db.layout.geometry.length)
  nodes := db.buf.part db.layout.nodesAt (db.layout.count * nodeSize)

/-- The parts of an opened file stand in their places. -/
theorem placedIn_ofDatabase {ss : List String} (hss : db.strings = ⟨ss.toArray⟩)
    (hstrings : HasAt db.buf.bytes headerSize (stringsBytes ss))
    (h : readLayout α db.buf (headerSize + (stringsBytes ss).length) = .ok db.layout) :
    (ofDatabase db).layout α = db.layout ∧ (ofDatabase db).Sized α ∧
      (ofDatabase db).PlacedIn db.layout db.buf.bytes := by
  obtain ⟨hitems, hsize, -, -, hcounts, hgeometry, hstop⟩ := readLayout_eq_ok.1 h
  have hss' : (ofDatabase db).strings = ss := by simp [ofDatabase, hss, StringTable.toList]
  have hmap : db.layout.mapAt = db.layout.itemsAt + db.layout.count * db.layout.itemSize := rfl
  have hslots : db.layout.slotsAt = db.layout.mapAt + 8 := rfl
  have hnodes := db.layout.nodesAt_eq
  have hend : db.layout.stop = db.layout.nodesAt + db.layout.count * nodeSize := rfl
  have hrecords : db.layout.itemsAt + db.layout.count * db.layout.itemSize ≤ db.buf.size := by omega
  have htable : db.layout.slotsAt + 4 * db.layout.geometry.length ≤ db.buf.size := by omega
  have htree : db.layout.nodesAt + db.layout.count * nodeSize ≤ db.buf.size := by omega
  obtain ⟨hr, hrl⟩ := Buffer.hasAt_part hrecords
  obtain ⟨ht, htl⟩ := Buffer.hasAt_part htable
  obtain ⟨hn, hnl⟩ := Buffer.hasAt_part htree
  refine ⟨?_, ⟨hsize ▸ hrl, htl, hnl⟩, ⟨?_, ?_, hr, (TableGeometry.read_eq_ok.1 hgeometry).1, ht, hn⟩⟩
  · rw [layout, hss', ← hsize, ← hitems]
    rfl
  · rwa [hss']
  · rwa [hss']

/-- **A buffer that is opened is a file**, the one of the parts found in it. -/
theorem isFile_of_ofBuffer [StorableSchema α] (h : Database.ofBuffer α settings buf = .ok db) :
    (ofDatabase db).IsFile α settings.verifyChecksum ∧ buf = .ofList ((ofDatabase db).bytes α) ∧
      db = (ofDatabase db).database α settings := by
  obtain ⟨-, hheader, hcheck, stop, hstrings, hschema, hlayout, rfl, hmetric⟩ :=
    Database.ofBuffer_eq_ok_iff_steps.1 h
  obtain ⟨hmagic, htotal, hcrc⟩ := Header.check_eq_ok.1 hcheck
  obtain ⟨ss, -, hss, htable, rfl⟩ := StringTable.read_eq_ok.1 hstrings
  obtain ⟨hplaces, hsized, hplaced⟩ := placedIn_ofDatabase htable hss hlayout
  obtain ⟨-, -, -, -, -, hgeometry, hstop⟩ := readLayout_eq_ok.1 hlayout
  obtain ⟨-, hpos, hlt, -⟩ := TableGeometry.read_eq_ok.1 hgeometry
  have hlength : headerSize + ((ofDatabase db).body α).length = db.buf.size := by
    rw [← hsized.stop_eq, hplaces, hstop]
  have hheader' : (ofDatabase db).header α = db.header := by
    have htotal' : Int32.ofNat db.buf.size = db.header.totalLength := by
      rw [← ofNat_toNat_toInt (v := db.header.totalLength) (by omega), htotal, Int.toNat_natCast]
    rw [header, hlength, htotal', ← hmagic]
    rfl
  have hbytes : (ofDatabase db).bytes α = db.buf.bytes := by
    have hbody := hsized.hasAt_body (hplaces ▸ hplaced)
    rw [← Header.length_encode db.header, ← Nat.zero_add db.header.encode.length] at hbody
    rw [bytes, hheader']
    apply ((Header.read_eq_ok.1 hheader).append hbody).eq_whole
    rw [List.length_append, Header.length_encode, hlength, Buffer.length_bytes]
  refine ⟨⟨hsized, ?_, hpos, hlt, ?_, ?_⟩, ?_, ?_⟩
  · rw [htable, checkSchema_eq_ok_iff] at hschema
    simpa [ofDatabase, htable, StringTable.toList] using hschema
  · intro hv
    rw [← contentCrc_encode_append ((ofDatabase db).header α), ← bytes, hbytes, hcrc hv]
    rfl
  · have htl := Int32.toInt_lt db.header.totalLength
    rw [hbytes, Buffer.length_bytes]
    omega
  · rw [hbytes, Buffer.ofList_bytes]
  · rw [database, hbytes, Buffer.ofList_bytes, hheader', hplaces, ← hmetric]
    rfl

/-- **A file is opened**, as the database of its parts. -/
theorem IsFile.ofBuffer_eq [StorableSchema α] (h : f.IsFile α settings.verifyChecksum) (hs : settings.check = .ok ()) :
    Database.ofBuffer α settings (.ofList (f.bytes α)) = .ok (f.database α settings) := by
  have hp := h.placedIn
  obtain ⟨hstrings, hcount, hgeometry⟩ := h.fits
  have hlength := length_bytes (α := α) f
  have hlt := h.length_lt
  refine Database.ofBuffer_eq_ok_iff_steps.2 ⟨hs, ?_, ?_,
    headerSize + (stringsBytes f.strings).length, ?_, ?_, ?_, rfl, rfl⟩
  · exact Header.read_eq_ok.2 (hasAt_self _).left
  · refine Header.check_eq_ok.2 ⟨rfl, ?_, ?_⟩
    · rw [← Buffer.length_bytes]
      exact (toInt_ofNat_of_lt (hlength ▸ hlt)).trans (by rw [← hlength]; rfl)
    · intro hv
      exact (contentCrc_encode_append _ _).trans (h.crc hv).symm
  · exact StringTable.read_eq_ok.2 ⟨f.strings, hstrings, hp.strings, rfl, rfl⟩
  · exact checkSchema_eq_ok_iff.2 h.schema
  · refine readLayout_eq_ok.2 ⟨rfl, rfl, hcount, StorableSchema.recordSize_lt, hp.counts, ?_, ?_⟩
    · exact TableGeometry.read_eq_ok.2 ⟨hp.geometry, h.rehash_pos, h.rehash_lt, hgeometry⟩
    · exact h.stop_eq.trans hlength.symm

/-- The parts found in an opened file are its parts. -/
theorem Sized.ofDatabase_database (h : f.Sized α) : ofDatabase (f.database α settings) = f := by
  have hp := h.placedIn
  have hr : (f.database α settings).buf.part (f.layout α).itemsAt
      (f.count * Schema.recordSize α) = f.records := hp.records.take_drop_of_length h.records
  have ht : (f.database α settings).buf.part (f.layout α).slotsAt (4 * f.geometry.length) =
      f.slots := hp.slots.take_drop_of_length h.slots
  have hn : (f.database α settings).buf.part (f.layout α).nodesAt (f.count * nodeSize) =
      f.nodes := hp.nodes.take_drop_of_length h.nodes
  have hs : (f.database α settings).strings.toList = f.strings := by
    simp [database, StringTable.toList]
  exact FileForm.ext rfl rfl hs rfl hr rfl ht hn

/-- **A file has one form.** -/
theorem IsFile.eq_of_bytes_eq [StorableSchema α] {verify : Bool} (hf : f.IsFile α verify)
    (hg : g.IsFile α verify) (h : f.bytes α = g.bytes α) : f = g := by
  -- opened with the same settings, both give the same database
  let settings : Settings := { lenientSettings with verifyChecksum := verify }
  have hs : settings.check = .ok () := (by decide : lenientSettings.check = .ok ())
  have hopen : Database.ofBuffer α settings (.ofList (f.bytes α)) = .ok (f.database α settings) :=
    hf.ofBuffer_eq hs
  have hopen' : Database.ofBuffer α settings (.ofList (g.bytes α)) = .ok (g.database α settings) :=
    hg.ofBuffer_eq hs
  rw [← h] at hopen'
  have hdb := Except.ok.inj (hopen.symm.trans hopen')
  calc f = ofDatabase (f.database α settings) := hf.ofDatabase_database.symm
    _ = ofDatabase (g.database α settings) := by rw [hdb]
    _ = g := hg.ofDatabase_database

end FileForm

/-! ## Opening anything -/

/-- **A buffer that is not opened is refused.** -/
theorem Database.ofBuffer_refuses (hs : settings.check = .ok ()) :
    FailsWith Error.RefusesFile (Database.ofBuffer α settings buf) := by
  rw [Database.ofBuffer, hs]
  apply Header.read_refuses.bind
  intro header _
  apply Header.check_refuses.bind
  intro _ _
  apply StringTable.read_refuses.bind
  rintro ⟨strings, stop⟩ _
  apply checkSchema_refuses.bind
  intro _ _
  apply readLayout_refuses.bind
  intro layout _
  exact .ok _

instance : StorableSchema Place where
  schemaName_ne := by decide
  recordSize_lt := by decide

instance : StorableSchema Airport where
  schemaName_ne := by decide
  recordSize_lt := by decide

/-- **Opening accepts exactly the files.** With checking on, a buffer is opened just if it is a
file of the schema; the file has one form, its parts stand where the layout of the database says,
and whatever else the buffer holds is refused. No offset on the way exceeds a machine word. -/
theorem ofBuffer_eq_ok_iff_isFile [StorableSchema α] (hs : settings.check = .ok ())
    (hv : settings.verifyChecksum = true) (buf : Buffer) :
    (∀ db : Database α, Database.ofBuffer α settings buf = .ok db ↔
      ∃ f : FileForm, f.IsFile α true ∧ buf.bytes = f.bytes α ∧ db = f.database α settings) ∧
    (∀ f g : FileForm, f.IsFile α true → g.IsFile α true →
      buf.bytes = f.bytes α → buf.bytes = g.bytes α → f = g) ∧
    (∀ f : FileForm, f.IsFile α true → buf.bytes = f.bytes α →
      f.PlacedIn (f.layout α) buf.bytes ∧ (f.layout α).stop = buf.size) ∧
    ((¬ ∃ f : FileForm, f.IsFile α true ∧ buf.bytes = f.bytes α) →
      ∃ e, Database.ofBuffer α settings buf = .error e ∧ e.RefusesFile) ∧
    (Database.ofBufferChecked α settings buf).Yields (Database.ofBuffer α settings buf) := by
  have hopens (db : Database α) : Database.ofBuffer α settings buf = .ok db ↔
      ∃ f : FileForm, f.IsFile α true ∧ buf.bytes = f.bytes α ∧ db = f.database α settings := by
    constructor
    · intro h
      obtain ⟨hf, rfl, hdb⟩ := FileForm.isFile_of_ofBuffer h
      exact ⟨_, hv ▸ hf, rfl, hdb⟩
    · rintro ⟨f, hf, hbytes, rfl⟩
      rw [← Buffer.ofList_bytes buf, hbytes]
      exact FileForm.IsFile.ofBuffer_eq (hv ▸ hf) hs
  refine ⟨hopens, ?_, ?_, ?_, Database.yields_ofBufferChecked settings buf⟩
  · intro f g hf hg hbytes hbytes'
    exact hf.eq_of_bytes_eq hg (hbytes.symm.trans hbytes')
  · intro f hf hbytes
    rw [← Buffer.length_bytes, hbytes]
    exact ⟨hf.placedIn, hf.stop_eq.trans (FileForm.length_bytes f).symm⟩
  · intro hno
    cases h : Database.ofBuffer α settings buf with
    | error e => exact ⟨e, rfl, Database.ofBuffer_refuses hs e h⟩
    | ok db =>
      obtain ⟨f, hf, hbytes, -⟩ := (hopens db).1 h
      exact absurd ⟨f, hf, hbytes⟩ hno

/-- A form with the check value that its file has to have. -/
def FileForm.withCrc (α : Type) [Schema α] (f : FileForm) : FileForm :=
  { f with crc := (crc32 (f.body α)).toInt32 }

theorem FileForm.crc_withCrc (f : FileForm) :
    (f.withCrc α).crc = (crc32 ((f.withCrc α).body α)).toInt32 := rfl

/-- A file of one record, in which nothing but the sizes makes sense. -/
def scribbledForm (α : Type) [Schema α] : FileForm :=
  .withCrc α ⟨0, 7, [Schema.schemaName α, "é"], 1, List.replicate (Schema.recordSize α) 0x80, ⟨2, 1⟩,
    List.replicate 8 0x80, List.replicate 12 0x80⟩

theorem isFile_scribbledForm (α : Type) [Schema α] [StorableSchema α]
    (h : ((scribbledForm α).layout α).stop < 0x80000000) :
    (scribbledForm α).IsFile α true := by
  have hsized : (scribbledForm α).Sized α :=
    ⟨by simp [scribbledForm, FileForm.withCrc], rfl, rfl⟩
  refine ⟨hsized, rfl, Nat.one_pos, Nat.one_lt_two, fun _ => FileForm.crc_withCrc _, ?_⟩
  rwa [FileForm.length_bytes, ← hsized.stop_eq]

theorem ofBuffer_eq_ok_iff_isFile_scribbled :
    lenientSettings.check = .ok () ∧ lenientSettings.verifyChecksum = true ∧
      Database.ofBuffer Place lenientSettings (.ofList ((scribbledForm Place).bytes Place)) =
        .ok ((scribbledForm Place).database Place lenientSettings) ∧
      Database.ofBuffer Airport lenientSettings (.ofList ((scribbledForm Airport).bytes Airport)) =
        .ok ((scribbledForm Airport).database Airport lenientSettings) ∧
      ∃ e, Database.ofBuffer Place lenientSettings (.ofList []) = .error e ∧ e.RefusesFile := by
  have hs : lenientSettings.check = .ok () := by decide
  have hplace := (ofBuffer_eq_ok_iff_isFile (α := Place) hs rfl
    (.ofList ((scribbledForm Place).bytes Place))).1
  have hairport := (ofBuffer_eq_ok_iff_isFile (α := Airport) hs rfl
    (.ofList ((scribbledForm Airport).bytes Airport))).1
  have hempty := (ofBuffer_eq_ok_iff_isFile (α := Place) hs rfl (.ofList [])).2.2.2.1
  refine ⟨hs, rfl, ?_, ?_, hempty ?_⟩
  · exact (hplace _).2 ⟨_, isFile_scribbledForm Place (by decide), rfl, rfl⟩
  · exact (hairport _).2 ⟨_, isFile_scribbledForm Airport (by decide), rfl, rfl⟩
  · rintro ⟨f, -, hbytes⟩
    have hlength := FileForm.length_bytes (α := Place) f
    rw [← hbytes, headerSize, Buffer.bytes_ofList, List.length_nil] at hlength
    omega

end Gazetteer
