import Gazetteer.Database.Basic
import Gazetteer.Proofs.AnyBytes
import Gazetteer.Proofs.Packing
import Gazetteer.Proofs.Pooling

/-!
# What each part of the opening accepts

Opening reads a header, a list of strings and a layout. Each of them is accepted just if it stands
in the buffer as it would have been written, and each fails, if it fails, by refusing the file.
-/

namespace Gazetteer

/-- The errors by which a file is refused: it is no database, it is one of another schema, or it is
cut off inside its strings or counts. -/
inductive Error.RefusesFile : Error → Prop
  | format (cause : FormatError) : RefusesFile (.invalidFormat cause)
  | schema (expected found : String) : RefusesFile (.schemaMismatch expected found)
  | damage (cause : Damage) : RefusesFile (.corrupted cause)

theorem Error.IsDamage.refusesFile (e : Error) (h : e.IsDamage) : e.RefusesFile := by
  obtain ⟨cause, rfl⟩ := h
  exact .damage cause

variable {buf : Buffer} {offset : Nat}

theorem Buffer.readInt32_refuses : FailsWith Error.RefusesFile (buf.readInt32 offset) :=
  readInt32_failsWith.mono Error.IsDamage.refusesFile

theorem Buffer.slice_refuses {length : Nat} :
    FailsWith Error.RefusesFile (buf.slice offset length) :=
  slice_failsWith.mono Error.IsDamage.refusesFile

/-! ## The header -/

namespace Header

variable {h : Header} {verify : Bool}

theorem read_eq_ok : Header.read buf = .ok h ↔ HasAt buf.bytes 0 h.encode := by
  constructor
  · intro hr
    unfold read at hr
    split at hr
    · cases hr
    · obtain ⟨m, hm, hr⟩ := bind_eq_ok.1 hr
      obtain ⟨t, ht, hr⟩ := bind_eq_ok.1 hr
      obtain ⟨c, hc, hr⟩ := bind_eq_ok.1 hr
      obtain ⟨d, hd, hr⟩ := bind_eq_ok.1 hr
      cases hr
      obtain ⟨hdate, hlen⟩ := Buffer.slice_eq_ok.1 hd
      rw [← int64Bytes_int64OfBytes hlen] at hdate
      have h8 : HasAt buf.bytes 8 _ := (Buffer.readInt32_eq_ok.1 hc).append hdate
      have h4 : HasAt buf.bytes 4 _ := (Buffer.readInt32_eq_ok.1 ht).append h8
      exact (Buffer.readInt32_eq_ok.1 hm).append h4
  · exact read_of_hasAt

theorem read_refuses : FailsWith Error.RefusesFile (Header.read buf) := by
  unfold read
  split
  · exact .error (.format _)
  · apply Buffer.readInt32_refuses.bind
    intro m _
    apply Buffer.readInt32_refuses.bind
    intro t _
    apply Buffer.readInt32_refuses.bind
    intro c _
    apply Buffer.slice_refuses.bind
    intro d _
    exact .ok _

/-- A header passes if it has the magic word and describes the buffer. -/
theorem check_eq_ok : h.check verify buf = .ok () ↔ h.magic = headerMagic ∧
    h.totalLength.toInt = buf.size ∧ (verify = true → contentCrc buf.bytes = h.crc) := by
  unfold check
  by_cases hm : h.magic = headerMagic
  · by_cases ht : h.totalLength.toInt = buf.size
    · by_cases hc : contentCrc buf.bytes = h.crc
      · cases verify <;> simp [hm, ht, hc]
      · cases verify <;> simp [hm, ht, hc]
    · simp [hm, ht]
  · simp [hm]

theorem check_failsWith_format :
    FailsWith (fun e => ∃ cause, e = .invalidFormat cause) (h.check verify buf) := by
  unfold check
  by_cases hm : h.magic = headerMagic
  · by_cases ht : h.totalLength.toInt = buf.size
    · by_cases hc : contentCrc buf.bytes = h.crc
      · cases verify <;> simp [hm, ht, hc, FailsWith]
      · cases verify <;> simp [hm, ht, hc, FailsWith]
    · simp [hm, ht, FailsWith]
  · simp [hm, FailsWith]

theorem check_refuses : FailsWith Error.RefusesFile (h.check verify buf) := by
  intro e he
  obtain ⟨cause, rfl⟩ := check_failsWith_format e he
  exact .format cause

end Header

/-! ## The strings -/

/-- A string as it stands in a file: length, bytes, zero. -/
def stringBytes (s : String) : List UInt8 :=
  int32Bytes (.ofNat (utf8Bytes s).length) ++ (utf8Bytes s ++ [0])

/-- The strings as they stand in a file: count, then each string. -/
def stringsBytes (ss : List String) : List UInt8 :=
  int32Bytes (.ofNat ss.length) ++ ss.flatMap stringBytes

theorem length_stringBytes (s : String) : (stringBytes s).length = (utf8Bytes s).length + 5 := by
  simp [stringBytes]
  omega

theorem mapM_encodeString {ss : List String} (h : ∀ s ∈ ss, (utf8Bytes s).length < 0x80000000) :
    ss.mapM encodeString = .ok (ss.map stringBytes) :=
  mapM_eq_ok_map fun s hs => encodeString_eq_ok.2 ⟨h s hs, rfl⟩

theorem decodeText_eq_ok {index : Nat} {content : List UInt8} {terminator : UInt8} {s : String} :
    decodeText index content terminator = .ok s ↔ terminator = 0 ∧ content = utf8Bytes s := by
  constructor
  · intro h
    unfold decodeText at h
    split at h
    · cases h
    · rename_i hz
      refine ⟨by simpa using hz, ?_⟩
      split at h
      · rename_i t ht
        cases h
        unfold String.fromUTF8? at ht
        split at ht
        · cases ht
          simp [utf8Bytes, String.fromUTF8]
        · cases ht
      · cases h
  · rintro ⟨rfl, rfl⟩
    exact decodeText_utf8Bytes index s

theorem decodeText_refuses {index : Nat} {content : List UInt8} {terminator : UInt8} :
    FailsWith Error.RefusesFile (decodeText index content terminator) := by
  unfold decodeText
  split
  · exact .error (.format _)
  · split
    · exact .ok _
    · exact .error (.format _)

/-- A text and the byte after it are the bytes that were read for them. -/
theorem take_append_getD {bytes : List UInt8} {n : Nat} (h : bytes.length = n + 1) :
    bytes.take n ++ [bytes.getD n 0] = bytes := by
  have hlt : n < bytes.length := by omega
  have hlast : bytes.getD n 0 = bytes[n] := by simp [hlt]
  rw [hlast, List.take_append_getElem, ← h, List.take_length]

theorem readString_eq_ok {index next : Nat} {s : String} :
    readString buf index offset = .ok (s, next) ↔ (utf8Bytes s).length < 0x80000000 ∧
      HasAt buf.bytes offset (stringBytes s) ∧ next = offset + (stringBytes s).length := by
  constructor
  · intro h
    obtain ⟨length, hl, h⟩ := bind_eq_ok.1 h
    have hlt := Int32.toInt_lt length
    split at h
    · cases h
    · rename_i hneg
      obtain ⟨bytes, hb, h⟩ := bind_eq_ok.1 h
      obtain ⟨t, ht, h⟩ := bind_eq_ok.1 h
      cases h
      obtain ⟨hat, hlen⟩ := Buffer.slice_eq_ok.1 hb
      obtain ⟨hzero, htext⟩ := decodeText_eq_ok.1 ht
      have hn : (utf8Bytes s).length = length.toInt.toNat := by
        rw [← htext, List.length_take]
        omega
      have hsplit := take_append_getD hlen
      rw [hzero, htext] at hsplit
      have hword : int32Bytes length = int32Bytes (.ofNat (utf8Bytes s).length) := by
        rw [hn, ofNat_toNat_toInt (by omega)]
      have hlength := Buffer.readInt32_eq_ok.1 hl
      rw [hword] at hlength
      refine ⟨by omega, ?_, ?_⟩
      · exact hlength.append (by rwa [hsplit, length_int32Bytes])
      · rw [length_stringBytes, hn]
        omega
  · rintro ⟨hlt, h, rfl⟩
    exact readString_encodeString (encodeString_eq_ok.2 ⟨hlt, rfl⟩) h

theorem readString_refuses {index : Nat} :
    FailsWith Error.RefusesFile (readString buf index offset) := by
  apply Buffer.readInt32_refuses.bind
  intro length _
  split
  · exact .error (.format _)
  · apply Buffer.slice_refuses.bind
    intro bytes _
    apply decodeText_refuses.bind
    intro s _
    exact .ok _

/-- Strings are read just if they stand there one after another. -/
theorem readStringsFrom_eq_ok {count index stop : Nat} {ss : List String}
    (hle : offset ≤ buf.size) : readStringsFrom buf count index offset = .ok (ss, stop) ↔
      ss.length = count ∧ (∀ s ∈ ss, (utf8Bytes s).length < 0x80000000) ∧
      HasAt buf.bytes offset (ss.flatMap stringBytes) ∧
      stop = offset + (ss.flatMap stringBytes).length := by
  constructor
  · intro h
    induction count generalizing index offset ss with
    | zero =>
      cases h
      refine ⟨rfl, by simp, ?_, by simp⟩
      exact .of_le (n := 0) (by rwa [Nat.add_zero, Buffer.length_bytes])
    | succ count ih =>
      obtain ⟨⟨s, next⟩, hs, h⟩ := bind_eq_ok.1 h
      obtain ⟨⟨rest, _⟩, hrest, h⟩ := bind_eq_ok.1 h
      cases h
      obtain ⟨hlt, hat, rfl⟩ := readString_eq_ok.1 hs
      have hnext := hat.le_length
      rw [Buffer.length_bytes] at hnext
      obtain ⟨rfl, hall, hats, rfl⟩ := ih hnext hrest
      refine ⟨rfl, ?_, ?_, ?_⟩
      · exact List.forall_mem_cons.2 ⟨hlt, hall⟩
      · exact hat.append hats
      · rw [List.flatMap_cons, List.length_append, Nat.add_assoc]
  · rintro ⟨rfl, hall, h, rfl⟩
    exact readStringsFrom_encode (mapM_encodeString hall) h

theorem readStringsFrom_refuses {count index : Nat} :
    FailsWith Error.RefusesFile (readStringsFrom buf count index offset) := by
  induction count generalizing index offset with
  | zero => exact .ok _
  | succ count ih =>
    apply readString_refuses.bind
    rintro ⟨s, next⟩ _
    apply ih.bind
    rintro ⟨ss, stop⟩ _
    exact .ok _

namespace StringTable

variable {table : StringTable} {stop : Nat}

/-- **A table of strings is read just if it stands there as it would have been written.** -/
theorem read_eq_ok : StringTable.read buf offset = .ok (table, stop) ↔
    ∃ ss : List String, (ss.length < 0x80000000 ∧ ∀ s ∈ ss, (utf8Bytes s).length < 0x80000000) ∧
      HasAt buf.bytes offset (stringsBytes ss) ∧ table = ⟨ss.toArray⟩ ∧
      stop = offset + (stringsBytes ss).length := by
  constructor
  · intro h
    obtain ⟨count, hc, h⟩ := bind_eq_ok.1 h
    have hlt := Int32.toInt_lt count
    split at h
    · cases h
    · rename_i hneg
      obtain ⟨⟨ss, _⟩, hss, h⟩ := bind_eq_ok.1 h
      cases h
      have hcount := Buffer.readInt32_eq_ok.1 hc
      have hle := hcount.le_length
      rw [length_int32Bytes, Buffer.length_bytes] at hle
      obtain ⟨hlen, hall, hat, rfl⟩ := (readStringsFrom_eq_ok hle).1 hss
      have hword : int32Bytes count = int32Bytes (.ofNat ss.length) := by
        rw [hlen, ofNat_toNat_toInt (by omega)]
      rw [hword] at hcount
      refine ⟨ss, ⟨by omega, hall⟩, ?_, rfl, ?_⟩
      · exact hcount.append (by rwa [length_int32Bytes])
      · simp [stringsBytes, Nat.add_assoc]
  · rintro ⟨ss, ⟨hlen, hall⟩, h, rfl, rfl⟩
    refine read_encodeStrings ?_ h
    refine bind_eq_ok.2 ⟨_, toInt32_eq_ok.2 ⟨hlen, rfl⟩, ?_⟩
    rw [mapM_encodeString hall, ok_bind, ← List.flatMap_def]
    rfl

theorem read_refuses : FailsWith Error.RefusesFile (StringTable.read buf offset) := by
  apply Buffer.readInt32_refuses.bind
  intro count _
  split
  · exact .error (.format _)
  · apply readStringsFrom_refuses.bind
    rintro ⟨ss, stop⟩ _
    exact .ok _

end StringTable

/-! ## The schema and the layout -/

/-- A schema that a file can be marked with: its name is not empty, and a file can hold its
records. -/
class StorableSchema (α : Type) [Schema α] : Prop where
  schemaName_ne : Schema.schemaName α ≠ ""
  recordSize_lt : Schema.recordSize α < 0x80000000

section
variable {α : Type} [Schema α]

/-- Strings pass just if the name of the schema comes first. -/
theorem checkSchema_eq_ok_iff [StorableSchema α] {ss : List String} :
    checkSchema α ⟨ss.toArray⟩ = .ok () ↔ ss.head? = some (Schema.schemaName α) := by
  have hget : (⟨ss.toArray⟩ : StringTable).get? 0 = ss.head? := by
    simp [StringTable.get?, List.head?_eq_getElem?]
  rw [checkSchema, hget]
  cases hs : ss.head? with
  | none => simp [StorableSchema.schemaName_ne.symm]
  | some s => simp

theorem checkSchema_refuses {table : StringTable} :
    FailsWith Error.RefusesFile (checkSchema α table) := by
  unfold checkSchema
  dsimp only
  split
  · exact .ok ()
  · exact .error (.schema _ _)

namespace TableGeometry

variable {g : TableGeometry}

/-- The two words of a geometry as they stand in a file. -/
def bytes (g : TableGeometry) : List UInt8 :=
  int32Bytes (.ofNat g.length) ++ int32Bytes (.ofNat g.rehash)

theorem read_eq_ok : TableGeometry.read buf offset = .ok g ↔ HasAt buf.bytes offset g.bytes ∧
    0 < g.rehash ∧ g.rehash < g.length ∧ g.length < 0x80000000 := by
  constructor
  · intro h
    obtain ⟨length, hl, h⟩ := bind_eq_ok.1 h
    obtain ⟨rehash, hr, h⟩ := bind_eq_ok.1 h
    have hlt := Int32.toInt_lt length
    split at h
    · cases h
    · rename_i hin
      cases h
      have hlength := Buffer.readInt32_eq_ok.1 hl
      have hrehash := Buffer.readInt32_eq_ok.1 hr
      refine ⟨?_, by dsimp only; omega, by dsimp only; omega, by dsimp only; omega⟩
      rw [bytes, ofNat_toNat_toInt (by omega), ofNat_toNat_toInt (by omega)]
      exact hlength.append (by rwa [length_int32Bytes])
  · rintro ⟨h, hpos, hlt, hsmall⟩
    have hrehash := h.after (offset + 4) (by rw [length_int32Bytes])
    rw [read, Buffer.readInt32_of_hasAt h.left, ok_bind, Buffer.readInt32_of_hasAt hrehash, ok_bind,
      toInt_ofNat_of_lt hsmall, toInt_ofNat_of_lt (by omega), if_neg (by omega)]
    rfl

theorem read_refuses : FailsWith Error.RefusesFile (TableGeometry.read buf offset) := by
  apply Buffer.readInt32_refuses.bind
  intro length _
  apply Buffer.readInt32_refuses.bind
  intro rehash _
  split
  · exact .error (.format _)
  · exact .ok _

end TableGeometry

/-- **A layout is read just if its counts stand there and the sections fill the buffer.** -/
theorem readLayout_eq_ok {l : Layout} :
    readLayout α buf offset = .ok l ↔ l.itemsAt = offset + 8 ∧ l.itemSize = Schema.recordSize α ∧
      l.count < 0x80000000 ∧ l.itemSize < 0x80000000 ∧
      HasAt buf.bytes offset (int32Bytes (.ofNat l.count) ++ int32Bytes (.ofNat l.itemSize)) ∧
      TableGeometry.read buf l.mapAt = .ok l.geometry ∧ l.stop = buf.size := by
  constructor
  · intro h
    obtain ⟨count, hc, h⟩ := bind_eq_ok.1 h
    obtain ⟨size, hs, h⟩ := bind_eq_ok.1 h
    have hcount := Int32.toInt_lt count
    have hword := Int32.toInt_lt size
    split at h
    · cases h
    · rename_i hneg
      dsimp only at h
      split at h
      · cases h
      · rename_i hsize
        obtain ⟨g, hg, h⟩ := bind_eq_ok.1 h
        split at h
        · cases h
        · rename_i hstop
          cases h
          have hsize' : Int32.ofNat (Schema.recordSize α) = size := by
            have := ofNat_toNat_toInt (v := size) (by omega)
            rwa [show size.toInt.toNat = Schema.recordSize α by omega] at this
          refine ⟨rfl, rfl, by dsimp only; omega, by dsimp only; omega, ?_, hg,
            by simpa using hstop⟩
          dsimp only
          rw [ofNat_toNat_toInt (by omega), hsize']
          exact (Buffer.readInt32_eq_ok.1 hc).append
            (by rw [length_int32Bytes]; exact Buffer.readInt32_eq_ok.1 hs)
  · rintro ⟨hitems, hsize, hcount, hsmall, h, hg, hstop⟩
    rw [hsize] at hsmall
    have hsecond := h.after (offset + 4) (by rw [length_int32Bytes])
    have hmap : offset + 8 + l.count * Schema.recordSize α = l.mapAt := by
      rw [Layout.mapAt, Layout.itemAt, hitems, hsize]
    have hlayout : (⟨offset + 8, Schema.recordSize α, l.count, l.geometry⟩ : Layout) = l := by
      rw [← hitems, ← hsize]
    rw [readLayout, Buffer.readInt32_of_hasAt h.left, ok_bind, Buffer.readInt32_of_hasAt hsecond,
      ok_bind, toInt_ofNat_of_lt hcount, hsize, toInt_ofNat_of_lt hsmall]
    simp only [Int.toNat_natCast, hmap, hg, ok_bind, hlayout, hstop]
    simp

theorem readLayout_refuses : FailsWith Error.RefusesFile (readLayout α buf offset) := by
  apply Buffer.readInt32_refuses.bind
  intro count _
  apply Buffer.readInt32_refuses.bind
  intro size _
  split
  · exact .error (.format _)
  · dsimp only
    split
    · exact .error (.format _)
    · apply TableGeometry.read_refuses.bind
      intro g _
      split
      · exact .error (.format _)
      · exact .ok _

end
end Gazetteer
