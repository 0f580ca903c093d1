import Gazetteer.Proofs.AnyRecord
import Gazetteer.Proofs.Fitting
import Gazetteer.Proofs.Listing

/-!
# Records written again

A table and the pool of its strings refer to a string by the same word. A record is therefore read
just if its references have strings, and an item that was read is written again as the record that
it was read from. Only a flag is not kept: it is read as whether a word is zero.
-/

namespace Gazetteer

/-! ## References -/

theorem foldl_addOccurrence_of_nodup {seen ss : List String} (h : (seen ++ ss).Nodup) :
    ss.foldl addOccurrence seen = seen ++ ss := by
  induction ss generalizing seen with
  | nil => simp
  | cons s ss ih =>
    have hs : s ∉ seen := fun hmem => (List.nodup_append.1 h).2.2 s hmem s (by simp) rfl
    have happ : seen ++ s :: ss = (seen ++ [s]) ++ ss := by simp
    rw [List.foldl_cons, addOccurrence, if_neg hs, happ]
    exact ih (happ ▸ h)

/-- The pool of the strings of a table. -/
def StringTable.pool (table : StringTable) : StringPool := (∅ : StringPool).insertMany table.toList

namespace StringTable

variable {buf : Buffer} {offset stop : Nat} {table : StringTable} {s : String} {v : Int32}

theorem indexed_pool (table : StringTable) : table.pool.Indexed :=
  StringPool.indexed_empty.insertMany table.toList

/-- Distinct strings are all new. -/
theorem toList_pool (h : table.toList.Nodup) : table.pool.toList = table.toList := by
  rw [pool, StringPool.toList_insertMany_empty]
  exact foldl_addOccurrence_of_nodup h

/-- The number of strings that were read is a word of the file format. -/
theorem size_lt_of_read (h : StringTable.read buf offset = .ok (table, stop)) :
    table.size < 0x80000000 := by
  have hlen := (read_eq_ok_iff_fitsWords.1 h).1.1
  rwa [toList, Array.length_toList] at hlen

theorem resolve_eq_ok :
    table.resolve v = .ok s ↔ 0 ≤ v.toInt ∧ table.toList[v.toInt.toNat]? = some s := by
  have hlist : table.toList[v.toInt.toNat]? = table.strings[v.toInt.toNat]? := Array.getElem?_toList
  rw [hlist, resolve, get?]
  by_cases hv : 0 ≤ v.toInt
  · rw [if_pos hv]
    cases table.strings[v.toInt.toNat]? <;> simp [hv]
  · simp [hv]

/-- A reference has a string if it is a place in the table. -/
theorem exists_resolve_iff :
    (∃ s, table.resolve v = .ok s) ↔ 0 ≤ v.toInt ∧ v.toInt < table.size := by
  have hlen : table.toList.length = table.size := Array.length_toList
  constructor
  · rintro ⟨s, hs⟩
    obtain ⟨hv, hget⟩ := resolve_eq_ok.1 hs
    have hlt := (List.getElem?_eq_some_iff.1 hget).1
    omega
  · rintro ⟨hv, hlt⟩
    have hplace : v.toInt.toNat < table.toList.length := by omega
    exact ⟨_, resolve_eq_ok.2 ⟨hv, List.getElem?_eq_getElem hplace⟩⟩

/-- A pool and a table refer to a string by the same word. -/
def Mirrors (table : StringTable) (pool : StringPool) : Prop :=
  ∀ s v, pool.require s = .ok v ↔ table.resolve v = .ok s

theorem mirrors_pool (hsize : table.size < 0x80000000) (hdistinct : table.toList.Nodup) :
    table.Mirrors table.pool := by
  intro s v
  have hlen : table.toList.length = table.size := Array.length_toList
  rw [resolve_eq_ok, ← toList_pool hdistinct]
  constructor
  · intro hv
    obtain ⟨i, hi, rfl⟩ := table.indexed_pool.of_require hv
    have hlt : i < table.pool.toList.length := (List.getElem?_eq_some_iff.1 hi).1
    rw [toList_pool hdistinct] at hlt
    rw [toInt_ofNat_of_lt (by omega)]
    exact ⟨by omega, hi⟩
  · rintro ⟨hv, hs⟩
    rw [StringPool.require, (table.indexed_pool s _).2 hs]
    exact congrArg Except.ok (ofNat_toNat_toInt hv)

end StringTable

/-! ## Words that were read -/

/-- The binary32 number at a place in a record. -/
def real32At (bytes : List UInt8) (offset : Nat) : Binary32 :=
  real32OfBytes ((bytes.drop offset).take 4)

section
variable {whole : List UInt8} {offset : Nat}

theorem length_take_drop {n : Nat} (h : offset + n ≤ whole.length) :
    ((whole.drop offset).take n).length = n := by
  rw [List.length_take, List.length_drop]
  omega

/-- A word stands where it is read. -/
theorem hasAt_int32At (h : offset + 4 ≤ whole.length) :
    HasAt whole offset (int32Bytes (int32At whole offset)) := by
  rw [int32At, int32Bytes_int32OfBytes (length_take_drop h)]
  exact .of_le h

theorem hasAt_real64At (h : offset + 8 ≤ whole.length) :
    HasAt whole offset (real64Bytes (real64At whole offset)) := by
  rw [real64At, real64Bytes_real64OfBytes (length_take_drop h)]
  exact .of_le h

theorem hasAt_real32At (h : offset + 4 ≤ whole.length) :
    HasAt whole offset (real32Bytes (real32At whole offset)) := by
  rw [real32At, real32Bytes_real32OfBytes (length_take_drop h)]
  exact .of_le h

theorem int32At_drop (bytes : List UInt8) (n k : Nat) :
    int32At (bytes.drop n) k = int32At bytes (n + k) := by
  rw [int32At, List.drop_drop, int32At]

end

/-! ## Common fields -/

namespace ItemBase

variable {table : StringTable} {record : List UInt8} {b : ItemBase}

/-- The common fields that were read stand in the record. -/
theorem hasAt_of_decode (hsize : baseSize ≤ record.length) (h : decode table record = .ok b) :
    HasAt record 0 (b.encode (int32At record nameIndexOffset)) := by
  unfold baseSize at hsize
  obtain ⟨name, -, h⟩ := bind_eq_ok.1 h
  cases h
  have h52 : HasAt record 52 (int32Bytes (int32At record nameIndexOffset)) :=
    hasAt_int32At (by omega)
  have h44 : HasAt record 44 _ := (hasAt_real64At (by omega)).before h52 rfl
  have h36 : HasAt record 36 _ := (hasAt_real64At (by omega)).before h44 rfl
  have h28 : HasAt record 28 _ := (hasAt_real64At (by omega)).before h36 rfl
  have h20 : HasAt record 20 _ := (hasAt_real64At (by omega)).before h28 rfl
  have h12 : HasAt record 12 _ := (hasAt_real64At (by omega)).before h20 rfl
  have h4 : HasAt record 4 _ := (hasAt_real64At (by omega)).before h12 rfl
  exact (hasAt_int32At (by omega)).before h4 rfl

theorem decode_name (h : decode table record = .ok b) :
    table.resolve (int32At record nameIndexOffset) = .ok b.name := by
  obtain ⟨name, hname, h⟩ := bind_eq_ok.1 h
  cases h
  exact hname

theorem exists_decode_iff : (∃ b, decode table record = .ok b) ↔
    ∃ s, table.resolve (int32At record nameIndexOffset) = .ok s := by
  constructor
  · rintro ⟨b, hb⟩
    exact ⟨_, decode_name hb⟩
  · rintro ⟨s, hs⟩
    exact ⟨_, bind_eq_ok.2 ⟨s, hs, rfl⟩⟩

end ItemBase

/-! ## Payloads -/

section
variable {β : Type} {table : StringTable} {v w : Int32} {f : String → String → β} {x : β}

/-- Two references are resolved one after the other. -/
theorem StringTable.resolve_resolve_eq_ok :
    (do let s ← table.resolve v; let t ← table.resolve w; return f s t) = Except.ok x ↔
      ∃ s t, table.resolve v = .ok s ∧ table.resolve w = .ok t ∧ x = f s t := by
  constructor
  · intro h
    obtain ⟨s, hs, h⟩ := bind_eq_ok.1 h
    obtain ⟨t, ht, h⟩ := bind_eq_ok.1 h
    cases h
    exact ⟨s, t, hs, ht, rfl⟩
  · rintro ⟨s, t, hs, ht, rfl⟩
    exact bind_eq_ok.2 ⟨s, hs, bind_eq_ok.2 ⟨t, ht, rfl⟩⟩

theorem StringTable.exists_resolve_resolve_iff :
    (∃ x, (do let s ← table.resolve v; let t ← table.resolve w; return f s t) = Except.ok x) ↔
      (∃ s, table.resolve v = .ok s) ∧ ∃ t, table.resolve w = .ok t := by
  simp only [resolve_resolve_eq_ok]
  constructor
  · rintro ⟨_, s, t, hs, ht, -⟩
    exact ⟨⟨s, hs⟩, t, ht⟩
  · rintro ⟨⟨s, hs⟩, t, ht⟩
    exact ⟨_, s, t, hs, ht, rfl⟩

end

/-- A text that a table has is written as its reference. -/
theorem RecordField.mapM_encode_text {table : StringTable} {pool : StringPool} {v : Int32}
    {s : String} {fs : List RecordField} {pieces : List (List UInt8)} (hsame : table.Mirrors pool)
    (hs : table.resolve v = .ok s) (hfs : fs.mapM (RecordField.encode pool) = .ok pieces) :
    (.text s :: fs).mapM (RecordField.encode pool) = .ok (int32Bytes v :: pieces) :=
  mapM_cons_eq_ok.2 ⟨_, _, encode_text_eq_ok.2 ⟨v, (hsame s v).2 hs, rfl⟩, hfs, rfl⟩

/-- A payload that starts with two references is read if they have strings, and the item is written
again with the canonical form of the payload. -/
structure Schema.CanonicalPayload (α : Type) [Schema α] (canonical : List UInt8 → List UInt8) :
    Prop where
  exists_iff : ∀ (base : ItemBase) (bytes : List UInt8) (table : StringTable),
    (∃ x : α, Schema.ofPayload base bytes table = .ok x) ↔
      (∃ s, table.resolve (int32At bytes 0) = .ok s) ∧ ∃ s, table.resolve (int32At bytes 4) = .ok s
  encode : ∀ {base : ItemBase} {bytes : List UInt8} {table : StringTable} {pool : StringPool}
    {x : α}, table.Mirrors pool → bytes.length = Schema.payloadSize α →
    Schema.ofPayload base bytes table = .ok x →
    ∃ pieces, (Schema.payload x).mapM (RecordField.encode pool) = .ok pieces ∧
      pieces.flatten = canonical bytes
  /-- The strings of an item are texts of its payload. -/
  text_mem : ∀ (x : α) s, s ∈ Schema.strings x → .text s ∈ Schema.payload x

namespace Place

variable {base : ItemBase} {bytes : List UInt8} {table : StringTable} {p : Place}

theorem ofPayload_eq_ok : ofPayload base bytes table = .ok p ↔ ∃ kind description,
    table.resolve (int32At bytes 0) = .ok kind ∧
      table.resolve (int32At bytes 4) = .ok description ∧ p = ⟨base, kind, description⟩ :=
  StringTable.resolve_resolve_eq_ok

theorem canonicalPayload : Schema.CanonicalPayload Place id where
  exists_iff _ _ _ := StringTable.exists_resolve_resolve_iff
  encode := by
    intro base bytes table pool p hsame hsize hp
    have hlength : bytes.length = 8 := hsize
    obtain ⟨kind, description, hkind, hdescription, rfl⟩ := ofPayload_eq_ok.1 hp
    refine ⟨_, RecordField.mapM_encode_text hsame hkind
      (RecordField.mapM_encode_text hsame hdescription rfl), ?_⟩
    have h4 : HasAt bytes 4 (int32Bytes (int32At bytes 4)) := hasAt_int32At (by omega)
    have h0 : HasAt bytes 0 _ := (hasAt_int32At (by omega)).before h4 rfl
    have hall := h0.eq_whole (by simp [hlength])
    simpa using hall
  text_mem p s hs := by
    rw [payload_eq]
    simpa [Schema.strings] using hs

end Place

namespace Airport

variable {base : ItemBase} {bytes : List UInt8} {table : StringTable} {a : Airport}

/-- A payload with the word of the flag as it is written. -/
def canonical (bytes : List UInt8) : List UInt8 :=
  if int32At bytes 16 = 0 then bytes else bytes.take 16 ++ int32Bytes 1

theorem canonical_eq (h : bytes.length = 20) :
    canonical bytes = bytes.take 16 ++ int32Bytes (flagWord (int32At bytes 16 ≠ 0)) := by
  rw [canonical]
  by_cases hflag : int32At bytes 16 = 0
  · have hword : flagWord (int32At bytes 16 ≠ 0) = int32At bytes 16 := by simp [hflag, flagWord]
    have hcut : HasAt bytes 0 (bytes.take 16) := .of_le (by omega)
    have h16 : HasAt bytes 16 (int32Bytes (int32At bytes 16)) := hasAt_int32At (by omega)
    have hall := (hcut.before h16 (by simp [h])).eq_whole (by simp [h])
    rw [if_pos hflag, hword, hall]
  · have hword : flagWord (int32At bytes 16 ≠ 0) = 1 := by simp [hflag, flagWord]
    rw [if_neg hflag, hword]

theorem ofPayload_eq_ok : ofPayload base bytes table = .ok a ↔ ∃ city country,
    table.resolve (int32At bytes 0) = .ok city ∧ table.resolve (int32At bytes 4) = .ok country ∧
      a = ⟨base, city, country, real32At bytes 8, int32At bytes 12, int32At bytes 16 ≠ 0⟩ :=
  StringTable.resolve_resolve_eq_ok

theorem canonicalPayload : Schema.CanonicalPayload Airport canonical where
  exists_iff _ _ _ := StringTable.exists_resolve_resolve_iff
  encode := by
    intro base bytes table pool a hsame hsize ha
    have hlength : bytes.length = 20 := hsize
    obtain ⟨city, country, hcity, hcountry, rfl⟩ := ofPayload_eq_ok.1 ha
    refine ⟨_, RecordField.mapM_encode_text hsame hcity
      (RecordField.mapM_encode_text hsame hcountry rfl), ?_⟩
    have h12 : HasAt bytes 12 (int32Bytes (int32At bytes 12)) := hasAt_int32At (by omega)
    have h8 : HasAt bytes 8 _ := (hasAt_real32At (by omega)).before h12 rfl
    have h4 : HasAt bytes 4 _ := (hasAt_int32At (by omega)).before h8 rfl
    have h0 : HasAt bytes 0 _ := (hasAt_int32At (by omega)).before h4 rfl
    have hcut := h0.eq_take (n := 16) rfl
    rw [canonical_eq hlength, ← hcut]
    simp [flagWord]
  text_mem a s hs := by
    rw [payload_eq]
    simpa [Schema.strings] using hs

end Airport

/-! ## Records -/

/-- The places of the references in a record: the name, then those of the payload. -/
def referencePlaces : List Nat := [nameIndexOffset, baseSize, baseSize + 4]

namespace Schema

variable {α : Type} [Schema α] {canonical : List UInt8 → List UInt8} {buf : Buffer} {offset : Nat}
  {table : StringTable} {pool : StringPool} {record : List UInt8} {x : α}

theorem readItem_of_hasAt (hat : HasAt buf.bytes offset record)
    (hsize : record.length = recordSize α) : readItem α buf table offset = (do
      let base ← ItemBase.decode table record
      ofPayload base (record.drop baseSize) table) := by
  rw [readItem, Buffer.slice_of_hasAt hat hsize, ok_bind]

/-- **A record is read just if its references are places in the table.** -/
theorem CanonicalPayload.exists_readItem_iff (hα : CanonicalPayload α canonical)
    (hat : HasAt buf.bytes offset record) (hsize : record.length = recordSize α) :
    (∃ x, readItem α buf table offset = .ok x) ↔ ∀ k ∈ referencePlaces,
      0 ≤ (int32At record k).toInt ∧ (int32At record k).toInt < table.size := by
  simp only [referencePlaces, List.forall_mem_cons, List.not_mem_nil, false_imp_iff, implies_true,
    and_true, ← StringTable.exists_resolve_iff]
  have hfirst : int32At record baseSize = int32At (record.drop baseSize) 0 :=
    (int32At_drop record baseSize 0).symm
  rw [hfirst, ← int32At_drop record baseSize 4, readItem_of_hasAt hat hsize]
  constructor
  · rintro ⟨x, hx⟩
    obtain ⟨b, hb, hx⟩ := bind_eq_ok.1 hx
    exact ⟨⟨_, ItemBase.decode_name hb⟩, (hα.exists_iff b _ table).1 ⟨x, hx⟩⟩
  · rintro ⟨hname, hpayload⟩
    obtain ⟨b, hb⟩ := ItemBase.exists_decode_iff.2 hname
    obtain ⟨x, hx⟩ := (hα.exists_iff b _ table).2 hpayload
    exact ⟨x, bind_eq_ok.2 ⟨b, hb, hx⟩⟩

/-- The canonical form of a record, from that of its payload. -/
def canonicalRecord (canonical : List UInt8 → List UInt8) (record : List UInt8) : List UInt8 :=
  record.take baseSize ++ canonical (record.drop baseSize)

/-- **An item that was read is written again as its record**, in its canonical form. -/
theorem CanonicalPayload.writeItem_of_readItem [LawfulSchema α] [ForgivingSchema α]
    (hα : CanonicalPayload α canonical) (hsame : table.Mirrors pool)
    (hat : HasAt buf.bytes offset record) (hsize : record.length = recordSize α)
    (h : readItem α buf table offset = .ok x) :
    writeItem pool x = ⟨canonicalRecord canonical record, .ok ()⟩ := by
  rw [readItem_of_hasAt hat hsize] at h
  obtain ⟨b, hb, hx⟩ := bind_eq_ok.1 h
  have hbase := ForgivingSchema.base_ofPayload hx
  have hpayload : (record.drop baseSize).length = payloadSize α := by
    rw [List.length_drop, hsize]
    exact Nat.add_sub_cancel_left _ _
  obtain ⟨rest, hrest, hcanonical⟩ := hα.encode hsame hpayload hx
  have hname := (hsame _ _).2 (ItemBase.decode_name hb)
  rw [← hbase] at hname
  obtain ⟨pieces, hpieces, hflat⟩ := exists_mapM_fields hname hrest
  have hle : baseSize ≤ record.length := hsize ▸ Nat.le_add_right _ _
  have hcut := (ItemBase.hasAt_of_decode hle hb).eq_take (ItemBase.length_encode _ _)
  rw [writeItem_of_fields hpieces, hflat, hcanonical, hbase, hcut, canonicalRecord]

end Schema

/-! ## Strings that are missing -/

/-- The error of a text that is not in the pool. -/
def Error.LacksText (pool : StringPool) (fs : List RecordField) (e : Error) : Prop :=
  ∃ s, .text s ∈ fs ∧ s ∉ pool.toList ∧ e = .invalidInput (.unknownString s)

theorem StringPool.Indexed.require_failsWith {pool : StringPool} (hp : pool.Indexed) (s : String) :
    FailsWith (fun e => s ∉ pool.toList ∧ e = .invalidInput (.unknownString s))
      (pool.require s) := by
  by_cases hs : s ∈ pool.toList
  · obtain ⟨i, -, hi⟩ := hp.require hs
    rw [hi]
    exact .ok _
  · intro e he
    rw [StringPool.require] at he
    split at he
    · cases he
    · cases he
      exact ⟨hs, rfl⟩

theorem RecordField.encode_failsWith (f : RecordField) {pool : StringPool} (hp : pool.Indexed) :
    FailsWith (Error.LacksText pool [f]) (f.encode pool) := by
  cases f with
  | text s =>
    refine ((hp.require_failsWith s).map int32Bytes).mono ?_
    rintro e ⟨hs, rfl⟩
    exact ⟨s, List.mem_singleton_self _, hs, rfl⟩
  | int32 v => exact .ok _
  | real64 v => exact .ok _
  | real32 v => exact .ok _
  | raw bytes => exact .ok _

theorem writeFields_failsWith {pool : StringPool} (hp : pool.Indexed) (fs : List RecordField) :
    FailsWith (Error.LacksText pool fs) (writeFields pool fs).outcome := by
  induction fs with
  | nil => exact .ok ()
  | cons f fs ih =>
    rw [writeFields]
    cases hf : f.encode pool with
    | error e =>
      obtain ⟨s, hmem, hs, rfl⟩ := f.encode_failsWith hp e hf
      exact .error ⟨s, List.mem_cons.2 (.inl (List.mem_singleton.1 hmem)), hs, rfl⟩
    | ok bytes =>
      refine ih.mono ?_
      rintro e ⟨s, hmem, hs, rfl⟩
      exact ⟨s, List.mem_cons_of_mem f hmem, hs, rfl⟩

namespace Schema

variable {α : Type} [Schema α] [LawfulSchema α] {canonical : List UInt8 → List UInt8}
  {pool : StringPool} {x : α} {s : String}

theorem writeItem_outcome (pool : StringPool) (x : α) :
    (writeItem pool x).outcome = (writeFields pool (fields x)).outcome := by
  cases hw : (writeFields pool (fields x)).outcome with
  | error e => simp only [writeItem, hw]
  | ok u =>
    obtain ⟨pieces, hp⟩ := exists_encode_of_writeFields hw
    rw [writeItem_of_fields hp]

/-- The texts of a record are the name and the strings of its item. -/
theorem CanonicalPayload.text_mem_fields (hα : CanonicalPayload α canonical) :
    .text s ∈ fields x ↔ s ∈ itemName x :: strings x := by
  simp only [fields_eq, List.mem_cons, reduceCtorEq, false_or, RecordField.text.injEq]
  exact or_congr_right ⟨LawfulSchema.text_mem x s, hα.text_mem x s⟩

/-- **An item is refused as input just if one of its strings is missing.** -/
theorem CanonicalPayload.exists_invalidInput_iff (hα : CanonicalPayload α canonical)
    (hp : pool.Indexed) :
    (∃ cause, (writeItem pool x).outcome = .error (.invalidInput cause)) ↔
      ∃ s ∈ itemName x :: strings x, s ∉ pool.toList := by
  rw [writeItem_outcome]
  constructor
  · rintro ⟨cause, he⟩
    obtain ⟨s, hmem, hs, -⟩ := writeFields_failsWith hp _ _ he
    exact ⟨s, hα.text_mem_fields.1 hmem, hs⟩
  · rintro ⟨s, hmem, hs⟩
    cases hw : (writeFields pool (fields x)).outcome with
    | ok u =>
      -- every field was written, so the text of this one is in the pool
      obtain ⟨pieces, hpieces⟩ := exists_encode_of_writeFields hw
      obtain ⟨i, hi⟩ := List.mem_iff_getElem?.1 (hα.text_mem_fields.2 hmem)
      obtain ⟨bytes, -, hbytes⟩ := getElem?_of_mapM_eq_ok hpieces hi
      obtain ⟨v, hv, -⟩ := RecordField.encode_text_eq_ok.1 hbytes
      obtain ⟨j, hj, -⟩ := hp.of_require hv
      exact absurd (List.mem_of_getElem? hj) hs
    | error e =>
      obtain ⟨t, -, -, rfl⟩ := writeFields_failsWith hp _ _ hw
      exact ⟨_, rfl⟩

end Schema

/-! ## Both directions -/

/-- Records of a schema with the strings of a table, and the canonical form of a record that is read
and written again. -/
structure RecordsOf (α : Type) [Schema α] (table : StringTable)
    (canonical : List UInt8 → List UInt8) : Prop where
  /-- An item whose strings are in the table is written at its size, and read back wherever its
  record stands. -/
  written : ∀ item : α, (∀ s ∈ Schema.itemName item :: Schema.strings item, s ∈ table.toList) →
    ∃ record, Schema.writeItem table.pool item = ⟨record, .ok ()⟩ ∧
      record.length = Schema.recordSize α ∧ ∀ before after,
        Schema.readItem α (.ofList (before ++ (record ++ after))) table before.length = .ok item
  /-- A record is read just if its references are places in the table. -/
  read_iff : ∀ buf offset record, HasAt buf.bytes offset record →
    record.length = Schema.recordSize α →
    ((∃ item, Schema.readItem α buf table offset = .ok item) ↔ ∀ k ∈ referencePlaces,
      0 ≤ (int32At record k).toInt ∧ (int32At record k).toInt < table.size)
  /-- An item that was read is written again as its record. -/
  written_again : ∀ buf offset record item, HasAt buf.bytes offset record →
    record.length = Schema.recordSize α → Schema.readItem α buf table offset = .ok item →
    Schema.writeItem table.pool item = ⟨canonical record, .ok ()⟩
  /-- An item is refused just if one of its strings is not in the table. -/
  refused_iff : ∀ item : α,
    (∃ cause, (Schema.writeItem table.pool item).outcome = .error (.invalidInput cause)) ↔
      ∃ s ∈ Schema.itemName item :: Schema.strings item, s ∉ table.toList

theorem Schema.CanonicalPayload.recordsOf {α : Type} [Schema α] [LawfulSchema α] [ForgivingSchema α]
    {canonical : List UInt8 → List UInt8} {table : StringTable} (hα : CanonicalPayload α canonical)
    (hsize : table.size < 0x80000000) (hdistinct : table.toList.Nodup) :
    RecordsOf α table (canonicalRecord canonical) := by
  have hsame := StringTable.mirrors_pool hsize hdistinct
  have hlist := StringTable.toList_pool hdistinct
  refine ⟨?written, ?read_iff, ?written_again, ?refused_iff⟩
  case written =>
    intro item hitem
    have hmem : ∀ s, s = itemName item ∨ s ∈ strings item → s ∈ table.pool.toList := by
      intro s hs
      rw [hlist]
      exact hitem s (List.mem_cons.2 hs)
    obtain ⟨record, hrecord⟩ := exists_encodeItem table.indexed_pool hmem
    obtain ⟨hlength, pieces, hpieces, rfl⟩ := exists_fields_of_encodeItem hrecord
    refine ⟨pieces.flatten, writeItem_of_fields hpieces, hlength, fun before after => ?_⟩
    exact readItem_encodeItem (fun s v => (hsame s v).1) hrecord ⟨before, after, rfl, rfl⟩
  case read_iff => exact fun buf offset record hat hlength => hα.exists_readItem_iff hat hlength
  case written_again =>
    exact fun buf offset record item hat hlength h => hα.writeItem_of_readItem hsame hat hlength h
  case refused_iff =>
    intro item
    rw [hα.exists_invalidInput_iff table.indexed_pool, hlist]

theorem canonicalRecord_id (record : List UInt8) : Schema.canonicalRecord id record = record :=
  List.take_append_drop _ _

namespace Airport

/-- The place of the word of the flag in a record. -/
def toweredPlace : Nat := 72

/-- A record with the word of its flag as it is written: any that is not zero becomes one. -/
def canonicalFlag (record : List UInt8) : List UInt8 :=
  if int32At record toweredPlace = 0 then record else record.take toweredPlace ++ int32Bytes 1

theorem canonicalRecord_canonical (record : List UInt8) :
    Schema.canonicalRecord canonical record = canonicalFlag record := by
  have hflag : int32At (record.drop baseSize) 16 = int32At record toweredPlace :=
    int32At_drop record baseSize 16
  have hcut : record.take baseSize ++ (record.drop baseSize).take 16 = record.take toweredPlace :=
    List.take_add.symm
  rw [Schema.canonicalRecord, canonical, canonicalFlag, hflag]
  by_cases hzero : int32At record toweredPlace = 0
  · rw [if_pos hzero, if_pos hzero, List.take_append_drop]
  · rw [if_neg hzero, if_neg hzero, ← List.append_assoc, hcut]

end Airport

/-- **Records are written and read in both directions**: a place as it stands, and an airport up to
the word of its flag. -/
theorem recordsOf_read {strings : Buffer} {start stop : Nat} {table : StringTable}
    (hread : StringTable.read strings start = .ok (table, stop)) (hdistinct : table.toList.Nodup) :
    RecordsOf Place table id ∧ RecordsOf Airport table Airport.canonicalFlag := by
  have hsize := StringTable.size_lt_of_read hread
  have hplace := Place.canonicalPayload.recordsOf hsize hdistinct
  have hairport := Airport.canonicalPayload.recordsOf hsize hdistinct
  rw [funext canonicalRecord_id] at hplace
  rw [funext Airport.canonicalRecord_canonical] at hairport
  exact ⟨hplace, hairport⟩

/-- Records of zeros refer to the first string, and a flag of two is written as one. -/
theorem recordsOf_read_zeros :
    let table : StringTable := ⟨#["a"]⟩
    let place : List UInt8 := List.replicate 64 0
    let airport (flag : UInt8) : List UInt8 := List.replicate 75 0 ++ [flag]
    StringTable.read (.ofList (stringsBytes ["a"])) 0 = .ok (table, 10) ∧ table.toList.Nodup ∧
      RecordsOf Place table id ∧ RecordsOf Airport table Airport.canonicalFlag ∧
      (∃ p, Schema.readItem Place (.ofList place) table 0 = .ok p ∧
        Schema.writeItem table.pool p = ⟨place, .ok ()⟩) ∧
      ∃ a, Schema.readItem Airport (.ofList (airport 2)) table 0 = .ok a ∧
        Schema.writeItem table.pool a = ⟨airport 1, .ok ()⟩ := by
  intro table place airport
  have hread : StringTable.read (.ofList (stringsBytes ["a"])) 0 = .ok (table, 10) := by
    refine StringTable.read_eq_ok_iff_fitsWords.2 ⟨⟨by decide, ?_⟩, hasAt_self _, by decide⟩
    decide
  have hdistinct : table.toList.Nodup := by decide
  obtain ⟨hplace, hairport⟩ := recordsOf_read hread hdistinct
  refine ⟨hread, hdistinct, hplace, hairport, ?_, ?_⟩
  · have hat : HasAt (Buffer.ofList place).bytes 0 place := hasAt_self _
    obtain ⟨p, hp⟩ := (hplace.read_iff _ _ _ hat rfl).2 (by decide)
    exact ⟨p, hp, hplace.written_again _ _ _ _ hat rfl hp⟩
  · have hat : HasAt (Buffer.ofList (airport 2)).bytes 0 (airport 2) := hasAt_self _
    obtain ⟨a, ha⟩ := (hairport.read_iff _ _ _ hat rfl).2 (by decide)
    have hcanonical : Airport.canonicalFlag (airport 2) = airport 1 := by decide
    refine ⟨a, ha, ?_⟩
    rw [← hcanonical]
    exact hairport.written_again _ _ _ _ hat rfl ha

end Gazetteer
