import Gazetteer.Item.Airport
import Gazetteer.Item.Place
import Gazetteer.Proofs.Pooling
import Gazetteer.SpatialTree.Search

/-!
# Records through a file

A record is the bytes of its fields one after another. Read at its offset with a table that resolves
what the pool referred to, it gives back the item it was written from. What a schema owes for this
is in `LawfulSchema`: its payload has one size, its texts are in the pool, and its reader undoes its
writer.
-/

namespace Gazetteer

/-- Every reference that the pool gives resolves to the string it was given for. -/
def StringTable.Resolves (table : StringTable) (pool : StringPool) : Prop :=
  ∀ s v, pool.require s = .ok v → table.resolve v = .ok s

theorem StringPool.Indexed.resolves {pool : StringPool} (h : pool.Indexed)
    (hn : pool.toList.length < 0x80000000) : StringTable.Resolves ⟨pool.strings⟩ pool := by
  intro s v hv
  obtain ⟨i, hs, rfl⟩ := h.of_require hv
  have hlt : i < pool.toList.length := (List.getElem?_eq_some_iff.1 hs).1
  exact StringTable.resolve_ofNat (by omega) hs

/-! ## Fields -/

namespace RecordField

variable {pool : StringPool} {f : RecordField} {bytes : List UInt8}

/-- The number of bytes of a field. -/
def size : RecordField → Nat
  | .int32 _ => 4
  | .real64 _ => 8
  | .real32 _ => 4
  | .text _ => 4
  | .raw bytes => bytes.length

theorem length_of_encode (h : f.encode pool = .ok bytes) : bytes.length = f.size := by
  cases f with
  | text s =>
    obtain ⟨v, -, rfl⟩ := map_eq_ok.1 h
    exact length_int32Bytes v
  | int32 v => cases h; exact length_int32Bytes v
  | real64 v => cases h; exact length_real64Bytes v
  | real32 v => cases h; exact length_real32Bytes v
  | raw bytes => cases h; rfl

/-- A field can be written if the pool has its text. -/
theorem exists_encode (hp : pool.Indexed) (ht : ∀ s, f = .text s → s ∈ pool.toList) :
    ∃ bytes, f.encode pool = .ok bytes := by
  cases f with
  | text s =>
    obtain ⟨i, -, hr⟩ := hp.require (ht s rfl)
    exact ⟨_, by rw [encode, hr]; rfl⟩
  | int32 v => exact ⟨_, rfl⟩
  | real64 v => exact ⟨_, rfl⟩
  | real32 v => exact ⟨_, rfl⟩
  | raw bytes => exact ⟨_, rfl⟩

end RecordField

section
variable {pool : StringPool} {fs : List RecordField} {pieces : List (List UInt8)}

theorem length_flatten_of_encode (h : fs.mapM (RecordField.encode pool) = .ok pieces) :
    pieces.flatten.length = (fs.map RecordField.size).sum :=
  length_flatten_of_mapM (fun _ _ hf => RecordField.length_of_encode hf) h

theorem writeFields_of_encode (h : fs.mapM (RecordField.encode pool) = .ok pieces) :
    writeFields pool fs = ⟨pieces.flatten, .ok ()⟩ := by
  rw [mapM_eq_ok] at h
  induction h with
  | nil => rfl
  | cons hf _ ih => simp [writeFields, hf, ih]

/-- Fields are written to the end only if each of them can be written. -/
theorem exists_encode_of_writeFields (h : (writeFields pool fs).outcome = .ok ()) :
    ∃ pieces, fs.mapM (RecordField.encode pool) = .ok pieces := by
  induction fs with
  | nil => exact ⟨[], rfl⟩
  | cons f fs ih =>
    cases hf : f.encode pool with
    | error e => simp [writeFields, hf] at h
    | ok bytes =>
      obtain ⟨pieces, hp⟩ := ih (by simpa [writeFields, hf] using h)
      exact ⟨bytes :: pieces, mapM_eq_ok.2 (.cons hf (mapM_eq_ok.1 hp))⟩

end

/-! ## Laws of a schema -/

/-- A schema whose records can be read back. -/
class LawfulSchema (α : Type) [Schema α] : Prop where
  /-- The fields of a payload fill its size. -/
  payload_size : ∀ item : α,
    ((Schema.payload item).map RecordField.size).sum = Schema.payloadSize α
  /-- The texts of a payload are among the strings that enter the pool. -/
  text_mem : ∀ (item : α) (s : String), .text s ∈ Schema.payload item → s ∈ Schema.strings item
  /-- The reader of a payload undoes the writer. -/
  ofPayload_encode : ∀ (item : α) (pool : StringPool) (table : StringTable)
    (pieces : List (List UInt8)), table.Resolves pool →
    (Schema.payload item).mapM (RecordField.encode pool) = .ok pieces →
    Schema.ofPayload (Schema.base item) pieces.flatten table = .ok item

section
variable {whole : List UInt8} {offset : Nat}

theorem int32At_of_hasAt {v : Int32} (h : HasAt whole offset (int32Bytes v)) :
    int32At whole offset = v := by
  rw [int32At, h.take_drop_of_length (length_int32Bytes v), int32OfBytes_int32Bytes]

theorem real64At_of_hasAt {v : Binary64} (h : HasAt whole offset (real64Bytes v)) :
    real64At whole offset = v := by
  rw [real64At, h.take_drop_of_length (length_real64Bytes v), real64OfBytes_real64Bytes]

end

namespace RecordField

variable {pool : StringPool} {bytes : List UInt8}

theorem encode_text_eq_ok {s : String} :
    encode pool (.text s) = .ok bytes ↔ ∃ v, pool.require s = .ok v ∧ int32Bytes v = bytes :=
  map_eq_ok

theorem encode_int32_eq_ok {v : Int32} :
    encode pool (.int32 v) = .ok bytes ↔ int32Bytes v = bytes := by
  rw [encode, Except.ok.injEq]

theorem encode_real64_eq_ok {v : Binary64} :
    encode pool (.real64 v) = .ok bytes ↔ real64Bytes v = bytes := by
  rw [encode, Except.ok.injEq]

theorem encode_real32_eq_ok {v : Binary32} :
    encode pool (.real32 v) = .ok bytes ↔ real32Bytes v = bytes := by
  rw [encode, Except.ok.injEq]

end RecordField

open RecordField

namespace Place

theorem payload_eq (p : Place) : Schema.payload p = [.text p.kind, .text p.description] := rfl

theorem schema_ofPayload : @Schema.ofPayload Place _ = ofPayload := rfl

theorem schema_base : @Schema.base Place _ = base := rfl

/-- A place is read back from its payload. -/
theorem ofPayload_of_hasAt {whole : List UInt8} {table : StringTable} {k d : Int32} (p : Place)
    (hk : table.resolve k = .ok p.kind) (hd : table.resolve d = .ok p.description)
    (h : HasAt whole 0 (int32Bytes k ++ int32Bytes d)) :
    ofPayload p.base whole table = .ok p := by
  have h4 : HasAt whole 4 (int32Bytes d) := h.after 4 (by rw [length_int32Bytes])
  rw [ofPayload, int32At_of_hasAt h.left, int32At_of_hasAt h4, hk, hd]
  rfl

end Place

instance : LawfulSchema Place where
  payload_size _ := rfl
  text_mem p s h := by
    rw [Place.payload_eq] at h
    simpa [Schema.strings] using h
  ofPayload_encode p pool table pieces ht h := by
    rw [Place.payload_eq] at h
    obtain ⟨_, _, hk, h₁, rfl⟩ := mapM_cons_eq_ok.1 h
    obtain ⟨_, _, hd, h₂, rfl⟩ := mapM_cons_eq_ok.1 h₁
    rw [mapM_nil_eq_ok] at h₂
    obtain ⟨k, hk', rfl⟩ := encode_text_eq_ok.1 hk
    obtain ⟨d, hd', rfl⟩ := encode_text_eq_ok.1 hd
    subst h₂
    rw [List.flatten_cons, List.flatten_cons, List.flatten_nil, List.append_nil,
      Place.schema_ofPayload, Place.schema_base]
    exact Place.ofPayload_of_hasAt p (ht _ _ hk') (ht _ _ hd') (hasAt_self _)

namespace Airport

/-- The word that stands for a flag. -/
def flagWord (b : Bool) : Int32 := if b then 1 else 0

theorem flagWord_ne_zero (b : Bool) : decide (flagWord b ≠ 0) = b := by
  cases b <;> rfl

theorem payload_eq (a : Airport) : Schema.payload a =
    [.text a.city, .text a.country, .real32 a.elevationFt, .int32 a.runways,
      .int32 (flagWord a.towered)] := rfl

theorem schema_ofPayload : @Schema.ofPayload Airport _ = ofPayload := rfl

theorem schema_base : @Schema.base Airport _ = base := rfl

/-- An airport is read back from its payload. -/
theorem ofPayload_of_hasAt {whole : List UInt8} {table : StringTable} {c n : Int32} (a : Airport)
    (hc : table.resolve c = .ok a.city) (hn : table.resolve n = .ok a.country)
    (h : HasAt whole 0 (int32Bytes c ++ (int32Bytes n ++ (real32Bytes a.elevationFt ++
      (int32Bytes a.runways ++ int32Bytes (flagWord a.towered)))))) :
    ofPayload a.base whole table = .ok a := by
  have h4 := h.after 4 (by rw [length_int32Bytes])
  have h8 := h4.after 8 (by rw [length_int32Bytes])
  have h12 := h8.after 12 (by rw [length_real32Bytes])
  have h16 := h12.after 16 (by rw [length_int32Bytes])
  rw [ofPayload, int32At_of_hasAt h.left, int32At_of_hasAt h4.left, hc, hn,
    int32At_of_hasAt h12.left, int32At_of_hasAt h16,
    h8.left.take_drop_of_length (length_real32Bytes _), real32OfBytes_real32Bytes,
    flagWord_ne_zero]
  rfl

end Airport

instance : LawfulSchema Airport where
  payload_size _ := rfl
  text_mem a s h := by
    rw [Airport.payload_eq] at h
    simpa [Schema.strings] using h
  ofPayload_encode a pool table pieces ht h := by
    rw [Airport.payload_eq] at h
    obtain ⟨_, _, hc, h₁, rfl⟩ := mapM_cons_eq_ok.1 h
    obtain ⟨_, _, hn, h₂, rfl⟩ := mapM_cons_eq_ok.1 h₁
    obtain ⟨_, _, he, h₃, rfl⟩ := mapM_cons_eq_ok.1 h₂
    obtain ⟨_, _, hr, h₄, rfl⟩ := mapM_cons_eq_ok.1 h₃
    obtain ⟨_, _, hw, h₅, rfl⟩ := mapM_cons_eq_ok.1 h₄
    rw [mapM_nil_eq_ok] at h₅
    obtain ⟨c, hc', rfl⟩ := encode_text_eq_ok.1 hc
    obtain ⟨n, hn', rfl⟩ := encode_text_eq_ok.1 hn
    rw [encode_real32_eq_ok] at he
    rw [encode_int32_eq_ok] at hr hw
    subst h₅ he hr hw
    simp only [List.flatten_cons, List.flatten_nil, List.append_nil]
    rw [Airport.schema_ofPayload, Airport.schema_base]
    exact Airport.ofPayload_of_hasAt a (ht _ _ hc') (ht _ _ hn') (hasAt_self _)

/-! ## Whole records -/

/-- The common fields as they stand in a record, with the index of the name. -/
def ItemBase.encode (b : ItemBase) (nameIndex : Int32) : List UInt8 :=
  int32Bytes b.hash ++ (real64Bytes b.ecef.x ++ (real64Bytes b.ecef.y ++ (real64Bytes b.ecef.z ++
    (real64Bytes b.pos.lat ++ (real64Bytes b.pos.lon ++ (real64Bytes b.pos.alt ++
      int32Bytes nameIndex))))))

@[simp] theorem ItemBase.length_encode (b : ItemBase) (v : Int32) :
    (b.encode v).length = baseSize := by
  simp [encode, baseSize]

/-- Where the fields of a position and the index of the name stand. -/
theorem ItemBase.hasAt_encode {b : ItemBase} {v : Int32} (h : HasAt whole offset (b.encode v)) :
    HasAt whole offset (int32Bytes b.hash) ∧
      HasAt whole (offset + 4) (real64Bytes b.ecef.x) ∧
      HasAt whole (offset + 12) (real64Bytes b.ecef.y) ∧
      HasAt whole (offset + 20) (real64Bytes b.ecef.z) ∧
      HasAt whole (offset + 28) (real64Bytes b.pos.lat) ∧
      HasAt whole (offset + 36) (real64Bytes b.pos.lon) ∧
      HasAt whole (offset + 44) (real64Bytes b.pos.alt) ∧
      HasAt whole (offset + nameIndexOffset) (int32Bytes v) := by
  have h4 := h.after (offset + 4) (by rw [length_int32Bytes])
  have h12 := h4.after (offset + 12) (by rw [length_real64Bytes])
  have h20 := h12.after (offset + 20) (by rw [length_real64Bytes])
  have h28 := h20.after (offset + 28) (by rw [length_real64Bytes])
  have h36 := h28.after (offset + 36) (by rw [length_real64Bytes])
  have h44 := h36.after (offset + 44) (by rw [length_real64Bytes])
  have h52 := h44.after (offset + 52) (by rw [length_real64Bytes])
  exact ⟨h.left, h4.left, h12.left, h20.left, h28.left, h36.left, h44.left, h52⟩

/-- The common fields are read back. -/
theorem ItemBase.decode_of_hasAt {b : ItemBase} {v : Int32} {table : StringTable}
    (hv : table.resolve v = .ok b.name) (h : HasAt whole 0 (b.encode v)) :
    ItemBase.decode table whole = .ok b := by
  obtain ⟨h0, hx, hy, hz, hlat, hlon, halt, hn⟩ := hasAt_encode h
  rw [Nat.zero_add] at hx hy hz hlat hlon halt hn
  rw [decode, int32At_of_hasAt hn, hv, int32At_of_hasAt h0, real64At_of_hasAt hx,
    real64At_of_hasAt hy, real64At_of_hasAt hz, real64At_of_hasAt hlat, real64At_of_hasAt hlon,
    real64At_of_hasAt halt]
  rfl

namespace Schema

variable {α : Type} [Schema α] {pool : StringPool} {table : StringTable} {item : α}
  {bytes : List UInt8}

theorem fields_eq (item : α) : fields item = .int32 (base item).hash ::
    .real64 (base item).ecef.x :: .real64 (base item).ecef.y :: .real64 (base item).ecef.z ::
    .real64 (base item).pos.lat :: .real64 (base item).pos.lon :: .real64 (base item).pos.alt ::
    .text (itemName item) :: payload item := rfl

/-- The fields of a record are the common ones, then those of the payload. -/
theorem mapM_fields_eq_ok {pieces : List (List UInt8)} :
    (fields item).mapM (RecordField.encode pool) = .ok pieces →
      ∃ v rest, pool.require (itemName item) = .ok v ∧
        (payload item).mapM (RecordField.encode pool) = .ok rest ∧
        pieces.flatten = (base item).encode v ++ rest.flatten := by
  rw [fields_eq]
  simp only [mapM_cons_eq_ok, encode_int32_eq_ok, encode_real64_eq_ok, encode_text_eq_ok]
  rintro ⟨_, _, rfl, ⟨_, _, rfl, ⟨_, _, rfl, ⟨_, _, rfl, ⟨_, _, rfl, ⟨_, _, rfl, ⟨_, _, rfl,
    ⟨_, rest, ⟨v, hv, rfl⟩, hr, rfl⟩, rfl⟩, rfl⟩, rfl⟩, rfl⟩, rfl⟩, rfl⟩, rfl⟩
  exact ⟨v, rest, hv, hr, by simp only [List.flatten_cons, ItemBase.encode, List.append_assoc]⟩

/-- The fields of a record can be written if its name and its payload can. -/
theorem exists_mapM_fields {v : Int32} {rest : List (List UInt8)}
    (hv : pool.require (itemName item) = .ok v)
    (hrest : (payload item).mapM (RecordField.encode pool) = .ok rest) :
    ∃ pieces, (fields item).mapM (RecordField.encode pool) = .ok pieces ∧
      pieces.flatten = (base item).encode v ++ rest.flatten := by
  have hname : RecordField.encode pool (.text (itemName item)) = .ok (int32Bytes v) :=
    encode_text_eq_ok.2 ⟨v, hv, rfl⟩
  rw [fields_eq]
  refine ⟨_, mapM_eq_ok.2 (.cons rfl (.cons rfl (.cons rfl (.cons rfl (.cons rfl (.cons rfl
    (.cons rfl (.cons hname (mapM_eq_ok.1 hrest))))))))), ?_⟩
  simp only [List.flatten_cons, ItemBase.encode, List.append_assoc]

/-- The fields of a record fill its size. -/
theorem length_fields [LawfulSchema α] {pieces : List (List UInt8)}
    (h : (fields item).mapM (RecordField.encode pool) = .ok pieces) :
    pieces.flatten.length = recordSize α := by
  rw [length_flatten_of_encode h, fields_eq]
  simp only [List.map_cons, List.sum_cons, LawfulSchema.payload_size, RecordField.size]
  rw [recordSize, baseSize]
  omega

theorem writeItem_of_fields [LawfulSchema α] {pieces : List (List UInt8)}
    (h : (fields item).mapM (RecordField.encode pool) = .ok pieces) :
    writeItem pool item = ⟨pieces.flatten, .ok ()⟩ := by
  rw [writeItem, writeFields_of_encode h]
  exact if_pos (length_fields h)

/-- A record that was written is its fields, and has the size of its schema. -/
theorem exists_fields_of_encodeItem (h : encodeItem pool item = .ok bytes) :
    bytes.length = recordSize α ∧ ∃ pieces,
      (fields item).mapM (RecordField.encode pool) = .ok pieces ∧ bytes = pieces.flatten := by
  obtain ⟨⟨⟩, hw, rfl⟩ := map_eq_ok.1 h
  unfold writeItem at hw ⊢
  dsimp only at hw ⊢
  split at hw
  · rename_i e he
    rw [he] at hw
    cases hw
  · rename_i he
    split at hw
    · rename_i hs
      obtain ⟨pieces, hp⟩ := exists_encode_of_writeFields he
      rw [if_pos hs]
      exact ⟨hs, pieces, hp, by rw [writeFields_of_encode hp]⟩
    · cases hw

/-- A record that was written is the common fields and the payload. -/
theorem encodeItem_eq_ok (h : encodeItem pool item = .ok bytes) :
    bytes.length = recordSize α ∧ ∃ v rest, pool.require (itemName item) = .ok v ∧
      (payload item).mapM (RecordField.encode pool) = .ok rest ∧
      bytes = (base item).encode v ++ rest.flatten := by
  obtain ⟨hs, pieces, hp, rfl⟩ := exists_fields_of_encodeItem h
  obtain ⟨v, rest, hv, hr, hf⟩ := mapM_fields_eq_ok hp
  exact ⟨hs, v, rest, hv, hr, hf⟩

/-- **A record is read back** as the item it was written from. -/
theorem readItem_encodeItem [LawfulSchema α] {buf : Buffer} (ht : table.Resolves pool)
    (he : encodeItem pool item = .ok bytes) (h : HasAt buf.bytes offset bytes) :
    readItem α buf table offset = .ok item := by
  obtain ⟨hs, v, rest, hv, hr, rfl⟩ := encodeItem_eq_ok he
  have hd : ((base item).encode v ++ rest.flatten).drop baseSize = rest.flatten :=
    List.drop_left' (by simp)
  rw [readItem, Buffer.slice_of_hasAt h hs, ok_bind,
    ItemBase.decode_of_hasAt (ht _ _ hv) (hasAt_self _).left, ok_bind, hd]
  exact LawfulSchema.ofPayload_encode item pool table rest ht hr

/-- Where the common fields of a record lie. -/
theorem hasAt_base_of_encodeItem (he : encodeItem pool item = .ok bytes)
    (h : HasAt whole offset bytes) :
    ∃ v, pool.require (itemName item) = .ok v ∧ HasAt whole offset ((base item).encode v) := by
  obtain ⟨-, v, rest, hv, -, rfl⟩ := encodeItem_eq_ok he
  exact ⟨v, hv, h.left⟩

end Schema

/-- The position of a record is read back. -/
theorem readEcef_of_hasAt {buf : Buffer} {b : ItemBase} {v : Int32}
    (h : HasAt buf.bytes offset (b.encode v)) : readEcef buf offset = .ok b.ecef := by
  obtain ⟨-, hx, hy, hz, -⟩ := ItemBase.hasAt_encode h
  simp only [readEcef, ecefOffset, Nat.add_assoc, Nat.reduceAdd, Buffer.readReal64_of_hasAt hx,
    Buffer.readReal64_of_hasAt hy, Buffer.readReal64_of_hasAt hz, ok_bind]
  rfl

/-- A record matches a name if the name and its hash are those of the item. -/
theorem nameMatches_of_hasAt {buf : Buffer} {table : StringTable} {b : ItemBase} {v : Int32}
    {hash : Int32} {key : String} (hv : table.resolve v = .ok b.name)
    (h : HasAt buf.bytes offset (b.encode v)) :
    nameMatches buf table hash key offset = .ok (decide (b.hash = hash ∧ b.name = key)) := by
  obtain ⟨h0, -, -, -, -, -, -, hn⟩ := ItemBase.hasAt_encode h
  rw [nameMatches, Buffer.readInt32_of_hasAt h0, ok_bind]
  by_cases hh : b.hash = hash
  · simp [hh, Buffer.readInt32_of_hasAt hn, hv, beq_eq_decide]
  · simp [hh]

end Gazetteer
