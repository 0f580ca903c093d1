import Gazetteer.Proofs.Reading
import Gazetteer.Strings.Table

/-!
# Strings through a file

A pool keeps a list of strings and a table of their indices; `StringPool.Indexed` says that the two
agree. A table read from the bytes of a pool has its strings at the same indices, so an index that a
record got from the pool resolves to the string it was asked for.
-/

namespace Gazetteer

/-! ## The pool -/

/-- Distinct strings with one more, unless it is among them. -/
def addOccurrence (seen : List String) (s : String) : List String :=
  if s ∈ seen then seen else seen ++ [s]

/-- The distinct strings of a list, in the order of first occurrence. -/
def firstOccurrences (ss : List String) : List String := ss.foldl addOccurrence []

namespace StringPool

variable {pool : StringPool} {s t : String} {ss : List String} {i : Nat}

/-- The index of a string is its place in the list. -/
def Indexed (pool : StringPool) : Prop := ∀ s i, pool.indexOf? s = some i ↔ pool.toList[i]? = some s

theorem indexed_empty : Indexed ∅ := by
  intro s i
  show (∅ : Std.HashMap String Nat)[s]? = some i ↔ ([] : List String)[i]? = some s
  simp

theorem contains_eq_isSome (pool : StringPool) (s : String) :
    pool.contains s = (pool.indexOf? s).isSome := by
  simp [contains, indexOf?]

theorem Indexed.contains_iff (h : Indexed pool) : pool.contains s = true ↔ s ∈ pool.toList := by
  rw [contains_eq_isSome, Option.isSome_iff_exists, List.mem_iff_getElem?]
  exact exists_congr fun i => h s i

/-- Adding a string puts it at the end, unless it is there. -/
theorem Indexed.toList_insert (h : Indexed pool) (s : String) :
    (pool.insert s).toList = if s ∈ pool.toList then pool.toList else pool.toList ++ [s] := by
  unfold insert
  by_cases hs : s ∈ pool.toList
  · rw [if_pos (h.contains_iff.2 hs), if_pos hs]
  · rw [if_neg (fun hc => hs (h.contains_iff.1 hc)), if_neg hs]
    simp [toList]

theorem Indexed.insert (h : Indexed pool) (s : String) : Indexed (pool.insert s) := by
  intro t i
  rw [h.toList_insert]
  by_cases hs : s ∈ pool.toList
  · rw [if_pos hs, StringPool.insert, if_pos (h.contains_iff.2 hs)]
    exact h t i
  · rw [if_neg hs, StringPool.insert, if_neg (fun hc => hs (h.contains_iff.1 hc))]
    have hlen : pool.toList.length = pool.strings.size := by simp [toList]
    simp only [indexOf?, Std.HashMap.getElem?_insert, beq_iff_eq]
    by_cases hst : s = t
    · subst hst
      rw [if_pos rfl, ← hlen]
      constructor
      · rintro ⟨⟩
        simp
      · intro hi
        rcases Nat.lt_trichotomy i pool.toList.length with hlt | rfl | hgt
        · rw [List.getElem?_append_left hlt] at hi
          exact absurd (List.mem_of_getElem? hi) hs
        · rfl
        · rw [List.getElem?_eq_none (by simp; omega)] at hi
          cases hi
    · rw [if_neg hst, List.getElem?_append]
      have hti : pool.indices[t]? = some i ↔ pool.toList[i]? = some t := h t i
      rw [hti]
      split
      · rfl
      · rename_i hge
        rw [List.getElem?_eq_none (by omega)]
        simp only [reduceCtorEq, false_iff]
        intro hx
        exact hst (List.mem_singleton.1 (List.mem_of_getElem? hx)).symm

theorem Indexed.insertMany (h : Indexed pool) (ss : List String) :
    Indexed (pool.insertMany ss) := by
  induction ss generalizing pool with
  | nil => exact h
  | cons s ss ih => exact ih (h.insert s)

/-- Adding strings leaves those that are there in their places. -/
theorem Indexed.prefix_insertMany (h : Indexed pool) (ss : List String) :
    pool.toList <+: (pool.insertMany ss).toList := by
  induction ss generalizing pool with
  | nil => exact List.prefix_refl _
  | cons s ss ih =>
    refine List.IsPrefix.trans ?_ (ih (h.insert s))
    rw [h.toList_insert]
    split
    · exact List.prefix_refl _
    · exact List.prefix_append _ _

theorem Indexed.mem_insertMany (h : Indexed pool) :
    t ∈ (pool.insertMany ss).toList ↔ t ∈ pool.toList ∨ t ∈ ss := by
  induction ss generalizing pool with
  | nil => simp [StringPool.insertMany]
  | cons s ss ih =>
    rw [show pool.insertMany (s :: ss) = (pool.insert s).insertMany ss from rfl, ih (h.insert s),
      h.toList_insert]
    split <;> simp <;> grind

/-- A pool that was empty has the strings that were added, in the order of first occurrence. -/
theorem toList_insertMany_empty (ss : List String) :
    ((∅ : StringPool).insertMany ss).toList = firstOccurrences ss := by
  suffices hrun : ∀ (pool : StringPool), pool.Indexed →
      (pool.insertMany ss).toList = ss.foldl addOccurrence pool.toList from
    hrun ∅ indexed_empty
  induction ss with
  | nil => exact fun _ _ => rfl
  | cons s ss ih =>
    intro pool h
    rw [List.foldl_cons, addOccurrence, ← h.toList_insert]
    exact ih _ (h.insert s)

/-- A string of the pool can be referred to, by its place. -/
theorem Indexed.require (h : Indexed pool) (hs : s ∈ pool.toList) :
    ∃ i, pool.toList[i]? = some s ∧ pool.require s = .ok (Int32.ofNat i) := by
  obtain ⟨i, hi⟩ := List.mem_iff_getElem?.1 hs
  refine ⟨i, hi, ?_⟩
  rw [StringPool.require, (h s i).2 hi]

/-- A reference that the pool gives is the place of the string it was asked for. -/
theorem Indexed.of_require (h : Indexed pool) {v : Int32} (hv : pool.require s = .ok v) :
    ∃ i, pool.toList[i]? = some s ∧ v = Int32.ofNat i := by
  rw [StringPool.require] at hv
  split at hv
  · rename_i i hi
    cases hv
    exact ⟨i, (h s i).1 hi, rfl⟩
  · cases hv

end StringPool

/-- A small index resolves to the string in its place. -/
theorem StringTable.resolve_ofNat {table : StringTable} {s : String} {i : Nat}
    (hi : i < 0x80000000) (hs : table.toList[i]? = some s) :
    table.resolve (Int32.ofNat i) = .ok s := by
  have hs' : table.strings[i]? = some s := by simpa [StringTable.toList] using hs
  simp only [StringTable.resolve, StringTable.get?, toInt_ofNat_of_lt hi]
  simp [hs']

/-! ## The strings of a file -/

variable {buf : Buffer} {offset index : Nat}

theorem fromUTF8?_utf8Bytes (s : String) : String.fromUTF8? ⟨(utf8Bytes s).toArray⟩ = some s := by
  have h : (⟨(utf8Bytes s).toArray⟩ : ByteArray) = s.toByteArray := by simp [utf8Bytes]
  rw [String.fromUTF8?, h, dif_pos s.isValidUTF8]
  rfl

theorem decodeText_utf8Bytes (index : Nat) (s : String) :
    decodeText index (utf8Bytes s) 0 = .ok s := by
  simp [decodeText, fromUTF8?_utf8Bytes]

/-- A string as it is written, spelled out. -/
theorem encodeString_eq_ok {s : String} {bytes : List UInt8} :
    encodeString s = .ok bytes ↔ (utf8Bytes s).length < 0x80000000 ∧
      bytes = int32Bytes (Int32.ofNat (utf8Bytes s).length) ++ (utf8Bytes s ++ [0]) := by
  unfold encodeString
  rw [bind_eq_ok]
  constructor
  · rintro ⟨v, hv, h⟩
    obtain ⟨hlt, rfl⟩ := toInt32_eq_ok.1 hv
    cases h
    exact ⟨hlt, by simp⟩
  · rintro ⟨hlt, rfl⟩
    exact ⟨_, toInt32_eq_ok.2 ⟨hlt, rfl⟩, by simp⟩

/-- Strings as they are written, spelled out. -/
theorem encodeStrings_eq_ok {ss : List String} {bytes : List UInt8} :
    encodeStrings ss = .ok bytes ↔ ss.length < 0x80000000 ∧
      ∃ pieces, ss.mapM encodeString = .ok pieces ∧
        bytes = int32Bytes (.ofNat ss.length) ++ pieces.flatten := by
  unfold encodeStrings
  constructor
  · intro h
    obtain ⟨_, hc, h⟩ := bind_eq_ok.1 h
    obtain ⟨pieces, hp, h⟩ := bind_eq_ok.1 h
    obtain ⟨hlt, rfl⟩ := toInt32_eq_ok.1 hc
    cases h
    exact ⟨hlt, pieces, hp, rfl⟩
  · rintro ⟨hlt, pieces, hp, rfl⟩
    exact bind_eq_ok.2 ⟨_, toInt32_eq_ok.2 ⟨hlt, rfl⟩, bind_eq_ok.2 ⟨pieces, hp, rfl⟩⟩

/-- A string is read back as it was written, and so is the offset after it. -/
theorem readString_encodeString {s : String} {bytes : List UInt8} (he : encodeString s = .ok bytes)
    (h : HasAt buf.bytes offset bytes) :
    readString buf index offset = .ok (s, offset + bytes.length) := by
  obtain ⟨hlt, rfl⟩ := encodeString_eq_ok.1 he
  have hbody := Buffer.slice_of_hasAt (n := (utf8Bytes s).length + 1) h.right (by simp)
  rw [length_int32Bytes] at hbody
  have hi := toInt_ofNat_of_lt hlt
  simp only [readString, Buffer.readInt32_of_hasAt h.left, ok_bind, hi, Int.toNat_natCast, hbody]
  have hneg : ¬ ((utf8Bytes s).length : Int) < 0 := by omega
  have hend : (utf8Bytes s ++ [0]).getD (utf8Bytes s).length 0 = 0 := by simp
  rw [if_neg hneg, List.take_left, hend, decodeText_utf8Bytes]
  simp [Nat.add_assoc]

theorem readStringsFrom_encode {ss : List String} {pieces : List (List UInt8)}
    (he : ss.mapM encodeString = .ok pieces) (h : HasAt buf.bytes offset pieces.flatten) :
    readStringsFrom buf ss.length index offset = .ok (ss, offset + pieces.flatten.length) := by
  rw [mapM_eq_ok] at he
  induction he generalizing offset index with
  | nil => simp [readStringsFrom]
  | cons hs _ ih =>
    rw [List.flatten_cons] at h
    simp [readStringsFrom, readString_encodeString hs h.left, ih h.right, Nat.add_assoc]

/-- **The strings of a file are read back**, in order, together with the offset after them. -/
theorem StringTable.read_encodeStrings {ss : List String} {bytes : List UInt8}
    (he : encodeStrings ss = .ok bytes) (h : HasAt buf.bytes offset bytes) :
    StringTable.read buf offset = .ok (⟨ss.toArray⟩, offset + bytes.length) := by
  obtain ⟨hlt, pieces, hp, rfl⟩ := encodeStrings_eq_ok.1 he
  have hn := toInt_ofNat_of_lt hlt
  have hneg : ¬ (ss.length : Int) < 0 := by omega
  have hrest : readStringsFrom buf ss.length 0 (offset + 4) = .ok (ss, _) :=
    readStringsFrom_encode hp (length_int32Bytes _ ▸ h.right)
  simp only [StringTable.read, Buffer.readInt32_of_hasAt h.left, ok_bind, hn, if_neg hneg,
    Int.toNat_natCast, hrest]
  simp [Nat.add_assoc]

/-- The bytes that a string takes in a file: length, bytes, zero. -/
def stringSize (s : String) : Nat := (utf8Bytes s).length + 5

theorem le_sum_stringSize (ss : List String) : ss.length ≤ (ss.map stringSize).sum ∧
    ∀ s ∈ ss, (utf8Bytes s).length ≤ (ss.map stringSize).sum := by
  induction ss with
  | nil => simp
  | cons t ss ih =>
    have ht : stringSize t = (utf8Bytes t).length + 5 := rfl
    simp only [List.length_cons, List.map_cons, List.sum_cons, List.forall_mem_cons]
    refine ⟨by omega, by omega, fun s hs => ?_⟩
    have := ih.2 s hs
    omega

theorem length_encodeString {s : String} {bytes : List UInt8} (h : encodeString s = .ok bytes) :
    bytes.length = stringSize s := by
  obtain ⟨-, rfl⟩ := encodeString_eq_ok.1 h
  simp [stringSize]
  omega

theorem length_encodeStrings {ss : List String} {bytes : List UInt8}
    (h : encodeStrings ss = .ok bytes) : bytes.length = 4 + (ss.map stringSize).sum := by
  obtain ⟨-, pieces, hp, rfl⟩ := encodeStrings_eq_ok.1 h
  rw [List.length_append, length_int32Bytes,
    length_flatten_of_mapM (fun _ _ => length_encodeString) hp]

/-- Strings can be written if their sizes add up to less than `2 ^ 31`. -/
theorem exists_encodeStrings {ss : List String} (h : (ss.map stringSize).sum < 0x80000000) :
    ∃ bytes, encodeStrings ss = .ok bytes ∧ bytes.length = 4 + (ss.map stringSize).sum := by
  obtain ⟨hcount, hlen⟩ := le_sum_stringSize ss
  have hp : ss.mapM encodeString = .ok (ss.map fun s =>
      int32Bytes (.ofNat (utf8Bytes s).length) ++ (utf8Bytes s ++ [0])) := by
    refine mapM_eq_ok_map fun s hs => encodeString_eq_ok.2 ⟨?_, rfl⟩
    have := hlen s hs
    omega
  have he := encodeStrings_eq_ok.2 ⟨by omega, _, hp, rfl⟩
  exact ⟨_, he, length_encodeStrings he⟩

/-- A pool that was written has fewer than `2 ^ 31` strings. -/
theorem length_lt_of_encodeStrings {ss : List String} {bytes : List UInt8}
    (he : encodeStrings ss = .ok bytes) : ss.length < 0x80000000 :=
  (encodeStrings_eq_ok.1 he).1

end Gazetteer
