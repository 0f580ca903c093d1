import Mathlib.Data.List.Nodup
import Gazetteer.Proofs.MachineWords

/-!
# Lists of strings

A pool is made by adding strings one after another. It lists them in the order in which they were
new, and has the place of each. What is written of the list stands for it in both directions: a
table is read from bytes just if they are what is written of the strings of the table.
-/

namespace Gazetteer

/-! ## Adding -/

/-- The strings that were told to be new, of strings that were added. -/
def newOf (calls : List String) (answers : List Bool) : List String :=
  ((calls.zip answers).filter Prod.snd).map Prod.fst

@[simp] theorem newOf_cons (s : String) (calls : List String) (isNew : Bool) (answers : List Bool) :
    newOf (s :: calls) (isNew :: answers) =
      if isNew then s :: newOf calls answers else newOf calls answers := by
  cases isNew <;> simp [newOf]

namespace StringPool

variable {pool : StringPool} {calls : List String} {s : String} {k : Nat}

@[simp] theorem addMany_cons (pool : StringPool) (s : String) (calls : List String) :
    pool.addMany (s :: calls) =
      ((pool.add s).1 :: ((pool.insert s).addMany calls).1, ((pool.insert s).addMany calls).2) :=
  rfl

theorem snd_addMany (pool : StringPool) (calls : List String) :
    (pool.addMany calls).2 = pool.insertMany calls := by
  induction calls generalizing pool with
  | nil => rfl
  | cons s calls ih => exact ih (pool.insert s)

theorem length_fst_addMany (pool : StringPool) (calls : List String) :
    (pool.addMany calls).1.length = calls.length := by
  induction calls generalizing pool with
  | nil => rfl
  | cons s calls ih => simp [ih]

theorem Indexed.add_fst (h : Indexed pool) (s : String) :
    (pool.add s).1 = decide (s ∉ pool.toList) := by
  simp [add, ← h.contains_iff]

theorem Indexed.mem_insert (h : Indexed pool) {t : String} :
    t ∈ (pool.insert s).toList ↔ t ∈ pool.toList ∨ t = s := by
  have hone : t ∈ (pool.insertMany [s]).toList ↔ t ∈ pool.toList ∨ t ∈ [s] := h.mem_insertMany
  rwa [List.mem_singleton] at hone

/-- A string is told to be new if neither the pool nor a string added before is the same. -/
theorem Indexed.getElem?_fst_addMany (h : Indexed pool) (hs : calls[k]? = some s) :
    (pool.addMany calls).1[k]? = some (decide (s ∉ pool.toList ∧ s ∉ calls.take k)) := by
  induction calls generalizing pool k with
  | nil => cases hs
  | cons t calls ih =>
    cases k with
    | zero =>
      obtain rfl : t = s := Option.some.inj hs
      simp [h.add_fst]
    | succ k =>
      rw [addMany_cons, List.getElem?_cons_succ, ih (h.insert t) hs]
      refine congrArg some (decide_eq_decide.2 ?_)
      rw [h.mem_insert, List.take_succ_cons, List.mem_cons, not_or, not_or, and_assoc]

/-- The strings that are new are added to the list, in their order. -/
theorem Indexed.toList_snd_addMany (h : Indexed pool) (calls : List String) :
    (pool.addMany calls).2.toList = pool.toList ++ newOf calls (pool.addMany calls).1 := by
  induction calls generalizing pool with
  | nil => simp [addMany, newOf]
  | cons s calls ih =>
    rw [addMany_cons, ih (h.insert s), newOf_cons, h.toList_insert]
    by_cases hs : s ∈ pool.toList
    · simp [h.add_fst, hs]
    · simp [h.add_fst, hs]

/-- A string has one place. -/
theorem Indexed.nodup (h : Indexed pool) : pool.toList.Nodup := by
  rw [List.nodup_iff_getElem?_ne_getElem?]
  intro i j hij hj heq
  have hs := List.getElem?_eq_getElem hj
  have hi := (h _ _).2 (heq.trans hs)
  rw [(h _ _).2 hs] at hi
  exact absurd (Option.some.inj hi) (Nat.ne_of_gt hij)

/-- The place of a string as a word of 32 bits. -/
def indexWord? (pool : StringPool) (s : String) : Option UInt32 :=
  (pool.indexOf? s).map UInt32.ofNat

/-- A word is enough for the places in a list of `2 ^ 32` strings. -/
theorem Indexed.indexWord?_eq_some (h : Indexed pool) (hsize : pool.size ≤ 0x100000000)
    {w : UInt32} : pool.indexWord? s = some w ↔ pool.toList[w.toNat]? = some s := by
  rw [indexWord?, Option.map_eq_some_iff]
  constructor
  · rintro ⟨i, hi, rfl⟩
    have hget := (h s i).1 hi
    have hlt : i < pool.toList.length := (List.getElem?_eq_some_iff.1 hget).1
    have hlen : pool.toList.length = pool.size := Array.length_toList
    have hi32 : i < 0x100000000 := by omega
    rwa [UInt32.toNat_ofNat_of_lt' hi32]
  · intro hget
    exact ⟨w.toNat, (h s _).2 hget, UInt32.ofNat_toNat⟩

/-- A pool lists the strings that were added, with what was told of each. -/
structure Lists (pool : StringPool) (calls : List String) (answers : List Bool) : Prop where
  length_answers : answers.length = calls.length
  /-- A string is new if it was not added before. -/
  isNew : ∀ k s, calls[k]? = some s → answers[k]? = some (decide (s ∉ calls.take k))
  /-- The strings that were new are listed in their order. -/
  toList_eq : pool.toList = newOf calls answers
  nodup : pool.toList.Nodup
  mem_iff : ∀ s, s ∈ pool.toList ↔ s ∈ calls
  indexOf?_iff : ∀ s i, pool.indexOf? s = some i ↔ pool.toList[i]? = some s
  indexWord?_iff : pool.size ≤ 0x100000000 →
    ∀ s w, pool.indexWord? s = some w ↔ pool.toList[w.toNat]? = some s

theorem lists_addMany (calls : List String) :
    ((∅ : StringPool).addMany calls).2.Lists calls ((∅ : StringPool).addMany calls).1 := by
  have hindexed : ((∅ : StringPool).addMany calls).2.Indexed := by
    rw [snd_addMany]
    exact indexed_empty.insertMany calls
  have hempty : ∀ s, s ∉ (∅ : StringPool).toList := fun s => List.not_mem_nil
  refine ⟨length_fst_addMany _ _, ?isNew, ?toList_eq, hindexed.nodup, ?mem_iff, hindexed, ?word⟩
  case isNew =>
    intro k s hs
    rw [indexed_empty.getElem?_fst_addMany hs]
    simp [hempty s]
  case toList_eq => exact indexed_empty.toList_snd_addMany calls
  case mem_iff =>
    intro s
    rw [snd_addMany, indexed_empty.mem_insertMany]
    exact or_iff_right (hempty s)
  case word => exact fun hsize s w => hindexed.indexWord?_eq_some hsize

example : ((∅ : StringPool).addMany ["b", "a", "b"]).1 = [true, true, false] := by cbv

end StringPool

/-! ## Writing and reading -/

/-- The number of strings and their lengths are words of the file format. -/
def FitsWords (ss : List String) : Prop :=
  ss.length < 0x80000000 ∧ ∀ s ∈ ss, (utf8Bytes s).length < 0x80000000

/-- Strings are written if they fit, and then one after another. -/
theorem encodeStrings_eq_ok_iff_fitsWords {ss : List String} {bytes : List UInt8} :
    encodeStrings ss = .ok bytes ↔ FitsWords ss ∧ bytes = stringsBytes ss := by
  rw [encodeStrings_eq_ok]
  constructor
  · rintro ⟨hlen, pieces, hp, rfl⟩
    have hall : ∀ s ∈ ss, (utf8Bytes s).length < 0x80000000 := by
      intro s hs
      obtain ⟨i, hi⟩ := List.mem_iff_getElem?.1 hs
      obtain ⟨piece, -, hpiece⟩ := getElem?_of_mapM_eq_ok hp hi
      exact (encodeString_eq_ok.1 hpiece).1
    rw [mapM_encodeString hall] at hp
    cases hp
    exact ⟨⟨hlen, hall⟩, rfl⟩
  · rintro ⟨⟨hlen, hall⟩, rfl⟩
    exact ⟨hlen, _, mapM_encodeString hall, rfl⟩

example : stringsBytes ["é"] = [0, 0, 0, 1, 0, 0, 0, 2, 0xc3, 0xa9, 0] := by decide

namespace StringTable

variable {buf : Buffer} {offset stop : Nat} {table : StringTable} {before bytes : List UInt8}

theorem read_eq_ok_iff_fitsWords : StringTable.read buf offset = .ok (table, stop) ↔
    FitsWords table.toList ∧ HasAt buf.bytes offset (stringsBytes table.toList) ∧
      stop = offset + (stringsBytes table.toList).length := by
  rw [read_eq_ok]
  constructor
  · rintro ⟨ss, hfits, hat, rfl, hstop⟩
    exact ⟨hfits, hat, hstop⟩
  · rintro ⟨hfits, hat, hstop⟩
    exact ⟨table.toList, hfits, hat, rfl, hstop⟩

/-- What was read is written again as it stands. -/
theorem encodeStrings_of_read (h : StringTable.read buf offset = .ok (table, stop)) :
    encodeStrings table.toList = .ok ((buf.bytes.drop offset).take (stop - offset)) := by
  obtain ⟨hfits, hat, rfl⟩ := read_eq_ok_iff_fitsWords.1 h
  refine encodeStrings_eq_ok_iff_fitsWords.2 ⟨hfits, ?_⟩
  rw [Nat.add_sub_cancel_left, hat.take_drop]

/-- A buffer where no strings stand is refused. -/
theorem exists_error_of_read_ne_ok (h : ∀ r, StringTable.read buf offset ≠ .ok r) :
    ∃ e, StringTable.read buf offset = .error e ∧ e.RefusesFile := by
  cases hread : StringTable.read buf offset with
  | ok r => exact absurd hread (h r)
  | error e => exact ⟨e, rfl, read_refuses e hread⟩

/-- Strings that are cut short are not read. -/
theorem read_take_ne_ok {ss : List String} {k : Nat} (he : encodeStrings ss = .ok bytes)
    (hk : k < bytes.length) (r : StringTable × Nat) :
    StringTable.read (.ofList (before ++ bytes.take k)) before.length ≠ .ok r := by
  obtain ⟨table, stop⟩ := r
  intro h
  obtain ⟨hfits, hat, rfl⟩ := read_eq_ok_iff_fitsWords.1 h
  have hle := hat.le_length
  -- the strings that were read stand in all the bytes too, where the others are read
  have hall : HasAt (before ++ bytes) before.length (stringsBytes table.toList) := by
    obtain ⟨front, after, hcut, hfront⟩ := hat
    refine ⟨front, after ++ bytes.drop k, ?_, hfront⟩
    rw [← List.append_assoc (stringsBytes _), ← List.append_assoc front, ← hcut,
      Buffer.bytes_ofList, List.append_assoc, List.take_append_drop]
  have hread : StringTable.read (.ofList (before ++ bytes)) before.length = .ok (table, _) :=
    read_eq_ok_iff_fitsWords.2 ⟨hfits, hall, rfl⟩
  have hself : HasAt (Buffer.ofList (before ++ bytes)).bytes before.length bytes :=
    ⟨before, [], by simp, rfl⟩
  rw [read_encodeStrings he hself] at hread
  simp only [Except.ok.injEq, Prod.mk.injEq] at hread
  simp only [Buffer.bytes_ofList, List.length_append, List.length_take] at hle
  omega

end StringTable

/-- A list of strings is written as it is read. -/
structure WrittenAsRead (ss : List String) : Prop where
  encode_iff : ∀ bytes, encodeStrings ss = .ok bytes ↔ FitsWords ss ∧ bytes = stringsBytes ss
  /-- The strings are read from what was written, whatever stands around it. -/
  read : ∀ before bytes after, encodeStrings ss = .ok bytes →
    StringTable.read (.ofList (before ++ (bytes ++ after))) before.length =
      .ok (⟨ss.toArray⟩, before.length + bytes.length)
  /-- What was written is refused if it was cut short. -/
  cut : ∀ before bytes k, encodeStrings ss = .ok bytes → k < bytes.length →
    ∃ e, StringTable.read (.ofList (before ++ bytes.take k)) before.length = .error e ∧
      e.RefusesFile

theorem writtenAsRead (ss : List String) : WrittenAsRead ss := by
  refine ⟨fun bytes => encodeStrings_eq_ok_iff_fitsWords, ?read, ?cut⟩
  case read =>
    intro before bytes after he
    exact StringTable.read_encodeStrings he ⟨before, after, rfl, rfl⟩
  case cut =>
    intro before bytes k he hk
    exact StringTable.exists_error_of_read_ne_ok (StringTable.read_take_ne_ok he hk)

/-- What is read at a place of a buffer is what is written there. -/
structure ReadAsWritten (buf : Buffer) (offset : Nat) : Prop where
  read_iff : ∀ table stop, StringTable.read buf offset = .ok (table, stop) ↔
    FitsWords table.toList ∧ HasAt buf.bytes offset (stringsBytes table.toList) ∧
      stop = offset + (stringsBytes table.toList).length
  encode : ∀ table stop, StringTable.read buf offset = .ok (table, stop) →
    encodeStrings table.toList = .ok ((buf.bytes.drop offset).take (stop - offset))
  /-- Anything else is refused. -/
  refuses : (∀ r, StringTable.read buf offset ≠ .ok r) →
    ∃ e, StringTable.read buf offset = .error e ∧ e.RefusesFile
  /-- No sum exceeds a machine word, as memory holds fewer than `2 ^ 63` bytes. -/
  goesThrough : buf.size < 0x8000000000000000 →
    Checked.Yields (StringTable.readChecked buf offset) (StringTable.read buf offset)

theorem readAsWritten (buf : Buffer) (offset : Nat) : ReadAsWritten buf offset :=
  ⟨fun _ _ => StringTable.read_eq_ok_iff_fitsWords, fun _ _ => StringTable.encodeStrings_of_read,
    StringTable.exists_error_of_read_ne_ok, StringTable.yields_readChecked⟩

/-- **Strings are listed as they were added, written as they are listed and read as they were
written**, and nothing else is read. -/
theorem listed_written_read (calls : List String) (buf : Buffer) (offset : Nat) :
    ((∅ : StringPool).addMany calls).2.Lists calls ((∅ : StringPool).addMany calls).1 ∧
      WrittenAsRead ((∅ : StringPool).addMany calls).2.toList ∧ ReadAsWritten buf offset :=
  ⟨StringPool.lists_addMany calls, writtenAsRead _, readAsWritten buf offset⟩

end Gazetteer
