import Gazetteer.Database.Query
import Gazetteer.Database.Summary
import Gazetteer.Proofs.AnyTable
import Gazetteer.Proofs.FileForm

/-!
# Answers from any opened file

Opening looks at the header, the strings and the counts only, so the records, the slots and the
nodes of an opened file may hold anything. What opening has checked is enough for lookups, for the
list of items and for the summary: they give an answer, or they report damage.
-/

namespace Gazetteer

variable {α : Type} {settings : Settings} {buf : Buffer} {db : Database α} {key : String}

namespace Database

/-- The slots that the search for a name looks at, in order. -/
def slotsRead (db : Database α) (key : String) : List Nat :=
  match Probe.start (nameHash key) db.layout.geometry with
  | .error _ => []
  | .ok p =>
    Gazetteer.slotsRead db.buf db.layout.slotsAt
      (nameMatches db.buf db.strings (nameHash key) key) (db.size + 1) p

theorem slotsRead_of_start {p : Probe}
    (hp : Probe.start (nameHash key) db.layout.geometry = .ok p) :
    db.slotsRead key = Gazetteer.slotsRead db.buf db.layout.slotsAt
      (nameMatches db.buf db.strings (nameHash key) key) (db.size + 1) p := by
  rw [slotsRead, hp]

theorem searchName_of_start {p : Probe}
    (hp : Probe.start (nameHash key) db.layout.geometry = .ok p) :
    db.searchName key = searchSlots db.buf db.layout.slotsAt
      (nameMatches db.buf db.strings (nameHash key) key)
      (.corrupted (.unendingProbe (nameHash key) (db.size + 1))) (db.size + 1) p := by
  rw [searchName, lookupSlots, hp]

end Database

variable [Schema α]

/-! ## What opening has checked -/

/-- The sections of a database fill its buffer, and it has a name table. -/
structure Database.Fits (db : Database α) : Prop where
  itemSize_eq : db.layout.itemSize = Schema.recordSize α
  stop_eq : db.layout.stop = db.buf.size
  size_lt : db.buf.size < 0x80000000
  rehash_pos : 0 < db.layout.geometry.rehash
  rehash_lt : db.layout.geometry.rehash < db.layout.geometry.length

theorem Database.fits_of_ofBuffer [StorableSchema α]
    (h : Database.ofBuffer α settings buf = .ok db) : db.Fits := by
  obtain ⟨hf, -, hdb⟩ := FileForm.isFile_of_ofBuffer h
  have hlt := hf.length_lt
  rw [hdb]
  exact ⟨rfl, hf.stop_eq.trans (FileForm.length_bytes _).symm, hlt, hf.rehash_pos, hf.rehash_lt⟩

namespace Database.Fits

theorem sections_le (h : db.Fits) : db.layout.slotsAt + 4 * db.layout.geometry.length =
    db.layout.nodesAt ∧ db.layout.nodesAt + db.layout.count * nodeSize = db.buf.size :=
  ⟨db.layout.nodesAt_eq.symm, h.stop_eq⟩

theorem count_lt (h : db.Fits) : db.layout.count < 0x80000000 := by
  have hsize := h.size_lt
  have hnodes := h.sections_le.2
  rw [nodeSize] at hnodes
  omega

/-- The record of each item lies in the buffer. -/
theorem itemAt_le (h : db.Fits) {i : Nat} (hi : i < db.layout.count) :
    db.layout.itemAt i + Schema.recordSize α ≤ db.buf.size := by
  rw [← h.itemSize_eq, ← Layout.itemAt_succ, ← h.stop_eq]
  exact db.layout.itemAt_le_stop hi

/-- Every name has a probe of the table. -/
theorem exists_start (h : db.Fits) (hash : Int32) :
    ∃ p, Probe.start hash db.layout.geometry = .ok p := by
  have hpos := h.rehash_pos
  have hlt := h.rehash_lt
  rw [Probe.start, if_neg (by omega)]
  exact ⟨_, rfl⟩

end Database.Fits

/-! ## Lookup by name -/

namespace Database

/-- A search looks only at slots of the table, and at no more than it has to. -/
theorem slotsRead_bounds (h : db.Fits) :
    (db.slotsRead key).length ≤ db.size + 1 ∧ ∀ s ∈ db.slotsRead key,
      s < db.layout.geometry.length ∧ db.layout.slotsAt + 4 * s + 4 ≤ db.layout.nodesAt := by
  obtain ⟨p, hp⟩ := h.exists_start (nameHash key)
  obtain ⟨hlength, hslot, -⟩ := Probe.bounds_of_start hp
  have hpath : db.slotsRead key <+: Probe.take (db.size + 1) p := by
    rw [slotsRead_of_start hp]
    exact slotsRead_prefix
  constructor
  · have hle := hpath.length_le
    rwa [Probe.length_take] at hle
  · intro s hs
    have hlt := Probe.lt_of_mem_take hslot (hpath.subset hs)
    have hend := h.sections_le.1
    omega

/-- The item that a lookup gives has the name, and the hash of the name. -/
theorem eq_of_get?_eq_some [ForgivingSchema α] (h : db.Fits) {x : α}
    (hx : db.get? key = .ok (some x)) :
    Schema.itemName x = key ∧ (Schema.base x).hash = nameHash key := by
  obtain ⟨p, hp⟩ := h.exists_start (nameHash key)
  obtain ⟨-, hslot, -⟩ := Probe.bounds_of_start hp
  obtain ⟨o?, hresult, hx⟩ := bind_eq_ok.1 hx
  cases o? with
  | none => cases hx
  | some o =>
    obtain ⟨y, hy, hx⟩ := bind_eq_ok.1 hx
    cases hx
    rw [searchName_of_start hp] at hresult
    obtain ⟨j, -, -, hstop⟩ := (searchSlots_eq_ok hslot).1 hresult
    rcases hstop with ⟨-, hnone⟩ | ⟨o', -, hmatch, ho⟩
    · cases hnone
    · cases ho
      exact Schema.eq_of_nameMatches hmatch hy

theorem get?_eq_none_iff :
    db.get? key = .ok none ↔ (db.searchName key).result = .ok none := by
  rw [get?]
  cases (db.searchName key).result with
  | error e => simp
  | ok o? =>
    cases o? with
    | none => simp
    | some o => cases hr : db.read o <;> simp [hr]

/-- **A name is not found just if its probe meets a free slot**, and only records without the name
before it. -/
theorem get?_eq_none_iff_free {p : Probe}
    (hp : Probe.start (nameHash key) db.layout.geometry = .ok p) :
    db.get? key = .ok none ↔ ∃ j ≤ db.size,
      PassesTo db.buf db.layout.slotsAt (nameMatches db.buf db.strings (nameHash key) key) p j ∧
        db.buf.readOffset (db.layout.slotsAt + 4 * p.slotAt j) = .ok none := by
  obtain ⟨-, hslot, -⟩ := Probe.bounds_of_start hp
  rw [get?_eq_none_iff, searchName_of_start hp, searchSlots_eq_ok hslot]
  constructor
  · rintro ⟨j, hj, hpass, ⟨hfree, -⟩ | ⟨o, -, -, ho⟩⟩
    · exact ⟨j, by omega, hpass, hfree⟩
    · cases ho
  · rintro ⟨j, hj, hpass, hfree⟩
    exact ⟨j, by omega, hpass, .inl ⟨hfree, rfl⟩⟩

theorem read_damage [ForgivingSchema α] {offset : Nat} :
    FailsWith Error.IsDamage (db.read offset) := Schema.readItem_damage

/-- A lookup that fails reports damage. -/
theorem get?_damage [ForgivingSchema α] (h : db.Fits) :
    FailsWith Error.IsDamage (db.get? key) := by
  obtain ⟨p, hp⟩ := h.exists_start (nameHash key)
  have hsearch : FailsWith Error.IsDamage (db.searchName key).result := by
    rw [searchName_of_start hp]
    exact searchSlots_failsWith ⟨_, rfl⟩ (fun _ => Buffer.readOffset_failsWith)
      (fun _ => nameMatches_damage)
  apply hsearch.bind
  intro o? _
  cases o? with
  | none => exact .ok none
  | some o =>
    apply read_damage.bind
    intro x _
    exact .ok _

/-! ## The list of items -/

/-- **Every item of the list is read, or refers to a string that is not there.** -/
theorem items_failsWith [ForgivingSchema α] (h : db.Fits) {r : Except Error α}
    (hr : r ∈ db.items) : FailsWith (Error.LacksString db.strings) r := by
  simp only [items, Layout.itemPlaces, List.mem_map, List.mem_range] at hr
  obtain ⟨_, ⟨i, hi, rfl⟩, rfl⟩ := hr
  exact Schema.readItem_failsWith (h.itemAt_le hi)

theorem length_items (db : Database α) : db.items.length = db.size := by
  simp [items, size]

end Database

/-! ## The summary -/

theorem StoredTree.walk_damage {budget deepest : Nat} {pending : List (Nat × Nat)} :
    FailsWith Error.IsDamage (walk buf budget pending deepest) := by
  induction budget generalizing pending deepest with
  | zero =>
    cases pending with
    | nil => exact .ok deepest
    | cons node pending => exact .error ⟨_, rfl⟩
  | succ budget ih =>
    cases pending with
    | nil => exact .ok deepest
    | cons node pending =>
      apply Buffer.readOffset_failsWith.bind
      intro left _
      apply Buffer.readOffset_failsWith.bind
      intro right _
      exact ih

/-- A summary that fails reports damage. -/
theorem Database.summary_damage : FailsWith Error.IsDamage db.summary := by
  apply StoredTree.walk_damage.bind
  intro depth _
  exact .ok _

/-! ## With machine words -/

open Checked

namespace StoredTree

/-- Walks the pending nodes, at most `budget` of them, and returns the deepest level met. -/
def walkChecked (buf : Buffer) : (budget : Nat) → (pending : List (Nat × Nat)) →
    (deepest : Nat) → Checked Nat
  | _, [], deepest => pure deepest
  | 0, _ :: _, _ => step (.error (.corrupted .tooManyNodes))
  | budget + 1, (node, level) :: pending, deepest => do
    let leftAt ← word (node + 4)
    let left ← step (buf.readOffset leftAt)
    let rightAt ← word (node + 8)
    let right ← step (buf.readOffset rightAt)
    let _ ← word (level + 1)
    walkChecked buf budget (pushChildren level left right pending) (max deepest level)

/-- The pending nodes of a walk with a budget: their offsets and their levels are small. -/
def Small (budget : Nat) (pending : List (Nat × Nat)) : Prop :=
  ∀ p ∈ pending, p.1 < 0x8000000000000000 ∧ p.2 + budget < 0x10000000000000000

theorem mem_pushChildren {level : Nat} {left right : Option Nat} {pending : List (Nat × Nat)}
    {p : Nat × Nat} (h : p ∈ pushChildren level left right pending) :
    (∃ c, (left = some c ∨ right = some c) ∧ p = (c, level + 1)) ∨ p ∈ pending := by
  cases left with
  | none =>
    cases right with
    | none => exact .inr h
    | some r =>
      rcases List.mem_cons.1 h with rfl | h
      · exact .inl ⟨r, .inr rfl, rfl⟩
      · exact .inr h
  | some l =>
    cases right with
    | none =>
      rcases List.mem_cons.1 h with rfl | h
      · exact .inl ⟨l, .inl rfl, rfl⟩
      · exact .inr h
    | some r =>
      rcases List.mem_cons.1 h with rfl | h
      · exact .inl ⟨r, .inr rfl, rfl⟩
      · rcases List.mem_cons.1 h with rfl | h
        · exact .inl ⟨l, .inl rfl, rfl⟩
        · exact .inr h

theorem small_pushChildren {budget node level : Nat} {left right : Option Nat}
    {pending : List (Nat × Nat)} (h : Small (budget + 1) ((node, level) :: pending))
    (hl : ∀ c, left = some c → c < 0x80000000) (hr : ∀ c, right = some c → c < 0x80000000) :
    Small budget (pushChildren level left right pending) := by
  intro p hp
  rcases mem_pushChildren hp with ⟨c, hc, rfl⟩ | hp
  · have hlevel := (h (node, level) (by simp)).2
    have hsmall : c < 0x80000000 := hc.elim (hl c) (hr c)
    dsimp only at hlevel ⊢
    omega
  · have := h p (by simp [hp])
    omega

theorem yields_walkChecked {budget deepest : Nat} {pending : List (Nat × Nat)}
    (h : Small budget pending) :
    Yields (walkChecked buf budget pending deepest) (walk buf budget pending deepest) := by
  induction budget generalizing pending deepest with
  | zero =>
    cases pending with
    | nil => exact yields_pure deepest
    | cons node pending => exact yields_step _
  | succ budget ih =>
    cases pending with
    | nil => exact yields_pure deepest
    | cons first pending =>
      obtain ⟨node, level⟩ := first
      have hfirst := h (node, level) (by simp)
      dsimp only at hfirst
      apply Yields.word (by omega)
      apply (yields_step _).bind
      intro left hleft
      apply Yields.word (by omega)
      apply (yields_step _).bind
      intro right hright
      apply Yields.word (by omega)
      refine ih (small_pushChildren h ?_ ?_)
      · rintro c rfl
        exact Buffer.readOffset_lt hleft
      · rintro c rfl
        exact Buffer.readOffset_lt hright

end StoredTree

namespace Database

/-- The item with a name. -/
def getChecked (db : Database α) (key : String) : Checked (Option α) := do
  let hash := nameHash key
  match ← lookupSlotsChecked db.buf db.layout.slotsAt db.layout.geometry db.size hash
    (nameMatchesChecked db.buf db.strings hash key) with
  | none => return none
  | some offset =>
    let x ← step (db.read offset)
    return some x

/-- All items in the order of the file. -/
def itemsChecked (db : Database α) : Checked (List (Except Error α)) :=
  (List.range db.size).mapM fun i => do
    let place ← word (db.layout.itemsAt + i * db.layout.itemSize)
    return db.read place

/-- The summary of a database. The count of visited nodes goes one beyond the size, and the place of
the name table is worked out from that of its slots. -/
def summaryChecked (db : Database α) : Checked Summary := do
  let _ ← word (db.size + 1)
  let _ ← difference db.layout.slotsAt 8
  let depth ← StoredTree.walkChecked db.buf db.size (db.tree.root.toList.map fun r => (r, 1)) 0
  return {
    schema := Schema.schemaName α
    size := db.buf.size
    buildDate := db.buildDate
    crc := db.header.crc.toUInt32
    strings := db.strings.size
    layout := db.layout
    depth }

theorem yields_getChecked (h : db.Fits) :
    Yields (db.getChecked key) (db.get? key) := by
  have hsize := h.size_lt
  obtain ⟨hslots, hnodes⟩ := h.sections_le
  apply (yields_lookupSlotsChecked (fun o ho => yields_nameMatchesChecked ho) (by omega)
    h.rehash_pos h.rehash_lt h.count_lt).bind
  intro o? _
  cases o? with
  | none => exact yields_pure none
  | some o =>
    apply (yields_step _).bind
    intro x _
    exact yields_pure _

theorem yields_itemsChecked (h : db.Fits) : Yields db.itemsChecked (.ok db.items) := by
  have hitems : db.items = (List.range db.size).map fun i => db.read (db.layout.itemAt i) := by
    rw [items, Layout.itemPlaces, List.map_map]
    rfl
  rw [hitems]
  apply yields_mapM
  intro i hi
  have hplace := h.itemAt_le (List.mem_range.1 hi)
  have hsize := h.size_lt
  have hat : db.layout.itemAt i = db.layout.itemsAt + i * db.layout.itemSize := rfl
  apply Yields.word (by omega)
  exact yields_pure _

theorem yields_summaryChecked (h : db.Fits) : Yields db.summaryChecked db.summary := by
  have hcount := h.count_lt
  have hnodes := h.sections_le.2
  have hbuf := h.size_lt
  have hsize : db.size = db.layout.count := rfl
  apply Yields.word (by omega)
  apply Yields.difference (Nat.le_add_left 8 db.layout.mapAt)
  have hroot : StoredTree.Small db.size (db.tree.root.toList.map fun r => (r, 1)) := by
    intro p hp
    obtain ⟨r, hr, rfl⟩ := List.mem_map.1 hp
    rw [Option.mem_toList, tree] at hr
    dsimp only at hr
    split at hr
    · cases hr
    · cases hr
      dsimp only
      omega
  apply (StoredTree.yields_walkChecked hroot).bind
  intro depth _
  exact yields_pure _

/-- What is promised of a database whatever its file says behind the header: of the lookup of a name,
of the slots that it looks at, of the items and the summary, and of the numbers on the way. -/
structure SoundLookups (db : Database α) (key : String) : Prop where
  named : ∀ x, db.get? key = .ok (some x) →
    Schema.itemName x = key ∧ (Schema.base x).hash = nameHash key
  /-- Nothing is found just if the probe meets a free slot, and its first slots are looked at. -/
  probed : ∃ p, Probe.start (nameHash key) db.layout.geometry = .ok p ∧
    (db.get? key = .ok none ↔ ∃ j ≤ db.size, PassesTo db.buf db.layout.slotsAt
      (nameMatches db.buf db.strings (nameHash key) key) p j ∧
        db.buf.readOffset (db.layout.slotsAt + 4 * p.slotAt j) = .ok none) ∧
    db.slotsRead key <+: Probe.take (db.size + 1) p
  fails_damaged : FailsWith Error.IsDamage (db.get? key)
  length_slotsRead : (db.slotsRead key).length ≤ db.size + 1
  slotsRead_inside : ∀ s ∈ db.slotsRead key,
    s < db.layout.geometry.length ∧ db.layout.slotsAt + 4 * s + 4 ≤ db.layout.nodesAt
  /-- The search reads no slot but these: any buffer that agrees there gives the same. -/
  slotsRead_only : ∀ buf' : Buffer,
    (∀ s ∈ db.slotsRead key, buf'.readOffset (db.layout.slotsAt + 4 * s) =
      db.buf.readOffset (db.layout.slotsAt + 4 * s)) →
    lookupSlots buf' db.layout.slotsAt db.layout.geometry db.size (nameHash key)
      (nameMatches db.buf db.strings (nameHash key) key) = db.searchName key
  length_items : db.items.length = db.size
  items_lack : ∀ r ∈ db.items, FailsWith (Error.LacksString db.strings) r
  summary_damaged : FailsWith Error.IsDamage db.summary
  /-- No step gives up on a machine: the checked forms yield the same. -/
  yields_get : (db.getChecked key).Yields (db.get? key)
  yields_items : db.itemsChecked.Yields (.ok db.items)
  yields_summary : db.summaryChecked.Yields db.summary

/-- **Lookups, items and summary of any opened file are sound.** What a lookup gives has the name
and its hash; it gives nothing just if the probe meets a free slot, and fails only with damage. It
looks at the first slots of the probe, one more than there are items at most, and all of them in the
table. Every item is read or lacks a string. No step gives up on a machine. -/
theorem lookups_of_ofBuffer [StorableSchema α] [ForgivingSchema α]
    (h : Database.ofBuffer α settings buf = .ok db) (key : String) : db.SoundLookups key := by
  have hf := fits_of_ofBuffer h
  obtain ⟨p, hp⟩ := hf.exists_start (nameHash key)
  refine {
    named := fun x => eq_of_get?_eq_some hf
    probed := ⟨p, hp, get?_eq_none_iff_free hp, ?_⟩
    fails_damaged := get?_damage hf
    length_slotsRead := (slotsRead_bounds hf).1
    slotsRead_inside := (slotsRead_bounds hf).2
    slotsRead_only := fun buf' hsame => ?_
    length_items := length_items db
    items_lack := fun r => items_failsWith hf
    summary_damaged := summary_damage
    yields_get := yields_getChecked hf
    yields_items := yields_itemsChecked hf
    yields_summary := yields_summaryChecked hf }
  · rw [slotsRead_of_start hp]
    exact slotsRead_prefix
  · rw [slotsRead_of_start hp] at hsame
    rw [searchName_of_start hp, lookupSlots, hp]
    exact searchSlots_congr hsame

theorem lookups_of_ofBuffer_scribbled :
    (∃ db, Database.ofBuffer Place lenientSettings
        (.ofList ((scribbledForm Place).bytes Place)) = .ok db ∧
      FailsWith Error.IsDamage (db.get? "Quito") ∧ (db.slotsRead "Quito").length ≤ 2 ∧
      db.items.length = 1 ∧ ∀ r ∈ db.items, FailsWith (Error.LacksString db.strings) r) ∧
    ∃ db, Database.ofBuffer Airport lenientSettings
        (.ofList ((scribbledForm Airport).bytes Airport)) = .ok db ∧
      FailsWith Error.IsDamage (db.get? "Quito") ∧ (db.slotsRead "Quito").length ≤ 2 ∧
      db.items.length = 1 ∧ ∀ r ∈ db.items, FailsWith (Error.LacksString db.strings) r := by
  have hplace : Database.ofBuffer Place lenientSettings _ = .ok _ :=
    (isFile_scribbledForm Place (by decide)).ofBuffer_eq (by decide)
  have hairport : Database.ofBuffer Airport lenientSettings _ = .ok _ :=
    (isFile_scribbledForm Airport (by decide)).ofBuffer_eq (by decide)
  have hp := lookups_of_ofBuffer hplace "Quito"
  have ha := lookups_of_ofBuffer hairport "Quito"
  exact ⟨⟨_, hplace, hp.fails_damaged, hp.length_slotsRead, hp.length_items, hp.items_lack⟩,
    ⟨_, hairport, ha.fails_damaged, ha.length_slotsRead, ha.length_items, ha.items_lack⟩⟩

end Database
end Gazetteer
