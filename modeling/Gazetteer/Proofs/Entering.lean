import Mathlib.Data.List.Perm.Subperm
import Gazetteer.Proofs.Probing
import Gazetteer.Proofs.Reading

/-!
# The name table while it is filled

Each record is entered in the first free slot of its probe. `Entered` is what this keeps true: every
entry stands on its own probe, behind slots that earlier entries took. Nothing that is entered later
disturbs it, so a search finds what was entered, and what was not entered is missed at a free slot.
-/

namespace Gazetteer

/-! ## Occupied slots -/

/-- The words of a table that are no marks of free slots. -/
def occupied (slots : Array Int32) : List Int32 := slots.toList.filter (· != emptyOffset)

theorem mem_occupied {slots : Array Int32} {i : Nat} {v : Int32} (h : slots[i]? = some v)
    (hv : v ≠ emptyOffset) : v ∈ occupied slots := by
  rw [occupied, List.mem_filter]
  exact ⟨List.mem_of_getElem? (by simpa using h), by simpa using hv⟩

/-- Different places with occupied slots are no more than there are occupied slots. -/
theorem length_le_occupied {slots : Array Int32} {places : List Nat} (hn : places.Nodup)
    (h : ∀ i ∈ places, ∃ v, slots[i]? = some v ∧ v ≠ emptyOffset) :
    places.length ≤ (occupied slots).length := by
  have hslots : slots.toList = (List.range slots.size).map fun i => slots[i]?.getD emptyOffset := by
    refine List.ext_getElem (by simp) fun i h₁ h₂ => ?_
    simp at h₁
    simp [h₁]
  have hsub : places ⊆ (List.range slots.size).filter
      ((· != emptyOffset) ∘ fun i => slots[i]?.getD emptyOffset) := by
    intro i hi
    obtain ⟨v, hv, hne⟩ := h i hi
    obtain ⟨hlt, rfl⟩ := Array.getElem?_eq_some_iff.1 hv
    simp [hlt, hne]
  have hle := (List.subperm_of_subset hn hsub).length_le
  rw [occupied, hslots, List.filter_map, List.length_map]
  exact hle

/-- Writing a word into a free slot adds it to the occupied ones. -/
theorem filter_set_perm {α : Type} {q : α → Bool} {l : List α} {i : Nat} {a v : α}
    (h : l[i]? = some a) (ha : q a = false) (hv : q v = true) :
    ((l.set i v).filter q).Perm (v :: l.filter q) := by
  induction l generalizing i with
  | nil => simp at h
  | cons b l ih =>
    cases i with
    | zero =>
      cases (by simpa using h : b = a)
      simp [ha, hv]
    | succ i =>
      have hl := ih (by simpa using h)
      by_cases hb : q b = true
      · simp only [List.set_cons_succ, List.filter_cons, hb, if_true]
        exact (hl.cons b).trans (List.Perm.swap v b _)
      · simp only [List.set_cons_succ, List.filter_cons, hb]
        exact hl

/-! ## What entering keeps true -/

/-- A table after the given entries. -/
structure Entered (g : TableGeometry) (es : List SlotEntry) (slots : Array Int32) : Prop where
  size_eq : slots.size = g.length
  offset_lt : ∀ e ∈ es, e.offset < 0x80000000
  occupied_perm : (occupied slots).Perm (es.map fun e => Int32.ofNat e.offset)
  placed : ∀ (n : Nat) (e : SlotEntry), es[n]? = some e → ∃ p j, Probe.start e.hash g = .ok p ∧ j < p.period ∧
    slots[p.slotAt j]? = some (.ofNat e.offset) ∧
    ∀ k < j, ∃ m < n, ∃ e', es[m]? = some e' ∧ slots[p.slotAt k]? = some (.ofNat e'.offset)

variable {g : TableGeometry} {es : List SlotEntry} {slots slots' : Array Int32} {e : SlotEntry}

theorem entered_nil (g : TableGeometry) : Entered g [] (Array.replicate g.length emptyOffset) where
  size_eq := by simp
  offset_lt := by simp
  occupied_perm := by simp [occupied]
  placed := by simp

theorem enterSlot_eq_ok : enterSlot g slots e = .ok slots' ↔ e.offset < 0x80000000 ∧
    ∃ p i, Probe.start e.hash g = .ok p ∧ freeSlot? slots g.length p = some i ∧
      slots' = slots.setIfInBounds i (.ofNat e.offset) := by
  unfold enterSlot
  constructor
  · intro h
    obtain ⟨_, ho', h⟩ := bind_eq_ok.1 h
    obtain ⟨p, hp, h⟩ := bind_eq_ok.1 h
    obtain ⟨ho, rfl⟩ := toInt32_eq_ok.1 ho'
    split at h
    · rename_i i hi
      cases h
      exact ⟨ho, p, i, hp, hi, rfl⟩
    · cases h
  · rintro ⟨ho, p, i, hp, hi, rfl⟩
    simp only [toInt32_eq_ok.2 ⟨ho, rfl⟩, hp, ok_bind, hi]
    rfl

/-- A free slot that is filled leaves the other words where they are. -/
theorem getElem?_fill {f i : Nat} {v w : Int32} (hfree : slots[f]? = some emptyOffset)
    (hv : slots[i]? = some v) (hne : v ≠ emptyOffset) :
    (slots.setIfInBounds f w)[i]? = some v := by
  rw [Array.getElem?_setIfInBounds_ne, hv]
  rintro rfl
  exact hne (Option.some.inj (hv.symm.trans hfree))

/-- A probe that comes around meets the slots it started with, so the first free slot that it meets
comes before. -/
theorem lt_period_of_free {p : Probe} {j : Nat} (hpos : 0 < p.length)
    (hfree : slots[p.slotAt j]? = some emptyOffset)
    (hbefore : ∀ k < j, slots[p.slotAt k]? ≠ some emptyOffset) : j < p.period := by
  by_contra hround
  obtain ⟨r, rfl⟩ := Nat.exists_eq_add_of_le (Nat.le_of_not_lt hround)
  have hperiod := Probe.period_pos hpos
  have hsame : p.slotAt r = p.slotAt (p.period + r) :=
    (Probe.slotAt_eq_iff hpos).2 (Nat.add_mod_left _ _).symm
  exact hbefore r (by omega) (hsame ▸ hfree)

namespace Entered

/-- A word in a table is the mark of a free slot or the offset of an entry. -/
theorem word_cases (h : Entered g es slots) {i : Nat} {v : Int32} (hv : slots[i]? = some v) :
    v = emptyOffset ∨ ∃ e ∈ es, v = .ofNat e.offset := by
  by_cases hne : v = emptyOffset
  · exact Or.inl hne
  · have hmem := h.occupied_perm.mem_iff.1 (mem_occupied hv hne)
    obtain ⟨e, he, rfl⟩ := List.mem_map.1 hmem
    exact Or.inr ⟨e, he, rfl⟩

theorem length_occupied (h : Entered g es slots) : (occupied slots).length = es.length := by
  rw [h.occupied_perm.length_eq, List.length_map]

/-- A slot that is not free holds the offset of an entry. -/
theorem exists_entry (h : Entered g es slots) {i : Nat} (hi : i < slots.size)
    (hne : slots[i]? ≠ some emptyOffset) :
    ∃ m < es.length, ∃ e, es[m]? = some e ∧ slots[i]? = some (.ofNat e.offset) := by
  have hv := Array.getElem?_eq_getElem hi
  obtain hempty | ⟨e, he, hword⟩ := h.word_cases hv
  · exact absurd (hv.trans (congrArg some hempty)) hne
  · obtain ⟨m, hm⟩ := List.mem_iff_getElem?.1 he
    exact ⟨m, (List.getElem?_eq_some_iff.1 hm).1, e, hm, hv.trans (congrArg some hword)⟩

/-- **Entering a record** keeps the earlier ones where they are. -/
theorem enter (h : Entered g es slots) (he : enterSlot g slots e = .ok slots') :
    Entered g (es ++ [e]) slots' := by
  obtain ⟨ho, p, i, hp, hi, rfl⟩ := enterSlot_eq_ok.1 he
  obtain ⟨hlen, hslot, -⟩ := Probe.bounds_of_start hp
  obtain ⟨j, hj, rfl, hfree, hbefore⟩ := freeSlot?_eq_some hslot hi
  have hne : Int32.ofNat e.offset ≠ emptyOffset := ofNat_ne_emptyOffset ho
  have hkeep {i : Nat} {e' : SlotEntry} (he' : e' ∈ es)
      (hv : slots[i]? = some (.ofNat e'.offset)) :
      (slots.setIfInBounds (p.slotAt j) (.ofNat e.offset))[i]? = some (.ofNat e'.offset) :=
    getElem?_fill hfree hv (ofNat_ne_emptyOffset (h.offset_lt e' he'))
  refine ⟨by simp [h.size_eq], ?_, ?_, ?_⟩
  · simpa [or_imp, forall_and, ho] using h.offset_lt
  · rw [List.map_append, occupied, Array.toList_setIfInBounds]
    refine (filter_set_perm (a := emptyOffset) (by simpa using hfree) (by simp)
      (by simpa using hne)).trans ?_
    exact (h.occupied_perm.cons _).trans (List.perm_append_singleton _ _).symm
  · intro n e₁ hn
    rcases Nat.lt_or_ge n es.length with hlt | hge
    · rw [List.getElem?_append_left hlt] at hn
      obtain ⟨p₁, j₁, hp₁, hj₁, hat, hpath⟩ := h.placed n e₁ hn
      refine ⟨p₁, j₁, hp₁, hj₁, hkeep (List.mem_of_getElem? hn) hat, fun k hk => ?_⟩
      obtain ⟨m, hm, e', he', hat'⟩ := hpath k hk
      refine ⟨m, hm, e', ?_, hkeep (List.mem_of_getElem? he') hat'⟩
      rwa [List.getElem?_append_left (by omega)]
    · have hn₁ : n = es.length := by
        have := (List.getElem?_eq_some_iff.1 hn).1
        simp only [List.length_append, List.length_singleton] at this
        omega
      subst hn₁
      obtain rfl : e = e₁ := by simpa using hn
      have hpos : 0 < p.length := by omega
      have hlt : p.slotAt j < slots.size := (Array.getElem?_eq_some_iff.1 hfree).1
      refine ⟨p, j, hp, lt_period_of_free hpos hfree hbefore,
        Array.getElem?_setIfInBounds_self_of_lt hlt, fun k hk => ?_⟩
      have hslot' : p.slotAt k < slots.size := h.size_eq ▸ hlen ▸ Probe.slotAt_lt hpos k
      obtain ⟨m, hm, e', he', hat⟩ := h.exists_entry hslot' (hbefore k hk)
      exact ⟨m, hm, e', by rwa [List.getElem?_append_left hm],
        hkeep (List.mem_of_getElem? he') hat⟩

/-- Some place among the first `m` of a probe is free, if there are fewer than `m` entries and the
probe does not repeat itself before. -/
theorem exists_free (h : Entered g es slots) {p : Probe} {m : Nat} (hl : p.length = g.length)
    (hpos : 0 < p.length) (hm : m ≤ p.period) (hes : es.length < m) :
    ∃ j < m, slots[p.slotAt j]? = some emptyOffset := by
  by_contra hfull
  have hle : ((List.range m).map p.slotAt).length ≤ (occupied slots).length := by
    refine length_le_occupied (Probe.nodup_map_slotAt hpos hm) fun i hi => ?_
    obtain ⟨j, hj, rfl⟩ := List.mem_map.1 hi
    have hlt : p.slotAt j < slots.size := h.size_eq ▸ hl ▸ Probe.slotAt_lt hpos j
    refine ⟨_, Array.getElem?_eq_getElem hlt, fun he => hfull ⟨j, List.mem_range.1 hj, ?_⟩⟩
    rw [Array.getElem?_eq_getElem hlt, he]
  rw [h.length_occupied, List.length_map, List.length_range] at hle
  omega

/-- A probe of a table of prime length finds a free slot as long as there is one. -/
theorem exists_freeSlot (h : Entered g es slots) (hp : g.length.Prime) (hr : g.rehash < g.length)
    (hlen : es.length < g.length) {hash : Int32} {p : Probe} (hs : Probe.start hash g = .ok p) :
    ∃ i, freeSlot? slots g.length p = some i := by
  obtain ⟨hl, hslot, -⟩ := Probe.bounds_of_start hs
  cases hfree : freeSlot? slots g.length p with
  | some i => exact ⟨i, rfl⟩
  | none =>
    have hperiod := TableGeometry.period_of_start hp hr hs
    obtain ⟨j, hj, he⟩ := h.exists_free hl (by omega) (by omega) hlen
    exact absurd he (freeSlot?_eq_none hslot hfree j hj)

/-- A record can be entered as long as a table of prime length has room. -/
theorem exists_enterSlot (h : Entered g es slots) (hp : g.length.Prime) (hpos : 0 < g.rehash)
    (hr : g.rehash < g.length) (hlen : es.length < g.length) (ho : e.offset < 0x80000000) :
    ∃ slots', enterSlot g slots e = .ok slots' := by
  obtain ⟨p, hs⟩ : ∃ p, Probe.start e.hash g = .ok p :=
    ⟨_, Probe.start_eq_ok.2 ⟨⟨by omega, by omega⟩, rfl⟩⟩
  obtain ⟨i, hi⟩ := h.exists_freeSlot hp hr hlen hs
  exact ⟨_, enterSlot_eq_ok.2 ⟨ho, p, i, hs, hi, rfl⟩⟩

/-- The entries that stand before one on its probe are fewer than there are entries. -/
theorem place_lt (h : Entered g es slots) {p : Probe} {j : Nat} (hj : j < p.period)
    (hpos : 0 < p.length)
    (hpath : ∀ k ≤ j, ∃ e' ∈ es, slots[p.slotAt k]? = some (.ofNat e'.offset)) :
    j < es.length := by
  have hle : ((List.range (j + 1)).map p.slotAt).length ≤ (occupied slots).length := by
    refine length_le_occupied (Probe.nodup_map_slotAt hpos hj) fun i hi => ?_
    obtain ⟨k, hk, rfl⟩ := List.mem_map.1 hi
    obtain ⟨e', he', hat⟩ := hpath k (by rw [List.mem_range] at hk; omega)
    exact ⟨_, hat, ofNat_ne_emptyOffset (h.offset_lt e' he')⟩
  rw [h.length_occupied, List.length_map, List.length_range] at hle
  omega

end Entered

/-! ## Whole tables -/

/-- **A table that was built holds its entries**, each of them once. -/
theorem entered_of_buildSlots (h : buildSlots g es = .ok slots) : Entered g es slots := by
  suffices hrun : ∀ (rest done : List SlotEntry) (slots₀ : Array Int32), Entered g done slots₀ →
      rest.foldlM (enterSlot g) slots₀ = .ok slots → Entered g (done ++ rest) slots from
    hrun es [] _ (entered_nil g) h
  intro rest
  induction rest with
  | nil =>
    intro done slots₀ h₀ h
    cases h
    rwa [List.append_nil]
  | cons e rest ih =>
    intro done slots₀ h₀ h
    rw [List.foldlM_cons] at h
    obtain ⟨slots₁, h₁, h₂⟩ := bind_eq_ok.1 h
    rw [List.append_cons]
    exact ih _ _ (h₀.enter h₁) h₂

/-- A table of prime length takes any entries that are fewer than its slots. -/
theorem exists_buildSlots (hp : g.length.Prime) (hpos : 0 < g.rehash) (hr : g.rehash < g.length)
    (hlen : es.length < g.length) (ho : ∀ e ∈ es, e.offset < 0x80000000) :
    ∃ slots, buildSlots g es = .ok slots := by
  suffices hrun : ∀ (rest done : List SlotEntry) (slots₀ : Array Int32), Entered g done slots₀ →
      (done ++ rest).length < g.length → (∀ e ∈ rest, e.offset < 0x80000000) →
      ∃ slots, rest.foldlM (enterSlot g) slots₀ = .ok slots from
    hrun es [] _ (entered_nil g) hlen ho
  intro rest
  induction rest with
  | nil => exact fun _ slots₀ _ _ _ => ⟨slots₀, rfl⟩
  | cons e rest ih =>
    intro done slots₀ h₀ hlen ho
    rw [List.length_append, List.length_cons] at hlen
    obtain ⟨slots₁, h₁⟩ := h₀.exists_enterSlot hp hpos hr (by omega) (ho e (by simp))
    obtain ⟨slots, h₂⟩ := ih (done ++ [e]) slots₁ (h₀.enter h₁)
      (by simp only [List.length_append, List.length_singleton]; omega)
      (fun e' he' => ho e' (by simp [he']))
    exact ⟨slots, by rw [List.foldlM_cons]; exact bind_eq_ok.2 ⟨slots₁, h₁, h₂⟩⟩

end Gazetteer
