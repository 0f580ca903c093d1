import Gazetteer.Proofs.AnyRecord
import Gazetteer.Proofs.Lookup
import Gazetteer.Proofs.MachineWords

/-!
# Searching any name table

The slots of a file may hold anything. A search still looks at no more slots than it is allowed and
only at those of the table, and what it says is so: the record that it gives matched, and it finds
none only at a free slot behind slots whose records did not match.
-/

namespace Gazetteer

section
variable {buf buf' : Buffer} {slotsAt slotsAt' : Nat} {isMatch : Nat → Except Error Bool}
  {exhausted : Error} {fuel : Nat} {p : Probe}

/-! ## What a search says -/

/-- The first `j` slots of a probe hold records that do not match. -/
def PassesTo (buf : Buffer) (slotsAt : Nat) (isMatch : Nat → Except Error Bool) (p : Probe)
    (j : Nat) : Prop :=
  ∀ k < j, ∃ o, buf.readOffset (slotsAt + 4 * p.slotAt k) = .ok (some o) ∧ isMatch o = .ok false

/-- One more slot in front. -/
theorem PassesTo.succ {j o : Nat} (hp : p.slot < p.length)
    (ho : buf.readOffset (slotsAt + 4 * p.slot) = .ok (some o)) (hm : isMatch o = .ok false)
    (h : PassesTo buf slotsAt isMatch p.next j) : PassesTo buf slotsAt isMatch p (j + 1) := by
  intro k hk
  cases k with
  | zero =>
    rw [Probe.slotAt_zero hp]
    exact ⟨o, ho, hm⟩
  | succ k =>
    rw [← Probe.slotAt_next]
    exact h k (by omega)

/-- **A search ends well just if it stops at a slot behind slots that it passes.** -/
theorem searchSlots_eq_ok {r : Option Nat} (hp : p.slot < p.length) :
    (searchSlots buf slotsAt isMatch exhausted fuel p).result = .ok r ↔ ∃ j < fuel,
      PassesTo buf slotsAt isMatch p j ∧ StopsAt buf isMatch (slotsAt + 4 * p.slotAt j) r := by
  constructor
  · intro h
    induction fuel generalizing p with
    | zero => cases h
    | succ fuel ih =>
      have hnone : PassesTo buf slotsAt isMatch p 0 := fun k hk => absurd hk (by omega)
      rw [searchSlots] at h
      cases hr : buf.readOffset (slotsAt + 4 * p.slot) with
      | error e =>
        rw [hr] at h
        cases h
      | ok o? =>
        rw [hr] at h
        cases o? with
        | none =>
          cases h
          refine ⟨0, by omega, hnone, .inl ⟨?_, rfl⟩⟩
          rwa [Probe.slotAt_zero hp]
        | some o =>
          dsimp only at h
          cases hm : isMatch o with
          | error e =>
            rw [hm] at h
            cases h
          | ok b =>
            rw [hm] at h
            cases b with
            | true =>
              cases h
              refine ⟨0, by omega, hnone, .inr ⟨o, ?_, hm, rfl⟩⟩
              rwa [Probe.slotAt_zero hp]
            | false =>
              have hnext : p.next.slot < p.next.length :=
                Nat.mod_lt _ (Nat.lt_of_le_of_lt (Nat.zero_le _) hp)
              obtain ⟨j, hj, hpass, hstop⟩ := ih hnext h
              rw [Probe.slotAt_next] at hstop
              exact ⟨j + 1, by omega, hpass.succ hp hr hm, hstop⟩
  · rintro ⟨j, hj, hpass, hstop⟩
    exact searchSlots_result hp hj hpass hstop

/-- A search fails where a slot or a record cannot be read, or when no slot is left. -/
theorem searchSlots_failsWith {P : Error → Prop} (hexhausted : P exhausted)
    (hread : ∀ place, FailsWith P (buf.readOffset place))
    (hmatch : ∀ o, FailsWith P (isMatch o)) :
    FailsWith P (searchSlots buf slotsAt isMatch exhausted fuel p).result := by
  induction fuel generalizing p with
  | zero => exact .error hexhausted
  | succ fuel ih =>
    rw [searchSlots]
    cases hr : buf.readOffset (slotsAt + 4 * p.slot) with
    | error e => exact .error (hread _ e hr)
    | ok o? =>
      cases o? with
      | none => exact .ok none
      | some o =>
        dsimp only
        cases hm : isMatch o with
        | error e => exact .error (hmatch o e hm)
        | ok b =>
          cases b with
          | true => exact .ok (some o)
          | false => exact ih

/-! ## The slots that it looks at -/

/-- The slots that a search looks at, in order. -/
def slotsRead (buf : Buffer) (slotsAt : Nat) (isMatch : Nat → Except Error Bool) :
    (fuel : Nat) → Probe → List Nat
  | 0, _ => []
  | fuel + 1, p =>
    p.slot :: match buf.readOffset (slotsAt + 4 * p.slot) with
      | .ok (some o) =>
        match isMatch o with
        | .ok false => slotsRead buf slotsAt isMatch fuel p.next
        | _ => []
      | _ => []

/-- They are the first ones of the probe. -/
theorem slotsRead_prefix : slotsRead buf slotsAt isMatch fuel p <+: Probe.take fuel p := by
  induction fuel generalizing p with
  | zero => exact List.prefix_rfl
  | succ fuel ih =>
    rw [slotsRead, Probe.take, List.cons_prefix_cons]
    refine ⟨rfl, ?_⟩
    split
    · split
      · exact ih
      · exact List.nil_prefix
    · exact List.nil_prefix

theorem Probe.lt_of_mem_take (hp : p.slot < p.length) {s : Nat} (h : s ∈ Probe.take fuel p) :
    s < p.length := by
  induction fuel generalizing p with
  | zero => cases h
  | succ fuel ih =>
    rcases List.mem_cons.1 h with rfl | h
    · exact hp
    · exact ih (p := p.next) (Nat.mod_lt _ (Nat.lt_of_le_of_lt (Nat.zero_le _) hp)) h

/-- Nothing else of the slots matters to a search: another buffer with the same words there gives
the same answer. -/
theorem searchSlots_congr (h : ∀ s ∈ slotsRead buf slotsAt isMatch fuel p,
    buf'.readOffset (slotsAt' + 4 * s) = buf.readOffset (slotsAt + 4 * s)) :
    searchSlots buf' slotsAt' isMatch exhausted fuel p =
      searchSlots buf slotsAt isMatch exhausted fuel p := by
  induction fuel generalizing p with
  | zero => rfl
  | succ fuel ih =>
    rw [slotsRead, List.forall_mem_cons] at h
    obtain ⟨hfirst, hrest⟩ := h
    rw [searchSlots, searchSlots, hfirst]
    cases hr : buf.readOffset (slotsAt + 4 * p.slot) with
    | error e => rfl
    | ok o? =>
      rw [hr] at hrest
      cases o? with
      | none => rfl
      | some o =>
        dsimp only at hrest ⊢
        cases hm : isMatch o with
        | error e => rfl
        | ok b =>
          rw [hm] at hrest
          cases b with
          | true => rfl
          | false =>
            dsimp only
            rw [ih hrest]

end

/-! ## With machine words -/

namespace Checked

/-- The remainder of a division, if there is something to divide by. -/
def remainder (a b : Nat) : Checked Nat := if b = 0 then ExceptT.lift none else pure (a % b)

/-- A difference, if it is not negative. -/
def difference (a b : Nat) : Checked Nat := if b ≤ a then pure (a - b) else ExceptT.lift none

theorem Yields.difference {γ : Type} {a b : Nat} {f : Nat → Checked γ} {y : Except Error γ}
    (h : b ≤ a) (hf : Yields (f (a - b)) y) : Yields (difference a b >>= f) y := by
  rw [Checked.difference, if_pos h]
  exact hf

theorem Yields.remainder {γ : Type} {a b : Nat} {f : Nat → Checked γ} {y : Except Error γ}
    (hb : b ≠ 0) (hf : Yields (f (a % b)) y) : Yields (remainder a b >>= f) y := by
  rw [Checked.remainder, if_neg hb]
  exact hf

end Checked

open Checked

/-- Whether the record at an offset has a name with a hash. -/
def nameMatchesChecked (buf : Buffer) (table : StringTable) (hash : Int32) (key : String)
    (offset : Nat) : Checked Bool := do
  let stored ← step (buf.readInt32 offset)
  if stored ≠ hash then return false
  else
    let nameAt ← word (offset + nameIndexOffset)
    let v ← step (buf.readInt32 nameAt)
    let name ← step (table.resolve v)
    return name == key

/-- Follows a probe for at most `fuel` slots. -/
def searchSlotsChecked (buf : Buffer) (slotsAt : Nat) (isMatch : Nat → Checked Bool)
    (exhausted : Error) : (fuel : Nat) → Probe → Checked (Option Nat)
  | 0, _ => step (.error exhausted)
  | fuel + 1, p => do
    let place ← word (slotsAt + 4 * p.slot)
    match ← step (buf.readOffset place) with
    | none => return none
    | some offset =>
      match ← isMatch offset with
      | true => return some offset
      | false =>
        let sum ← word (p.slot + p.step)
        let slot ← remainder sum p.length
        searchSlotsChecked buf slotsAt isMatch exhausted fuel ⟨slot, p.step, p.length⟩

/-- Looks for a record among `items` of them, in the slots at `slotsAt`. -/
def lookupSlotsChecked (buf : Buffer) (slotsAt : Nat) (g : TableGeometry) (items : Nat)
    (hash : Int32) (isMatch : Nat → Checked Bool) : Checked (Option Nat) := do
  let slot ← remainder hash.toUInt32.toNat g.length
  let rest ← remainder hash.toUInt32.toNat g.rehash
  let stride ← word (1 + rest)
  let fuel ← word (items + 1)
  searchSlotsChecked buf slotsAt isMatch (.corrupted (.unendingProbe hash fuel)) fuel
    ⟨slot, stride, g.length⟩

section
variable {buf : Buffer} {slotsAt offset fuel : Nat} {table : StringTable} {hash : Int32}
  {key : String} {isMatch : Nat → Except Error Bool} {isMatch' : Nat → Checked Bool}
  {exhausted : Error} {p : Probe} {g : TableGeometry} {items : Nat}

theorem yields_nameMatchesChecked (h : offset < 0x80000000) :
    Yields (nameMatchesChecked buf table hash key offset)
      (nameMatches buf table hash key offset) := by
  apply (yields_step _).bind
  intro stored _
  apply Yields.ite
  · intro _
    exact yields_pure false
  · intro _
    apply Yields.word (by rw [nameIndexOffset]; omega)
    apply (yields_step _).bind
    intro v _
    apply (yields_step _).bind
    intro name _
    exact yields_pure _

theorem yields_searchSlotsChecked
    (hmatch : ∀ o < 0x80000000, Yields (isMatch' o) (isMatch o))
    (hslots : slotsAt + 4 * p.length < 0x8000000000000000) (hp : p.slot < p.length)
    (hstep : p.step ≤ p.length) :
    Yields (searchSlotsChecked buf slotsAt isMatch' exhausted fuel p)
      (searchSlots buf slotsAt isMatch exhausted fuel p).result := by
  induction fuel generalizing p with
  | zero => exact yields_step _
  | succ fuel ih =>
    rw [searchSlotsChecked, searchSlots]
    apply Yields.word (by omega)
    cases hr : buf.readOffset (slotsAt + 4 * p.slot) with
    | error e => exact yields_step _
    | ok o? =>
      rw [step_ok_bind]
      cases o? with
      | none => exact yields_pure none
      | some o =>
        have ho : isMatch' o = step (isMatch o) := hmatch o (Buffer.readOffset_lt hr)
        dsimp only
        rw [ho]
        cases hm : isMatch o with
        | error e => exact yields_step _
        | ok b =>
          rw [step_ok_bind]
          cases b with
          | true => exact yields_pure (some o)
          | false =>
            apply Yields.word (by omega)
            apply Yields.remainder (by omega)
            exact ih (p := p.next) hslots (Nat.mod_lt _ (by omega)) hstep

theorem yields_lookupSlotsChecked
    (hmatch : ∀ o < 0x80000000, Yields (isMatch' o) (isMatch o))
    (hslots : slotsAt + 4 * g.length < 0x8000000000000000) (hpos : 0 < g.rehash)
    (hlt : g.rehash < g.length) (hitems : items < 0x80000000) :
    Yields (lookupSlotsChecked buf slotsAt g items hash isMatch')
      (lookupSlots buf slotsAt g items hash isMatch).result := by
  have hrest := Nat.mod_lt hash.toUInt32.toNat hpos
  rw [lookupSlots, Probe.start, if_neg (by omega)]
  apply Yields.remainder (by omega)
  apply Yields.remainder (by omega)
  apply Yields.word (by omega)
  apply Yields.word (by omega)
  exact yields_searchSlotsChecked hmatch hslots (Nat.mod_lt _ (by omega)) (by dsimp only; omega)

end
end Gazetteer
