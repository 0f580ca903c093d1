import Mathlib.Data.List.Nodup
import Mathlib.Data.Nat.ModEq
import Mathlib.Tactic.NormNum.Prime
import Gazetteer.NameTable.Slots
import Gazetteer.Proofs.Steps

/-!
# What a probe visits

A probe steps around a table. Its slots repeat with a period that depends on the step and the length
alone; where the two have no common factor, the period is the whole table. The lengths in use are
primes and no step is as long as its table, so there every probe reaches every slot.
-/

namespace Gazetteer

/-! ## The slots of a probe -/

namespace Probe

variable {p : Probe} {hash : Int32} {g : TableGeometry}

/-- The slot after a number of steps. -/
def slotAt (p : Probe) (j : Nat) : Nat := (p.slot + j * p.step) % p.length

theorem slotAt_next (p : Probe) (j : Nat) : p.next.slotAt j = p.slotAt (j + 1) := by
  rw [slotAt, slotAt, next, Nat.mod_add_mod, Nat.add_mul, Nat.one_mul, Nat.add_assoc,
    Nat.add_comm p.step]

theorem start_eq_ok : start hash g = .ok p ↔ (g.length ≠ 0 ∧ g.rehash ≠ 0) ∧
    p = ⟨hash.toUInt32.toNat % g.length, 1 + hash.toUInt32.toNat % g.rehash, g.length⟩ := by
  unfold start
  split
  · simp
    omega
  · simp [eq_comm]
    omega

/-- A probe starts inside its table, and steps by at least one and by at most the rehash. -/
theorem bounds_of_start (h : start hash g = .ok p) :
    p.length = g.length ∧ p.slot < p.length ∧ 0 < p.step ∧ p.step ≤ g.rehash := by
  obtain ⟨⟨hl, hr⟩, rfl⟩ := start_eq_ok.1 h
  have hslot := Nat.mod_lt hash.toUInt32.toNat (Nat.pos_of_ne_zero hl)
  have hstep := Nat.mod_lt hash.toUInt32.toNat (Nat.pos_of_ne_zero hr)
  exact ⟨rfl, hslot, Nat.lt_of_lt_of_le Nat.one_pos (Nat.le_add_right _ _), by dsimp only; omega⟩

theorem slotAt_zero (h : p.slot < p.length) : p.slotAt 0 = p.slot := by
  rw [slotAt, Nat.zero_mul, Nat.add_zero, Nat.mod_eq_of_lt h]

theorem slotAt_lt (h : 0 < p.length) (j : Nat) : p.slotAt j < p.length := Nat.mod_lt _ h

/-- The number of steps after which a probe is back where it was. -/
def period (p : Probe) : Nat := p.length / Nat.gcd p.length p.step

theorem period_pos (h : 0 < p.length) : 0 < p.period :=
  Nat.div_pos (Nat.le_of_dvd h (Nat.gcd_dvd_left _ _)) (Nat.gcd_pos_of_pos_left _ h)

/-- Two places of a probe are the same slot just if they are a multiple of the period apart. -/
theorem slotAt_eq_iff (h : 0 < p.length) {i j : Nat} :
    p.slotAt i = p.slotAt j ↔ i ≡ j [MOD p.period] := by
  show p.slot + i * p.step ≡ p.slot + j * p.step [MOD p.length] ↔ _
  rw [Nat.ModEq.add_iff_left rfl]
  constructor
  · exact Nat.ModEq.cancel_right_div_gcd h
  · intro hij
    refine (Nat.ModEq.mul_right' p.step hij).of_dvd ⟨p.step / Nat.gcd p.length p.step, ?_⟩
    rw [period, Nat.div_mul_right_comm (Nat.gcd_dvd_left _ _),
      Nat.mul_div_assoc _ (Nat.gcd_dvd_right _ _)]

/-- The slots within one period are different. -/
theorem nodup_map_slotAt (h : 0 < p.length) {m : Nat} (hm : m ≤ p.period) :
    ((List.range m).map p.slotAt).Nodup := by
  refine List.Nodup.map_on (fun i hi j hj hij => ?_) List.nodup_range
  rw [List.mem_range] at hi hj
  exact ((slotAt_eq_iff h).1 hij).eq_of_lt_of_lt (by omega) (by omega)

/-- A step without a factor in common with the length makes the period the whole table. -/
theorem period_eq_length (h : Nat.gcd p.length p.step = 1) : p.period = p.length := by
  rw [period, h, Nat.div_one]

end Probe

/-! ## Free slots -/

section
variable {slots : Array Int32} {fuel : Nat} {p : Probe}

/-- The free slot that is found is the first one on the probe. -/
theorem freeSlot?_eq_some {i : Nat} (hp : p.slot < p.length)
    (h : freeSlot? slots fuel p = some i) : ∃ j < fuel, i = p.slotAt j ∧
      slots[i]? = some emptyOffset ∧ ∀ k < j, slots[p.slotAt k]? ≠ some emptyOffset := by
  induction fuel generalizing p with
  | zero => cases h
  | succ fuel ih =>
    rw [freeSlot?] at h
    split at h
    · rename_i hfree
      cases h
      exact ⟨0, by omega, (Probe.slotAt_zero hp).symm, hfree, fun k hk => absurd hk (by omega)⟩
    · rename_i hfull
      have hnext : p.next.slot < p.next.length := Nat.mod_lt _ (by omega)
      obtain ⟨j, hj, hi, hfree, hbefore⟩ := ih hnext h
      refine ⟨j + 1, by omega, hi.trans (Probe.slotAt_next p j), hfree, fun k hk => ?_⟩
      cases k with
      | zero => rwa [Probe.slotAt_zero hp]
      | succ k => exact Probe.slotAt_next p k ▸ hbefore k (by omega)

/-- A probe finds no free slot only if it passes none. -/
theorem freeSlot?_eq_none (hp : p.slot < p.length) (h : freeSlot? slots fuel p = none) :
    ∀ j < fuel, slots[p.slotAt j]? ≠ some emptyOffset := by
  induction fuel generalizing p with
  | zero => exact fun j hj => absurd hj (by omega)
  | succ fuel ih =>
    rw [freeSlot?] at h
    split at h
    · cases h
    · rename_i hfull
      have hnext : p.next.slot < p.next.length := Nat.mod_lt _ (by omega)
      intro j hj
      cases j with
      | zero => rwa [Probe.slotAt_zero hp]
      | succ j => exact Probe.slotAt_next p j ▸ ih hnext h j (by omega)

end

/-! ## Prime lengths -/

namespace TableGeometry

theorem prime_of_mem_choices : ∀ c ∈ choices, c.2.length.Prime := by
  simp only [choices, List.forall_mem_cons, List.not_mem_nil, false_implies, implies_true, and_true]
  repeat' apply And.intro
  all_goals norm_num

theorem bounds_of_mem_choices : ∀ c ∈ choices, 2 * c.1 < c.2.length ∧ 0 < c.2.rehash ∧
    c.2.rehash < c.2.length ∧ c.2.length < 0x80000000 := by
  decide

variable {count : Nat} {g : TableGeometry}

/-- **Every table is prime in length** and more than twice as long as it has items. -/
theorem spec_of_forItems (h : forItems count = .ok g) : 2 * count < g.length ∧ 0 < g.rehash ∧
    g.rehash < g.length ∧ g.length < 0x80000000 ∧ g.length.Prime := by
  unfold forItems at h
  split at h
  · rename_i most geometry hfind
    cases h
    have hmem := List.mem_of_find?_eq_some hfind
    obtain ⟨hlen, hpos, hlt, hsmall⟩ := bounds_of_mem_choices _ hmem
    have hcount : count ≤ most := by simpa using List.find?_some hfind
    dsimp only at hlen
    exact ⟨by omega, hpos, hlt, hsmall, prime_of_mem_choices _ hmem⟩
  · cases h

/-- A probe of a table of prime length visits each slot once a round. -/
theorem period_of_start {hash : Int32} {p : Probe} (hp : g.length.Prime)
    (hr : g.rehash < g.length) (h : Probe.start hash g = .ok p) : p.period = p.length := by
  obtain ⟨hl, -, hpos, hle⟩ := Probe.bounds_of_start h
  exact Probe.period_eq_length (hl ▸ Nat.coprime_of_lt_prime (by omega) (by omega) hp)

end TableGeometry
end Gazetteer
