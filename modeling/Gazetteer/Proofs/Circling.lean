import Mathlib.Data.List.Perm.Subperm
import Mathlib.Logic.Function.Iterate
import Gazetteer.Proofs.Probing

/-!
# How a probe circles its table

A probe runs around its table for ever. It is back where it was after as many steps as the length
has left when the common factor of step and length is taken out, and no sooner. In a table for a
number of items that is a whole round: a probe of such a table passes every slot once before it
passes one again.
-/

namespace Gazetteer

namespace Probe

variable {p : Probe} {hash : Int32} {g : TableGeometry}

/-- The slots that a probe gives are those of the probes that it becomes. -/
theorem take_eq_map_iterate (n : Nat) (p : Probe) :
    p.take n = (List.range n).map fun j => (next^[j] p).slot := by
  induction n generalizing p with
  | zero => rfl
  | succ n ih =>
    rw [take, ih, List.range_succ_eq_map, List.map_cons, List.map_map]
    rfl

/-- Step by step a probe comes to the slot that its step and its length give in one. -/
theorem slot_iterate_next (h : p.slot < p.length) (j : Nat) :
    (next^[j] p).slot = p.slotAt j := by
  induction j generalizing p with
  | zero => exact (slotAt_zero h).symm
  | succ j ih =>
    have hnext : p.next.slot < p.next.length := Nat.mod_lt _ (by omega)
    rw [Function.iterate_succ_apply, ih hnext, slotAt_next]

/-- The numbers of steps after which a probe is back, wherever it was, are the multiples of its
period. -/
theorem slotAt_add_eq_iff (h : 0 < p.length) (m : Nat) :
    (∀ j, p.slotAt (j + m) = p.slotAt j) ↔ p.period ∣ m := by
  simp only [slotAt_eq_iff h]
  constructor
  · intro hall
    have hzero := hall 0
    rw [Nat.zero_add] at hzero
    exact Nat.modEq_zero_iff_dvd.1 hzero
  · intro hdvd j
    exact Nat.ModEq.add_left j (Nat.modEq_zero_iff_dvd.2 hdvd)

/-- The slots within one period are different, wherever the period starts. -/
theorem nodup_map_slotAt_add (h : 0 < p.length) (i : Nat) :
    ((List.range p.period).map fun j => p.slotAt (i + j)).Nodup := by
  refine List.Nodup.map_on (fun j hj k hk hjk => ?_) List.nodup_range
  rw [List.mem_range] at hj hk
  have hmod := Nat.ModEq.add_left_cancel' i ((slotAt_eq_iff h).1 hjk)
  exact hmod.eq_of_lt_of_lt hj hk

/-- A probe whose period is its length passes every slot once a round. -/
theorem perm_range_of_period (hp : p.slot < p.length) (h : p.period = p.length) :
    (p.take p.length).Perm (List.range p.length) := by
  have hpos : 0 < p.length := by omega
  rw [take_eq_map_iterate]
  simp only [slot_iterate_next hp]
  have hnodup := nodup_map_slotAt hpos h.ge
  refine (hnodup.subperm fun i hi => ?_).perm_of_length_le (by simp)
  obtain ⟨j, -, rfl⟩ := List.mem_map.1 hi
  exact List.mem_range.2 (slotAt_lt hpos j)

/-- How a probe of the number `h` runs around a table. -/
structure Circles (p : Probe) (h : Nat) (g : TableGeometry) : Prop where
  step_eq : p.step = 1 + h % g.rehash
  take_eq : ∀ n, p.take n = (List.range n).map fun j => (next^[j] p).slot
  slot_eq : ∀ j, (next^[j] p).slot = (h + j * p.step) % g.length
  /-- It is back after the multiples of one number of steps, and after no others. -/
  returns_iff : ∀ m, (∀ j, (next^[j + m] p).slot = (next^[j] p).slot) ↔
    g.length / Nat.gcd p.step g.length ∣ m
  /-- Before it is back it passes no slot twice, from wherever its steps are counted. -/
  nodup : ∀ i, ((List.range (g.length / Nat.gcd p.step g.length)).map fun j =>
    (next^[i + j] p).slot).Nodup
  /-- No sum on the way reaches twice the length. -/
  sum_lt : ∀ j, (next^[j] p).slot + p.step < 2 * g.length

theorem circles_of_start (hr : g.rehash < g.length) (h : start hash g = .ok p) :
    p.Circles hash.toUInt32.toNat g := by
  obtain ⟨hlength, hslot, -, hstep⟩ := bounds_of_start h
  have hpos : 0 < p.length := by omega
  have hperiod : g.length / Nat.gcd p.step g.length = p.period := by
    rw [period, hlength, Nat.gcd_comm]
  have hslots := slot_iterate_next hslot
  refine ⟨?step_eq, fun n => take_eq_map_iterate n p, ?slot_eq, ?returns_iff, ?nodup, ?sum_lt⟩
  case step_eq =>
    obtain ⟨-, rfl⟩ := start_eq_ok.1 h
    rfl
  case slot_eq =>
    intro j
    rw [hslots, slotAt, hlength]
    obtain ⟨-, rfl⟩ := start_eq_ok.1 h
    exact Nat.mod_add_mod _ _ _
  case returns_iff =>
    intro m
    simp only [hslots, hperiod]
    exact slotAt_add_eq_iff hpos m
  case nodup =>
    intro i
    simp only [hslots, hperiod]
    exact nodup_map_slotAt_add hpos i
  case sum_lt =>
    intro j
    have hlt := slotAt_lt hpos j
    rw [hslots]
    omega

end Probe

namespace TableGeometry

/-- There is a table for up to as many items as the last choice holds. -/
theorem exists_forItems_iff {count : Nat} :
    (∃ g, forItems count = .ok g) ↔ count ≤ 33554432 := by
  have hlargest : ∀ c ∈ choices, c.1 ≤ 33554432 := by decide
  unfold forItems
  constructor
  · rintro ⟨g, hg⟩
    split at hg
    · rename_i most geometry hfind
      have hle := hlargest _ (List.mem_of_find?_eq_some hfind)
      have hcount : count ≤ most := by simpa using List.find?_some hfind
      exact hcount.trans hle
    · cases hg
  · intro hcount
    split
    · exact ⟨_, rfl⟩
    · rename_i hnone
      have hlast : (33554432, (⟨67109323, 67109321⟩ : TableGeometry)) ∈ choices := by decide
      exact absurd hcount (by simpa using List.find?_eq_none.1 hnone _ hlast)

/-- A probe of a table for a number of items passes every slot once a round. -/
theorem perm_range_of_forItems {count : Nat} {g : TableGeometry} {p : Probe} {hash : Int32}
    (hg : forItems count = .ok g) (h : Probe.start hash g = .ok p) :
    (p.take g.length).Perm (List.range g.length) := by
  obtain ⟨-, -, hr, -, hprime⟩ := spec_of_forItems hg
  obtain ⟨hlength, hslot, -, -⟩ := Probe.bounds_of_start h
  rw [← hlength]
  exact Probe.perm_range_of_period hslot (period_of_start hprime hr h)

end TableGeometry

theorem Probe.exists_start {g : TableGeometry} (hpos : 1 ≤ g.rehash) (hr : g.rehash < g.length)
    (hash : Int32) : ∃ p, Probe.start hash g = .ok p :=
  ⟨_, start_eq_ok.2 ⟨⟨by omega, by omega⟩, rfl⟩⟩

/-- **A probe circles its table**, and in a table for a number of items it passes every slot once a
round. There is such a table for up to 33554432 items. -/
theorem circles_of_probes :
    (∀ count, (∃ g, TableGeometry.forItems count = .ok g) ↔ count ≤ 33554432) ∧
      (∀ count g (hash : Int32), TableGeometry.forItems count = .ok g →
        2 * count + 1 ≤ g.length ∧
          ∃ p, Probe.start hash g = .ok p ∧ (p.take g.length).Perm (List.range g.length)) ∧
      ∀ (g : TableGeometry) (hash : Int32), 1 ≤ g.rehash → g.rehash < g.length →
        ∃ p, Probe.start hash g = .ok p ∧ p.Circles hash.toUInt32.toNat g := by
  refine ⟨fun count => TableGeometry.exists_forItems_iff, fun count g hash hg => ?_,
    fun g hash hpos hr => ?_⟩
  · obtain ⟨hcount, hpos, hr, -, -⟩ := TableGeometry.spec_of_forItems hg
    obtain ⟨p, hp⟩ := Probe.exists_start hpos hr hash
    exact ⟨hcount, p, hp, TableGeometry.perm_range_of_forItems hg hp⟩
  · obtain ⟨p, hp⟩ := Probe.exists_start hpos hr hash
    exact ⟨p, hp, Probe.circles_of_start hr hp⟩

/-- In a table of twelve slots a step of four leaves nine of them out. -/
theorem circles_of_probes_dozen :
    TableGeometry.forItems 16 = .ok ⟨43, 41⟩ ∧
      (∃ p, Probe.start (-1) ⟨43, 41⟩ = .ok p ∧ (p.take 43).Perm (List.range 43)) ∧
      (∃ p, Probe.start 8 ⟨12, 5⟩ = .ok p ∧ p.Circles 8 ⟨12, 5⟩) ∧
      (Probe.mk 8 4 12).take 6 = [8, 0, 4, 8, 0, 4] := by
  obtain ⟨-, hitems, hany⟩ := circles_of_probes
  have hforty : TableGeometry.forItems 16 = .ok ⟨43, 41⟩ := rfl
  exact ⟨hforty, (hitems 16 ⟨43, 41⟩ (-1) hforty).2, hany ⟨12, 5⟩ 8 (by decide) (by decide), rfl⟩

end Gazetteer
