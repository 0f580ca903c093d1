import Gazetteer.Draft.Basic
import Gazetteer.Proofs.Steps

/-!
# Drafts in order

A draft keeps its items in three forms: the items, where they lie, and their names. Adding an item
keeps the three in step, and refuses what a file could not hold: a name that is taken, or a position
that is not finite.
-/

namespace Gazetteer

theorem unlessInput_eq_ok {b : Bool} {cause : InputError} :
    unlessInput b cause = .ok () ↔ b = true := by
  cases b <;> simp [unlessInput]

namespace Draft

variable {α : Type} [Schema α] {d d' : Draft α} {item : α}

/-- The lists of a draft agree, its names are distinct and its positions finite. -/
structure InOrder (d : Draft α) : Prop where
  points_eq : d.points.toList = d.toList.map fun i => (Schema.base i).ecef
  mem_names : ∀ s, s ∈ d.names ↔ s ∈ d.toList.map Schema.itemName
  nodup_names : (d.toList.map Schema.itemName).Nodup
  finite : ∀ i ∈ d.toList, (Schema.base i).ecef.isFinite = true

theorem inOrder_empty (settings : Settings) : (empty settings : Draft α).InOrder where
  points_eq := rfl
  mem_names s := by simp [empty, toList]
  nodup_names := by simp
  finite i hi := by simp at hi

/-- An item is taken just if it passes every check. -/
theorem check_eq_ok_iff : d.check item = .ok () ↔
    checkName (Schema.itemName item) = .ok () ∧ (Schema.base item).pos.checkFinite = .ok () ∧
      (Schema.base item).ecef.isFinite = true ∧
      (d.settings.validateCoordinates = true → (Schema.base item).pos.check = .ok ()) ∧
      Schema.itemName item ∉ d.names := by
  have hunit {x : Except Error Unit} {f : Unit → Except Error Unit} :
      (x >>= f) = .ok () ↔ x = .ok () ∧ f () = .ok () := by
    cases x <;> simp
  unfold check
  simp only [hunit, Ecef.checkFinite, unlessInput_eq_ok, Schema.itemName]
  refine and_congr_right fun _ => and_congr_right fun _ => and_congr_right fun _ => ?_
  cases d.settings.validateCoordinates
  · simp
  · simp [hunit]

/-- Taking an item that passed keeps a draft in order. -/
theorem InOrder.push (h : d.InOrder) (hc : d.check item = .ok ()) : (d.push item).InOrder := by
  obtain ⟨-, -, hfinite, -, hnew⟩ := check_eq_ok_iff.1 hc
  rw [h.mem_names] at hnew
  refine ⟨?_, fun s => ?_, ?_, fun i hi => ?_⟩
  · rw [toList_push, List.map_append, ← h.points_eq]
    simp [Draft.push]
  · rw [toList_push, List.map_append, List.mem_append, ← h.mem_names]
    simp only [Draft.push, Std.HashSet.mem_insert, beq_iff_eq, List.map_singleton,
      List.mem_singleton]
    rw [or_comm, eq_comm (a := s)]
  · rw [toList_push, List.map_append, List.map_singleton]
    refine List.nodup_append.2 ⟨h.nodup_names, by simp, fun s hs t ht => ?_⟩
    rintro rfl
    exact hnew (List.mem_singleton.1 ht ▸ hs)
  · rw [toList_push, List.mem_append, List.mem_singleton] at hi
    rcases hi with hi | rfl
    · exact h.finite i hi
    · exact hfinite

theorem InOrder.add (h : d.InOrder) (ha : d.add item = .ok d') : d'.InOrder := by
  obtain ⟨hc, rfl⟩ := (add_eq_ok_iff d item d').1 ha
  exact h.push hc

/-! ## Drafts of a list of items -/

/-- The draft that takes the given items in order, if it takes all of them. -/
def ofItems (settings : Settings) (items : List α) : Except Error (Draft α) :=
  items.foldlM add (empty settings)

theorem inOrder_of_ofItems {settings : Settings} {items : List α}
    (h : ofItems settings items = .ok d) : d.InOrder :=
  foldlM_keeps (fun _ _ _ hs ha => hs.add ha) (inOrder_empty settings) h

/-- A draft holds the items it took, in order. -/
theorem toList_of_ofItems {settings : Settings} {items : List α}
    (h : ofItems settings items = .ok d) : d.toList = items := by
  suffices hrun : ∀ (xs : List α) (d₀ : Draft α), xs.foldlM Draft.add d₀ = .ok d →
      d.toList = d₀.toList ++ xs from hrun items _ h
  intro xs
  induction xs with
  | nil =>
    intro d₀ h₀
    cases h₀
    simp
  | cons x xs ih =>
    intro d₀ h₀
    rw [List.foldlM_cons] at h₀
    obtain ⟨d₁, h₁, h₂⟩ := bind_eq_ok.1 h₀
    obtain ⟨-, rfl⟩ := (add_eq_ok_iff d₀ x d₁).1 h₁
    rw [ih _ h₂, toList_push, List.append_assoc, List.singleton_append]

/-- Items that pass on their own and have distinct names are all taken. -/
theorem ofItems_of_check {settings : Settings} {items : List α}
    (hcheck : ∀ x ∈ items, (empty settings).check x = .ok ())
    (hnodup : (items.map Schema.itemName).Nodup) :
    ofItems settings items = .ok (items.foldl push (empty settings)) := by
  suffices hrun : ∀ (xs : List α) (d : Draft α), d.settings = settings →
      (∀ x ∈ xs, (empty settings).check x = .ok ()) → (xs.map Schema.itemName).Nodup →
      (∀ x ∈ xs, Schema.itemName x ∉ d.names) → xs.foldlM add d = .ok (xs.foldl push d) from
    hrun items _ rfl hcheck hnodup (by simp [empty])
  intro xs
  induction xs with
  | nil => exact fun d _ _ _ _ => rfl
  | cons x xs ih =>
    intro d hs hc hn hfree
    have hx : d.check x = .ok () := by
      obtain ⟨hname, hpos, hecef, hglobe, -⟩ := check_eq_ok_iff.1 (hc x List.mem_cons_self)
      exact check_eq_ok_iff.2 ⟨hname, hpos, hecef, hs ▸ hglobe, hfree x List.mem_cons_self⟩
    rw [List.map_cons, List.nodup_cons] at hn
    rw [List.foldlM_cons, (add_eq_ok_iff d x _).2 ⟨hx, rfl⟩, ok_bind]
    refine ih (d.push x) hs (fun y hy => hc y (List.mem_cons_of_mem x hy)) hn.2 fun y hy => ?_
    simp only [push, Std.HashSet.mem_insert, beq_iff_eq, not_or]
    refine ⟨fun heq => hn.1 ?_, hfree y (List.mem_cons_of_mem x hy)⟩
    exact heq ▸ List.mem_map_of_mem hy

end Draft
end Gazetteer
