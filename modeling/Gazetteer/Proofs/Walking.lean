import Gazetteer.Proofs.Traversal

/-!
# What a search keeps

A search changes its selection by offers only, one for each node that it reads. So it keeps whatever
the offers of the nodes keep, whatever these nodes form, wherever it is cut off and however it ends.
A selection keeps no hit that it was not offered.
-/

namespace Gazetteer

/-! ## Nodes -/

/-- Nodes whose children are among them. -/
def ChildClosed (buf : Buffer) (nodes : Set Nat) : Prop :=
  ∀ node ∈ nodes, ∀ v, readVisit buf node = .ok v →
    ∀ c, v.left = some c ∨ v.right = some c → c ∈ nodes

theorem childClosed_univ (buf : Buffer) : ChildClosed buf Set.univ :=
  fun _ _ _ _ _ _ => Set.mem_univ _

section
variable {buf : Buffer} {nodes : Set Nat} {node : Nat} {v : Visit} {half : Half}

/-- The halves of a node that is read start at nodes again. -/
theorem ChildClosed.halves_child (h : ChildClosed buf nodes) (hn : node ∈ nodes)
    (hv : readVisit buf node = .ok v) (axis : Axis) (target : Ecef) (box : Box) :
    (∀ c, (halves v axis target box).1.child = some c → c ∈ nodes) ∧
      ∀ c, (halves v axis target box).2.child = some c → c ∈ nodes := by
  have hchild := h node hn v hv
  rcases halves_cases v axis target box with heq | heq
  · rw [heq]
    exact ⟨fun c hc => hchild c (.inl hc), fun c hc => hchild c (.inr hc)⟩
  · rw [heq]
    exact ⟨fun c hc => hchild c (.inr hc), fun c hc => hchild c (.inl hc)⟩

/-! ## The walk -/

variable [Trig] {σ : Type} [Selection σ] {metric : Metric} {target : Ecef} {tooDeep : Error}
  {levels depth : Nat} {box : Box} {s : σ} {Q : σ → Prop}

/-- The offer of every one of some nodes keeps a property of selections. -/
def VisitsKeep (buf : Buffer) (metric : Metric) (target : Ecef) (nodes : Set Nat) (Q : σ → Prop) :
    Prop :=
  ∀ node ∈ nodes, ∀ v, readVisit buf node = .ok v →
    ∀ s, Q s → Q (Selection.offer s ⟨metric.distance v.pivot target, v.item⟩)

theorem searchNear_keeps (ih : ∀ c (box : Box) (s : σ), c ∈ nodes → Q s →
      Q (searchFrom buf metric target tooDeep levels depth c box s).selection)
    (hc : ∀ c, half.child = some c → c ∈ nodes) (hs : Q s) :
    Q (searchNear buf metric target tooDeep levels depth half s).selection := by
  unfold searchNear
  cases h : half.child with
  | none => exact hs
  | some c => exact ih c half.box s (hc c h) hs

theorem searchFar_keeps (ih : ∀ c (box : Box) (s : σ), c ∈ nodes → Q s →
      Q (searchFrom buf metric target tooDeep levels depth c box s).selection)
    (hc : ∀ c, half.child = some c → c ∈ nodes) (hs : Q s) :
    Q (searchFar buf metric target tooDeep levels depth half s).selection := by
  unfold searchFar
  cases h : half.child with
  | none => exact hs
  | some c =>
    dsimp only
    split
    · exact hs
    · exact hs
    · exact ih c half.box s (hc c h) hs

/-- **A search keeps what its offers keep**, however it ends. -/
theorem searchFrom_keeps (hclosed : ChildClosed buf nodes)
    (hkeep : VisitsKeep buf metric target nodes Q) (hn : node ∈ nodes) (hs : Q s) :
    Q (searchFrom buf metric target tooDeep levels depth node box s).selection := by
  induction levels generalizing depth node box s with
  | zero => exact hs
  | succ levels ih =>
    rw [searchFrom_succ]
    cases hv : readVisit buf node with
    | error e => exact hs
    | ok v =>
      obtain ⟨hnear, hfar⟩ := hclosed.halves_child hn hv (Axis.ofDepth depth) target box
      have hfirst : Q (searchNear buf metric target tooDeep levels (depth + 1)
          (halves v (Axis.ofDepth depth) target box).1 _).selection :=
        searchNear_keeps (fun c box s => ih) hnear (hkeep node hn v hv s hs)
      dsimp only
      split
      · exact hfirst
      · exact searchFar_keeps (fun c box s => ih) hfar hfirst

end

section
variable [Trig] {σ : Type} [Selection σ] {nodes : Set Nat} {Q : σ → Prop} {s r : σ}

/-- A search from the root keeps what the offers of the nodes keep. -/
theorem StoredTree.search_keeps {t : StoredTree} {metric : Metric} {target : Ecef}
    (hclosed : ChildClosed t.buf nodes) (hroot : ∀ r, t.root = some r → r ∈ nodes)
    (hkeep : VisitsKeep t.buf metric target nodes Q) (hs : Q s) :
    Q (t.search metric target s).selection := by
  unfold search
  cases hr : t.root with
  | none => exact hs
  | some root => exact searchFrom_keeps hclosed hkeep (hroot root hr) hs

/-- What a search of a database gives has whatever the offers of its nodes keep. -/
theorem Database.search_keeps {α : Type} {db : Database α} {pos : Position}
    (hclosed : ChildClosed db.buf nodes) (hroot : ∀ r, db.tree.root = some r → r ∈ nodes)
    (hkeep : VisitsKeep db.buf db.metric pos.toEcef nodes Q) (hs : Q s)
    (hr : db.search pos s = .ok r) : Q r := by
  obtain ⟨_, -, hr⟩ := bind_eq_ok.1 hr
  obtain ⟨_, -, hr⟩ := bind_eq_ok.1 hr
  cases hr
  exact StoredTree.search_keeps (t := db.tree) hclosed hroot hkeep hs

end

/-! ## Hits -/

/-- The hits of a selection are among the hits offered. -/
def KeepsOffers {σ : Type} [Selection σ] (hits : σ → List Hit) : Prop :=
  ∀ s h, ∀ h' ∈ hits (Selection.offer s h), h' = h ∨ h' ∈ hits s

theorem Nearest.keepsOffers : KeepsOffers Nearest.hits := by
  intro s h h' hmem
  change h' ∈ (Nearest.offer s h).hits at hmem
  unfold Nearest.offer at hmem
  split at hmem
  · exact .inl (by simpa [Nearest.hits] using hmem)
  · split at hmem
    · exact .inl (by simpa [Nearest.hits] using hmem)
    · exact .inr hmem

theorem KNearest.keepsOffers : KeepsOffers KNearest.hits := by
  intro s h h' hmem
  have hinsert := List.mem_of_mem_take hmem
  exact List.mem_cons.1 ((perm_insertHit h s.hits).mem_iff.1 hinsert)

theorem Within.mem_hits {s : Within} {h : Hit} : h ∈ s.hits ↔ h ∈ s.offered := by
  rw [Within.hits, (List.mergeSort_perm _ _).mem_iff, List.mem_reverse]

theorem Within.keepsOffers : KeepsOffers Within.hits := by
  intro s h h' hmem
  rw [Within.mem_hits] at hmem ⊢
  change h' ∈ (Within.offer s h).offered at hmem
  unfold Within.offer at hmem
  split at hmem
  · exact List.mem_cons.1 hmem
  · exact .inr hmem

end Gazetteer
