import Gazetteer.Proofs.PruneBound
import Gazetteer.Proofs.SearchOffers

/-!
# Ladders

In a *ladder* both children of each node are the node below it. So there are twice as many ways to a
rung as to the one above it, and a search that is let down far enough makes an offer along each of
them: a few nodes are enough to make it do as much work as its guard of the levels allows. This is
all that can be said against the number of its offers, since no file makes it do more.
-/

namespace Gazetteer

/-! ## Rungs -/

/-- The rung below a rung, which is also the highest of so many rungs. -/
def rungBelow : Nat → Option Nat
  | 0 => none
  | i + 1 => some i

/-- The node of a rung: the next rung below is both its children. -/
def rung (i : Nat) : TreeNode := ⟨0, rungBelow i, rungBelow i⟩

/-- The record of the one item of a ladder. -/
def ladderRecord (p : Ecef) : ItemBase := ⟨"", 0, ⟨.zero, .zero, .zero⟩, p⟩

/-- Rungs lie one above the other, behind the record that they share. -/
def ladderPlan : TreePlan := ⟨baseSize, 0, 0⟩

/-- Where a rung lies. -/
def rungAt (i : Nat) : Nat := ladderPlan.nodesAt + i * nodeSize

/-- A rung as a search meets it, with the item at a point. -/
def rungVisit (p : Ecef) (i : Nat) : Visit :=
  ⟨0, (rungBelow i).map rungAt, (rungBelow i).map rungAt, p⟩

theorem child_rungVisit (p : Ecef) (i : Nat) (side : Side) :
    (rungVisit p i).child side = (rungBelow i).map rungAt := by
  cases side <;> rfl

/-- The rungs of a ladder lie in a buffer, and their item is at a point. -/
def HasLadder (buf : Buffer) (rungs : Nat) (p : Ecef) : Prop :=
  ∀ i < rungs, readVisit buf (rungAt i) = .ok (rungVisit p i)

theorem exists_encodeNode_rung {i : Nat} (hi : i ≤ 128) :
    ∃ bytes, ladderPlan.encodeNode (rung i) = .ok bytes := by
  have hitem : toInt32 (ladderPlan.itemsAt + (rung i).item * ladderPlan.itemSize) "item offset" =
      .ok (Int32.ofNat 0) := rfl
  have hchild : ∃ v, ladderPlan.childOffset (rungBelow i) = .ok v := by
    cases i with
    | zero => exact ⟨_, rfl⟩
    | succ i =>
      refine ⟨_, toInt32_eq_ok.2 ⟨?_, rfl⟩⟩
      simp only [ladderPlan, baseSize, nodeSize]
      omega
  obtain ⟨v, hv⟩ := hchild
  have hleft : ladderPlan.childOffset (rung i).left = .ok v := hv
  have hright : ladderPlan.childOffset (rung i).right = .ok v := hv
  refine ⟨int32Bytes (Int32.ofNat 0) ++ int32Bytes v ++ int32Bytes v, ?_⟩
  rw [TreePlan.encodeNode, hitem, ok_bind, hleft, ok_bind, hright, ok_bind]
  rfl

/-- There are ladders at every point. -/
theorem exists_hasLadder {p : Ecef} (hp : p.isFinite = true) {rungs : Nat} (hrungs : rungs ≤ 128) :
    ∃ buf, HasLadder buf rungs p := by
  have hencode (i : Nat) (hi : i ∈ List.range rungs) :
      ∃ bytes, ladderPlan.encodeNode (rung i) = .ok bytes :=
    exists_encodeNode_rung ((List.mem_range.1 hi).le.trans hrungs)
  obtain ⟨pieces, hpieces⟩ := exists_mapM_eq_ok hencode
  have hsize (piece : List UInt8) (h : piece ∈ pieces) : piece.length = nodeSize := by
    obtain ⟨i, -, hi⟩ := mem_of_mapM_eq_ok hpieces h
    exact length_encodeNode hi
  have hat : HasAt (Buffer.ofList ((ladderRecord p).encode 0 ++ pieces.flatten)).bytes 0
      ((ladderRecord p).encode 0 ++ pieces.flatten) := hasAt_self _
  have hnodes := hat.after baseSize (by rw [Nat.zero_add, ItemBase.length_encode])
  refine ⟨.ofList ((ladderRecord p).encode 0 ++ pieces.flatten), fun i hi => ?_⟩
  obtain ⟨piece, hpiece, hencoded⟩ := getElem?_of_mapM_eq_ok hpieces (List.getElem?_range hi)
  exact TreePlan.readVisit_of_encodeNode hencoded (hnodes.flatten hsize hpiece)
    (readEcef_of_hasAt hat.left) hp

/-- An item may be offered to a selection again and again, and is still admitted. -/
def KeepsAdmitting {σ : Type} [Selection σ] (s : σ) (h : Hit) : Prop :=
  ∀ n, Selection.admits (offerAll s (List.replicate n h)) h.distance = true

theorem sortHits_replicate (n : Nat) (h : Hit) :
    sortHits (List.replicate n h) = List.replicate n h :=
  List.perm_replicate.1 (perm_sortHits _)

section
variable {h : Hit} (hh : h.distance.isNaN = false)
include hh

theorem Nearest.keepsAdmitting : KeepsAdmitting empty h := by
  intro n
  rw [offerAll_empty, sortHits_replicate]
  cases n with
  | zero => rfl
  | succ n => exact decide_eq_true (Binary64.le_refl_of_not_nan hh)

theorem KNearest.keepsAdmitting {k : Nat} (hk : 0 < k) : KeepsAdmitting (empty k) h := by
  intro n
  rw [offerAll_empty, sortHits_replicate, List.take_replicate]
  show KNearest.admits _ _ = true
  unfold admits isFull
  rw [if_neg (by dsimp only; omega), List.length_replicate]
  cases hn : min k n with
  | zero => simp; omega
  | succ m =>
    rw [List.replicate_succ', List.getLast?_concat]
    dsimp only
    rw [decide_eq_true (Binary64.le_refl_of_not_nan hh), Bool.or_true]

end

theorem Within.radius_offerAll (s : Within) (hs : List Hit) :
    (offerAll s hs).radius = s.radius := by
  induction hs generalizing s with
  | nil => rfl
  | cons h hs ih =>
    rw [offerAll_cons, ih]
    show (offer s h).radius = s.radius
    unfold offer
    split <;> rfl

theorem Within.keepsAdmitting {r : Binary64} {h : Hit} (hr : h.distance ≤ r) :
    KeepsAdmitting (empty r) h := by
  intro n
  show admits _ _ = true
  rw [admits, radius_offerAll]
  exact decide_eq_true hr

/-! ## Searching a ladder -/

theorem Binary64.not_lt_of_le {x y : Binary64} (h : x ≤ y) : ¬ y < x := by
  rw [lt_iff]
  rw [le_iff] at h
  omega

/-- A point of a box is the nearest one to itself. -/
theorem Box.Contains.closest_eq {box : Box} {p : Ecef} (h : box.Contains p) :
    box.closest p = .ok p := by
  have hclamp (axis : Axis) : (p.coord axis).clamp (box.low.coord axis) (box.high.coord axis) =
      p.coord axis := by
    obtain ⟨hlow, hhigh⟩ := h axis
    rw [Binary64.clamp, if_neg (Binary64.not_lt_of_le hlow), if_neg (Binary64.not_lt_of_le hhigh)]
  rw [closest_eq_ok fun axis => Binary64.le_trans (h axis).1 (h axis).2]
  have hx := hclamp .x
  have hy := hclamp .y
  have hz := hclamp .z
  dsimp only [Ecef.coord] at hx hy hz
  rw [hx, hy, hz]

/-- Both halves of a node at a point have the point in their boxes. -/
theorem contains_halves {v : Visit} {p : Ecef} {box : Box} (hv : v.pivot = p)
    (hp : p.isFinite = true) (hbox : box.Contains p) (axis : Axis) (target : Ecef) :
    (halves v axis target box).1.box.Contains p ∧ (halves v axis target box).2.box.Contains p := by
  have hself := Binary64.le_refl_of_not_nan
    (Binary64.not_nan_of_isFinite (Ecef.isFinite_coord hp axis))
  have hbelow : (box.below axis (v.pivot.coord axis)).Contains p := by
    rw [hv]
    exact Box.contains_below hbox hself
  have habove : (box.above axis (v.pivot.coord axis)).Contains p := by
    rw [hv]
    exact Box.contains_above hbox hself
  rcases halves_cases v axis target box with heq | heq
  · rw [heq]
    exact ⟨hbelow, habove⟩
  · rw [heq]
    exact ⟨habove, hbelow⟩

section
variable {σ : Type} [Selection σ] {s : σ}

theorem KeepsAdmitting.offerAll {h : Hit} (hs : KeepsAdmitting s h) (m : Nat) :
    KeepsAdmitting (offerAll s (List.replicate m h)) h := by
  intro n
  rw [← offerAll_append, List.replicate_append_replicate]
  exact hs (m + n)

theorem Traced.selection_offerAll (s : Traced σ) (hits : List Hit) :
    (offerAll s hits).selection = offerAll s.selection hits := by
  induction hits generalizing s with
  | nil => rfl
  | cons h hits ih => exact ih _

theorem Traced.visited_offerAll (s : Traced σ) (hits : List Hit) :
    (offerAll s hits).visited = s.visited ++ hits.map Hit.offset := by
  induction hits generalizing s with
  | nil => exact (List.append_nil _).symm
  | cons h hits ih =>
    rw [offerAll_cons, ih, visited_offer, List.append_assoc, List.singleton_append, List.map_cons]

/-- The record of the offers has no part in what is admitted. -/
theorem KeepsAdmitting.traced {h : Hit} (hs : KeepsAdmitting s h) :
    KeepsAdmitting (Traced.empty s) h := by
  intro n
  show Selection.admits (Gazetteer.offerAll (Traced.empty s) _).selection _ = true
  rw [Traced.selection_offerAll]
  exact hs n

variable [Trig] {buf : Buffer} {metric : Metric} {p : Ecef} {tooDeep : Error}
  {rungs levels depth : Nat} {half : Half}

/-- What is offered at each rung of a ladder. -/
def rungHit (metric : Metric) (p : Ecef) : Hit := ⟨metric.distance p p, 0⟩

/-- The other half is searched like the first, if its box has the target in it and the target is
admitted. -/
theorem searchFar_eq_searchNear (hbox : half.box.Contains p)
    (hs : Selection.admits s (metric.distance p p) = true) :
    searchFar buf metric p tooDeep levels depth half s =
      searchNear buf metric p tooDeep levels depth half s := by
  have hadmits : admitsBox metric p half.box s = .ok true := by
    rw [admitsBox, hbox.closest_eq, ok_bind, hs]
    rfl
  unfold searchFar searchNear
  rw [hadmits]

/-- A rung is offered, and then what is offered below it, for each of its halves. -/
theorem searchFrom_rung {i place below : Nat} {box : Box}
    (hread : readVisit buf place = .ok (rungVisit p i)) (hp : p.isFinite = true)
    (hbox : box.Contains p) (hs : KeepsAdmitting s (rungHit metric p))
    (hbelow : ∀ (half : Half) (s : σ), half.child = (rungBelow i).map rungAt →
      half.box.Contains p → KeepsAdmitting s (rungHit metric p) →
      searchNear buf metric p tooDeep levels (depth + 1) half s =
        ⟨offerAll s (List.replicate below (rungHit metric p)), .ok ()⟩) :
    searchFrom buf metric p tooDeep (levels + 1) depth place box s =
      ⟨offerAll s (List.replicate (below + below + 1) (rungHit metric p)), .ok ()⟩ := by
  have hpivot : (rungVisit p i).pivot = p := rfl
  obtain ⟨_, _, -, hnear, hfar⟩ := exists_sides (rungVisit p i) (Axis.ofDepth depth) p box
  obtain ⟨hinNear, hinFar⟩ := contains_halves hpivot hp hbox (Axis.ofDepth depth) p
  obtain ⟨near, far, hhalves⟩ :
      ∃ near far, halves (rungVisit p i) (Axis.ofDepth depth) p box = (near, far) := ⟨_, _, rfl⟩
  rw [hhalves] at hnear hfar hinNear hinFar
  rw [child_rungVisit] at hnear hfar
  have hs₁ : KeepsAdmitting (Selection.offer s (rungHit metric p)) (rungHit metric p) :=
    hs.offerAll 1
  have hs₂ := hs₁.offerAll below
  have hadmits : Selection.admits (offerAll (Selection.offer s (rungHit metric p))
      (List.replicate below (rungHit metric p))) (metric.distance p p) = true := hs₂ 0
  have hfirst : searchNear buf metric p tooDeep levels (depth + 1) near
      (Selection.offer s (rungHit metric p)) = _ := hbelow near _ hnear hinNear hs₁
  have hsecond : searchFar buf metric p tooDeep levels (depth + 1) far _ = _ :=
    (searchFar_eq_searchNear hinFar hadmits).trans (hbelow far _ hfar hinFar hs₂)
  refine (searchFrom_of_halves hread hhalves hfirst).trans ?_
  rw [hsecond, ← offerAll_append, List.replicate_append_replicate, List.replicate_succ,
    offerAll_cons]

/-- **A search of a ladder goes along every way.** -/
theorem searchNear_ladder (hladder : HasLadder buf rungs p) (hp : p.isFinite = true) {i : Nat}
    (hi : i ≤ rungs) (hlevels : i ≤ levels) (hchild : half.child = (rungBelow i).map rungAt)
    (hbox : half.box.Contains p) (hs : KeepsAdmitting s (rungHit metric p)) :
    searchNear buf metric p tooDeep levels depth half s =
      ⟨offerAll s (List.replicate (2 ^ i - 1) (rungHit metric p)), .ok ()⟩ := by
  induction i generalizing levels depth half s with
  | zero =>
    rw [searchNear, hchild]
    rfl
  | succ i ih =>
    obtain ⟨levels, rfl⟩ : ∃ n, levels = n + 1 := ⟨levels - 1, by omega⟩
    have hpos := Nat.two_pow_pos i
    have hcount : 2 ^ (i + 1) - 1 = 2 ^ i - 1 + (2 ^ i - 1) + 1 := by
      rw [Nat.pow_succ]
      omega
    rw [searchNear, hchild, hcount]
    exact searchFrom_rung (hladder i (by omega)) hp hbox hs fun half s hc hb hk =>
      ih (by omega) (by omega) hc hb hk

end

/-- The nodes at the ends of the ways from a root. -/
def StoredTree.nodes (t : StoredTree) : Set Nat :=
  {node | ∃ way, wayEnd t.buf t.root way = some node}

/-- The ways down a ladder lead to its rungs. -/
theorem exists_rung_of_wayEnd {buf : Buffer} {rungs : Nat} {p : Ecef}
    (hladder : HasLadder buf rungs p) {i node : Nat} (hi : i ≤ rungs) {way : List Side}
    (h : wayEnd buf ((rungBelow i).map rungAt) way = some node) : ∃ j < i, rungAt j = node := by
  induction i generalizing way with
  | zero =>
    change wayEnd buf none way = some node at h
    rw [wayEnd_none] at h
    cases h
  | succ i ih =>
    cases way with
    | nil =>
      rw [wayEnd_nil] at h
      exact ⟨i, Nat.lt_succ_self i, Option.some.inj h⟩
    | cons side way =>
      have hread := readOffset_child (hladder i (by omega)) side
      rw [child_rungVisit] at hread
      obtain ⟨j, hj, hnode⟩ := ih (by omega) ((wayEnd_cons side hread way).symm.trans h)
      exact ⟨j, by omega, hnode⟩

/-- A stored tree is a ladder of so many rungs, whatever number of nodes it is said to hold. -/
def IsLadder (t : StoredTree) (rungs : Nat) (p : Ecef) : Prop :=
  HasLadder t.buf rungs p ∧ t.root = (rungBelow rungs).map rungAt

namespace IsLadder

variable {t : StoredTree} {rungs : Nat} {p : Ecef} (h : IsLadder t rungs p)
include h

/-- A ladder has no more nodes than rungs. -/
theorem encard_nodes_le : t.nodes.encard ≤ rungs := by
  obtain ⟨hladder, hroot⟩ := h
  have hsub : t.nodes ⊆ rungAt '' (Finset.range rungs : Set Nat) := by
    rintro node ⟨way, hway⟩
    rw [hroot] at hway
    obtain ⟨j, hj, hnode⟩ := exists_rung_of_wayEnd hladder (Nat.le_refl rungs) hway
    exact ⟨j, by simpa using hj, hnode⟩
  refine (Set.encard_le_encard hsub).trans ((Set.encard_image_le _ _).trans ?_)
  rw [Set.encard_coe_eq_coe_finsetCard, Finset.card_range]

variable [Trig] {σ : Type} [Selection σ] {metric : Metric} {s : σ}

theorem search_eq (hp : p.isFinite = true) (hrungs : rungs ≤ maxLevels t.count)
    (hs : KeepsAdmitting s (rungHit metric p)) : t.search metric p s =
      ⟨offerAll s (List.replicate (2 ^ rungs - 1) (rungHit metric p)), .ok ()⟩ := by
  obtain ⟨hladder, hroot⟩ := h
  have hnear : searchNear t.buf metric p (.corrupted (.tooDeep t.count (maxLevels t.count)))
      (maxLevels t.count) 0 ⟨t.root, .unbounded⟩ s = _ :=
    searchNear_ladder hladder hp (Nat.le_refl rungs) hrungs hroot (Box.contains_unbounded hp) hs
  rw [← hnear]
  unfold StoredTree.search searchNear
  cases t.root <;> rfl

/-- **Every way down a ladder is offered.** -/
theorem visited_eq (hp : p.isFinite = true) (hrungs : rungs ≤ maxLevels t.count)
    (hs : KeepsAdmitting s (rungHit metric p)) :
    t.visited metric p s = List.replicate (2 ^ rungs - 1) 0 := by
  rw [StoredTree.visited, h.search_eq hp hrungs hs.traced, Traced.visited_offerAll,
    List.map_replicate]
  rfl

end IsLadder

/-! ## Offers -/

/-- **How many offers a search makes.** Keeping a record of them changes nothing else. They are fewer
than two to the number of levels that the guard lets pass, which is no more than four times the
square of the number of nodes that the tree is said to hold; and an item is offered no more often
than there are ways to its nodes. If the levels of the tree can be counted, there are no more offers
than the tree is said to hold nodes. Otherwise there may be: a ladder with no more rungs than the
guard lets pass is offered along each of its ways, and the search ends well. -/
theorem offers_of_search [Trig] :
    (∀ {σ : Type} [Selection σ] (t : StoredTree) (metric : Metric) (target : Ecef) (s : σ),
      t.search metric target s = (t.search metric target (Traced.empty s)).untraced ∧
      (t.visited metric target s).length < 2 ^ maxLevels t.count ∧
      (t.visited metric target s).length ≤ 4 * t.count ^ 2 ∧
      (∀ item, ((t.visited metric target s).count item : ℕ∞) ≤ (waysTo t.buf t.root item).encard) ∧
      ∀ d, t.depth = .ok d → (t.visited metric target s).length ≤ t.count) ∧
    ∀ (target : Ecef) (count rungs : Nat), target.isFinite = true → count < 2 ^ 64 →
      rungs ≤ maxLevels count → ∃ t : StoredTree, t.count = count ∧ t.nodes.encard ≤ rungs ∧
        ∀ {σ : Type} [Selection σ] (metric : Metric) (s : σ),
          KeepsAdmitting s ⟨metric.distance target target, 0⟩ →
          (t.search metric target s).outcome = .ok () ∧
            t.visited metric target s = List.replicate (2 ^ rungs - 1) 0 := by
  constructor
  · intro σ _ t metric target s
    obtain ⟨met, hmet⟩ := t.exists_metOn metric target s
    refine ⟨StoredTree.search_untraced, hmet.few, ?_, hmet.count_le, fun d hd =>
      StoredTree.length_visited_le hd⟩
    rcases Nat.eq_zero_or_pos t.count with hzero | hpos
    · have hfew := hmet.few
      rw [hzero] at hfew ⊢
      exact Nat.le_of_lt_succ hfew
    · exact (hmet.few.trans_le (two_pow_maxLevels_le hpos)).le
  · intro target count rungs htarget hcount hrungs
    have hmax : maxLevels count ≤ 128 := by
      have hsize : count.size ≤ 64 := Nat.size_le.2 hcount
      rw [maxLevels, Tree.bitLength_eq_size]
      omega
    obtain ⟨buf, hladder⟩ := exists_hasLadder htarget (hrungs.trans hmax)
    have h : IsLadder ⟨buf, (rungBelow rungs).map rungAt, count⟩ rungs target := ⟨hladder, rfl⟩
    refine ⟨_, rfl, h.encard_nodes_le, fun metric s hs => ⟨?_, h.visited_eq htarget hrungs hs⟩⟩
    rw [h.search_eq htarget hrungs hs]

theorem offers_of_search_twoRungs :
    letI : Trig := nearestTrig
    ∃ t : StoredTree, t.count = 2 ∧ t.nodes.encard ≤ 2 ∧
      (t.search ⟨.zero⟩ (onAxis .zero) Nearest.empty).outcome = .ok () ∧
      t.visited ⟨.zero⟩ (onAxis .zero) Nearest.empty = [0, 0, 0] ∧
      t.visited ⟨.zero⟩ (onAxis .zero) (KNearest.empty 1) = [0, 0, 0] ∧
      t.visited ⟨.zero⟩ (onAxis .zero) (Within.empty .zero) = [0, 0, 0] ∧
      ∀ d, t.depth ≠ .ok d := by
  let _ : Trig := nearestTrig
  obtain ⟨hbounds, hladders⟩ := offers_of_search
  have hdistance : Metric.distance ⟨.zero⟩ (onAxis .zero) (onAxis .zero) = .zero := by
    have hchord : (onAxis .zero).distance (onAxis .zero) = .zero := by decide
    rw [Metric.distance, hchord]
    exact if_pos (by decide)
  obtain ⟨t, hcount, hnodes, hsearch⟩ :=
    hladders (onAxis .zero) 2 2 (by decide) (by decide) (by decide)
  have hnan : (rungHit ⟨.zero⟩ (onAxis .zero)).distance.isNaN = false := by
    rw [rungHit, hdistance]
    decide
  have hwithin : (rungHit ⟨.zero⟩ (onAxis .zero)).distance ≤ .zero := by
    rw [rungHit, hdistance]
    decide
  obtain ⟨hok, hvisited⟩ := hsearch _ _ (Nearest.keepsAdmitting hnan)
  refine ⟨t, hcount, hnodes, hok, hvisited, (hsearch _ _ (KNearest.keepsAdmitting hnan one_pos)).2,
    (hsearch _ _ (Within.keepsAdmitting hwithin)).2, fun d hd => ?_⟩
  have hle := (hbounds t ⟨.zero⟩ (onAxis .zero) Nearest.empty).2.2.2.2 d hd
  rw [hvisited, hcount] at hle
  exact absurd hle (by decide)

end Gazetteer
