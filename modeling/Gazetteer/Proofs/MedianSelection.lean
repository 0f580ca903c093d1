import Mathlib.Data.List.Nodup
import Gazetteer.Image
import Gazetteer.Proofs.FirstRefusal
import Gazetteer.Proofs.NodeBlocks

/-!
# Any way to find the middle

To split sites it is enough to bring the middle one to its place, with those before it in front and
those after it behind. How they stand there is left to the routine that does it, and a routine need
not do it alike twice. Sites with different indices are strictly ordered along every axis, so the
middle one and the two halves are determined as sets; and the tree of a half depends on its sites
alone. So every routine gives the nodes that full sorting gives, and a file is determined by its
items and its date.
-/

namespace Gazetteer

/-! ## Arrangements -/

/-- An arrangement of sites around the one at half their number: along an axis, none before it comes
after it, and none behind it comes before it. -/
structure Arranged (axis : Axis) (sites arranged : List Site) : Prop where
  perm : arranged.Perm sites
  around : ∀ lower middle upper, arranged = lower ++ middle :: upper →
    lower.length = sites.length / 2 → (∀ s ∈ lower, Site.leAlong axis s middle = true) ∧
      ∀ s ∈ upper, Site.leAlong axis middle s = true

/-- A routine that arranges sites around their middle. It may keep a state from call to call, so it
need not arrange the same sites alike twice. -/
structure MedianRoutine (σ : Type) where
  arrange : Axis → List Site → σ → List Site × σ
  arranged : ∀ axis sites state, Arranged axis sites (arrange axis sites state).1

/-- Sorted sites are arranged. -/
theorem arranged_of_pairwise {axis : Axis} {sites arranged : List Site} (hp : arranged.Perm sites)
    (hs : arranged.Pairwise fun a b => Site.leAlong axis a b = true) :
    Arranged axis sites arranged where
  perm := hp
  around := by
    rintro lower middle upper rfl -
    obtain ⟨-, hupper, hlower⟩ := List.pairwise_append.1 hs
    exact ⟨fun s hs => hlower s hs middle (by simp), (List.pairwise_cons.1 hupper).1⟩

/-- The routine that sorts all sites. -/
def MedianRoutine.fullSort : MedianRoutine Unit where
  arrange axis sites _ := (sites.mergeSort (Site.leAlong axis), ())
  arranged axis sites _ :=
    arranged_of_pairwise (List.mergeSort_perm _ _) (Tree.pairwise_mergeSort_leAlong axis sites)

/-! ## The tree of arranged sites -/

namespace Tree

section
variable {axis : Axis} {sites sites' arranged : List Site}

/-- Sites with different indices have one order along an axis. -/
theorem eq_of_pairwise_leAlong (hnodup : (sites.map Site.index).Nodup) (hp : sites.Perm sites')
    (hs : sites.Pairwise fun a b => Site.leAlong axis a b = true)
    (hs' : sites'.Pairwise fun a b => Site.leAlong axis a b = true) : sites = sites' := by
  refine List.Perm.eq_of_pairwise (fun a b ha hb hab hba => ?_) hs hs' hp
  have hindex : a.index = b.index := by
    rw [Site.leAlong_iff] at hab hba
    omega
  exact List.inj_on_of_nodup_map hnodup ha (hp.mem_iff.2 hb) hindex

theorem nodup_of_perm (hp : sites'.Perm sites) (hnodup : (sites.map Site.index).Nodup) :
    (sites'.map Site.index).Nodup :=
  (hp.map Site.index).nodup_iff.2 hnodup

theorem build_nil (depth : Nat) : build depth [] = .empty := by
  rcases build_cases depth [] with ⟨-, h⟩ | ⟨lower, middle, upper, hp, -⟩
  · exact h
  · exact absurd (List.perm_nil.1 hp) (by simp)

/-- **The tree of some sites does not depend on their order.** -/
theorem build_perm (depth : Nat) (hp : sites'.Perm sites) (hnodup : (sites.map Site.index).Nodup) :
    build depth sites' = build depth sites := by
  have hp' := nodup_of_perm hp hnodup
  obtain ⟨rfl, h⟩ | ⟨lower, middle, upper, hperm, hsorted, hl, h⟩ := build_cases depth sites
  · rw [List.perm_nil.1 hp]
  obtain ⟨rfl, -⟩ | ⟨lower', middle', upper', hperm', hsorted', hl', h'⟩ := build_cases depth sites'
  · rw [List.nil_perm.1 hp] at h ⊢
  have hall : lower' ++ middle' :: upper' = lower ++ middle :: upper :=
    eq_of_pairwise_leAlong (nodup_of_perm hperm' hp') (hperm'.trans (hp.trans hperm.symm))
      hsorted' hsorted
  obtain ⟨rfl, hrest⟩ := List.append_inj hall (by rw [hl, hl', hp.length_eq])
  obtain ⟨rfl, rfl⟩ := List.cons.inj hrest
  rw [h, h']

/-- **The tree of sites is read off any arrangement**: its root is the one in the middle, and its
halves are the trees of what stands on the two sides. -/
theorem build_of_arranged {depth : Nat} {lower upper : List Site} {middle : Site}
    (h : Arranged (Axis.ofDepth depth) sites (lower ++ middle :: upper))
    (hl : lower.length = sites.length / 2) (hnodup : (sites.map Site.index).Nodup) :
    build depth sites =
      .node middle.index (build (depth + 1) lower) (build (depth + 1) upper) := by
  obtain ⟨hlower, hupper⟩ := h.around lower middle upper rfl hl
  have hlen := h.perm.length_eq
  rw [List.length_append, List.length_cons] at hlen
  obtain ⟨rfl, -⟩ | ⟨lower', middle', upper', hperm, hsorted, hl', hbuild⟩ := build_cases depth sites
  · rw [List.length_nil] at hlen
    omega
  -- Sorting each side of the arrangement sorts the sites.
  let sort (half : List Site) := half.mergeSort (Site.leAlong (Axis.ofDepth depth))
  have hsort (half : List Site) : (sort half).Perm half := List.mergeSort_perm _ _
  have hall : lower' ++ middle' :: upper' = sort lower ++ middle :: sort upper := by
    refine eq_of_pairwise_leAlong (nodup_of_perm hperm hnodup) ?_ hsorted ?_
    · exact hperm.trans (h.perm.symm.trans
        ((hsort lower).symm.append ((hsort upper).symm.cons middle)))
    · refine List.pairwise_append.2 ⟨pairwise_mergeSort_leAlong _ _, List.pairwise_cons.2
        ⟨fun s hs => hupper s ((hsort upper).mem_iff.1 hs), pairwise_mergeSort_leAlong _ _⟩, ?_⟩
      intro a ha b hb
      have ham := hlower a ((hsort lower).mem_iff.1 ha)
      rcases List.mem_cons.1 hb with rfl | hb
      · exact ham
      · exact Site.leAlong_trans ham (hupper b ((hsort upper).mem_iff.1 hb))
  obtain ⟨rfl, hrest⟩ := List.append_inj hall (by rw [hl', (hsort lower).length_eq, hl])
  obtain ⟨rfl, rfl⟩ := List.cons.inj hrest
  have hnodup' := nodup_of_perm h.perm hnodup
  rw [List.map_append, List.map_cons] at hnodup'
  obtain ⟨hnl, hnu, -⟩ := List.nodup_append.1 hnodup'
  rw [hbuild, build_perm _ (hsort lower) hnl, build_perm _ (hsort upper) (List.nodup_cons.1 hnu).2]

end

end Tree

/-! ## Nodes made in place -/

theorem modify_append_cons {α : Type} (before after : List α) (x : α) (f : α → α) :
    (before ++ x :: after).modify before.length f = before ++ f x :: after := by
  induction before with
  | nil => rfl
  | cons y before ih =>
    rw [List.cons_append, List.length_cons, List.modify_succ_cons, ih]
    rfl

/-- A range cut at its middle, and the state of the routine that arranged it. -/
structure Cut (σ : Type) where
  lower : List Site
  middle : Site
  upper : List Site
  state : σ

/-- Nodes while they are made: the place of the root of the range that was added last, all nodes so
far, and the state of the routine. -/
structure Making (σ : Type) where
  root : Option Nat
  nodes : Array TreeNode
  state : σ

/-- What there is after a range was added: the nodes of a tree behind those before, and the place of
its root. -/
def Making.Has {σ : Type} (m : Making σ) (before : Array TreeNode) (t : Tree) : Prop :=
  m.root = t.rootAt before.size ∧ m.nodes.toList = before.toList ++ t.layout before.size

/-- A node whose halves were added behind it has them, once its children are filled in. -/
theorem Making.Has.node {σ : Type} {before : Array TreeNode} {item : Nat} {lower upper : Making σ}
    {l u : Tree} (hl : lower.Has (before.push ⟨item, none, none⟩) l) (hu : upper.Has lower.nodes u)
    (state : σ) :
    Making.Has ⟨some before.size, upper.nodes.modify before.size fun n =>
      { n with left := lower.root, right := upper.root }, state⟩ before (.node item l u) := by
  obtain ⟨hlroot, hlnodes⟩ := hl
  obtain ⟨huroot, hunodes⟩ := hu
  have hbefore : before.toList.length = before.size := Array.length_toList
  rw [Array.size_push] at hlroot hlnodes
  have hsize : lower.nodes.size = before.size + 1 + l.size := by
    rw [← Array.length_toList, hlnodes, List.length_append, Array.length_toList, Array.size_push,
      Tree.length_layout]
  rw [hsize] at huroot hunodes
  refine ⟨rfl, ?_⟩
  rw [Array.toList_modify, hunodes, hlnodes, Array.toList_push, List.append_assoc,
    List.append_assoc, List.singleton_append, ← hbefore,
    modify_append_cons, hlroot, huroot, Array.length_toList, Tree.layout]

namespace MedianRoutine

variable {σ : Type} (r : MedianRoutine σ) (axis : Axis) {range : List Site} (state : σ)

theorem mid_lt (h : range ≠ []) : range.length / 2 < (r.arrange axis range state).1.length := by
  have hpos := List.length_pos_iff.2 h
  rw [(r.arranged axis range state).perm.length_eq]
  omega

/-- Arranges a range and cuts it at the middle. -/
def cut (axis : Axis) (range : List Site) (state : σ) (h : range ≠ []) : Cut σ :=
  let call := r.arrange axis range state
  ⟨call.1.take (range.length / 2), call.1.get ⟨range.length / 2, r.mid_lt axis state h⟩,
    call.1.drop (range.length / 2 + 1), call.2⟩

theorem arranged_cut (h : range ≠ []) : Arranged axis range ((r.cut axis range state h).lower ++
    (r.cut axis range state h).middle :: (r.cut axis range state h).upper) := by
  dsimp only [cut]
  rw [List.get_eq_getElem, List.getElem_cons_drop, List.take_append_drop]
  exact r.arranged axis range state

theorem length_lower_cut (h : range ≠ []) :
    (r.cut axis range state h).lower.length = range.length / 2 := by
  have hmid := r.mid_lt axis state h
  rw [cut, List.length_take]
  omega

theorem length_cut (h : range ≠ []) : (r.cut axis range state h).lower.length < range.length ∧
    (r.cut axis range state h).upper.length < range.length := by
  have hlen := (r.arranged_cut axis state h).perm.length_eq
  rw [List.length_append, List.length_cons] at hlen
  omega

/-- Adds the nodes of a range of sites behind those that are there: first its root, still without
children, then the nodes of the sites before the middle, then those of the sites behind it. The
children of the root are filled in at last. -/
def addNodes (depth : Nat) (range : List Site) (nodes : Array TreeNode) (state : σ) : Making σ :=
  if h : range = [] then ⟨none, nodes, state⟩
  else
    let cut := r.cut (Axis.ofDepth depth) range state h
    let place := nodes.size
    let lower := addNodes (depth + 1) cut.lower (nodes.push ⟨cut.middle.index, none, none⟩) cut.state
    let upper := addNodes (depth + 1) cut.upper lower.nodes lower.state
    ⟨some place, upper.nodes.modify place fun n => { n with left := lower.root, right := upper.root },
      upper.state⟩
termination_by range.length
decreasing_by
  · exact (r.length_cut _ _ h).1
  · exact (r.length_cut _ _ h).2

/-- The nodes of some points, made in place. -/
def makeNodes (points : List Ecef) (state : σ) : List TreeNode :=
  (r.addNodes 0 (Tree.sites points) #[] state).nodes.toList

/-- **Nodes made in place are those of the tree of the sites**, laid out behind the nodes before
them, whatever the routine. -/
theorem has_addNodes (depth : Nat) (range : List Site) (nodes : Array TreeNode) (state : σ)
    (hnodup : (range.map Site.index).Nodup) :
    (r.addNodes depth range nodes state).Has nodes (Tree.build depth range) := by
  induction hn : range.length using Nat.strongRecOn generalizing depth range nodes state with
  | _ n ih =>
    subst hn
    by_cases h : range = []
    · subst h
      rw [addNodes, dif_pos rfl, Tree.build_nil]
      exact ⟨rfl, (List.append_nil _).symm⟩
    · have hcut := r.arranged_cut (Axis.ofDepth depth) state h
      have hlower := r.length_lower_cut (Axis.ofDepth depth) state h
      obtain ⟨hltl, hltu⟩ := r.length_cut (Axis.ofDepth depth) state h
      have hnodup' := Tree.nodup_of_perm hcut.perm hnodup
      rw [List.map_append, List.map_cons] at hnodup'
      obtain ⟨hnl, hnu, -⟩ := List.nodup_append.1 hnodup'
      rw [addNodes, dif_neg h, Tree.build_of_arranged hcut hlower hnodup]
      exact Making.Has.node (ih _ hltl _ _ _ _ hnl rfl)
        (ih _ hltu _ _ _ _ (List.nodup_cons.1 hnu).2 rfl) _

/-- **The nodes of some points are those of their tree**, whatever the routine. -/
theorem makeNodes_eq (points : List Ecef) (state : σ) :
    r.makeNodes points state = (Tree.ofPoints points).nodes := by
  have hnodup : ((Tree.sites points).map Site.index).Nodup :=
    Tree.map_index_sites points ▸ List.nodup_range
  exact (r.has_addNodes 0 (Tree.sites points) #[] state hnodup).2

end MedianRoutine

/-! ## Files made with a routine -/

namespace Draft

variable {α : Type} [Schema α] {σ : Type}

/-- The file of a draft, with its nodes made in place, by a routine that finds the middle. -/
def packWith (d : Draft α) (r : MedianRoutine σ) (state : σ) (date : Int64) : Except Error Image := do
  if d.items.isEmpty then throw .noItems
  let geometry ← TableGeometry.forItems d.size
  let front ← d.encodeFront date
  let l : Layout := ⟨front.length, Schema.recordSize α, d.size, geometry⟩
  let records ← d.encodeRecords
  let names ← d.encodeNames l
  let nodes := r.makeNodes d.points.toList state
  let stored ← l.plan.encodeNodes nodes
  let bytes := front ++ (records ++ (names ++ stored))
  let _ ← toInt32 bytes.length "database length"
  let sealed ← sealHeader bytes
  return ⟨sealed, l, ← nodesDepth nodes⟩

/-- The routine that finds the middle makes no difference to a file. -/
theorem packWith_eq (d : Draft α) (r : MedianRoutine σ) (state : σ) (date : Int64) :
    d.packWith r state date = d.pack date := by
  unfold packWith pack packBehind
  simp only [r.makeNodes_eq, Tree.nodesDepth_nodes]
  rfl

/-- A file is made of the items and the points of a draft. -/
theorem pack_congr {d d' : Draft α} (hitems : d.items = d'.items) (hpoints : d.points = d'.points)
    (date : Int64) : d.pack date = d'.pack date := by
  obtain ⟨settings, items, points, names⟩ := d
  obtain ⟨settings', items', points', names'⟩ := d'
  cases hitems
  cases hpoints
  rfl

theorem points_pushAll (d : Draft α) (items : List α) : (d.pushAll items).points.toList =
    d.points.toList ++ items.map fun i => (Schema.base i).ecef := by
  induction items generalizing d with
  | nil => simp
  | cons x items ih =>
    rw [pushAll_cons, ih]
    simp [push]

/-- **The file of collected items is that of the list of the items.** -/
theorem pack_collected_eq (settings : Settings) (calls : List (Call α)) (date : Int64) :
    (collected settings calls).pack date =
      ((empty settings).pushAll (collected settings calls).toList).pack date := by
  have hitems := (toList_pushAll (empty settings) (collected settings calls).toList).symm
  refine pack_congr (Array.toList_inj.1 hitems) (Array.toList_inj.1 ?_) date
  rw [points_pushAll, (inOrder_collected settings calls).points_eq]
  rfl

end Draft

/-- **The layout does not depend on the routine that finds the middle.** Any two routines, in any
states, give the same nodes: those that sorting every range in full gives, which are the nodes of the
tree of the points. So whatever calls collected the items, the file is determined by the settings,
the list of the items and the date. -/
theorem MedianRoutine.makeNodes_unique {σ τ : Type} (r : MedianRoutine σ) (r' : MedianRoutine τ)
    (state : σ) (state' : τ) (points : List Ecef) :
    r.makeNodes points state = r'.makeNodes points state' ∧
    r.makeNodes points state = fullSort.makeNodes points () ∧
    r.makeNodes points state = (Tree.ofPoints points).nodes ∧
    ∀ {α : Type} [Schema α] (settings : Settings) (calls : List (Draft.Call α)) (date : Int64),
      (Draft.collected settings calls).packWith r state date =
        ((Draft.empty settings).pushAll (Draft.collected settings calls).toList).packWith r' state'
          date := by
  refine ⟨by rw [makeNodes_eq, makeNodes_eq], by rw [makeNodes_eq, makeNodes_eq], r.makeNodes_eq _ _,
    fun settings calls date => ?_⟩
  rw [Draft.packWith_eq, Draft.packWith_eq, Draft.pack_collected_eq]

end Gazetteer
