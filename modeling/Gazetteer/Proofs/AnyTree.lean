import Gazetteer.Proofs.AnyFile
import Gazetteer.Proofs.PruneBound
import Gazetteer.Proofs.Traversal

/-!
# Searching any tree

The nodes of a file may form anything. A search reads every node with care and gives up after so
many levels, but it takes for granted that the planes of the tree lie in the boxes that they divide.
A plane outside its box leaves no room on one side of it, and a search that asks for the nearest
point there is aborted. This is the only way in which a search of an opened file can be aborted, and
the trees of packed files give no cause for it.
-/

namespace Gazetteer

/-! ## Boxes with room -/

namespace Box

variable {b : Box} {axis : Axis} {v : Binary64} {target : Ecef}

/-- A box has room if no lower end is beyond the upper end. -/
def HasRoom (b : Box) : Prop := ∀ axis, b.low.coord axis ≤ b.high.coord axis

/-- The ends of a box are numbers. -/
def IsNumeric (b : Box) : Prop :=
  ∀ axis, (b.low.coord axis).isNaN = false ∧ (b.high.coord axis).isNaN = false

theorem isNumeric_unbounded : unbounded.IsNumeric := by
  intro axis
  cases axis <;> decide

theorem IsNumeric.below (h : b.IsNumeric) (hv : v.isNaN = false) : (b.below axis v).IsNumeric := by
  intro a
  refine ⟨(h a).1, ?_⟩
  by_cases ha : a = axis
  · subst ha
    rwa [Box.below, Ecef.coord_setCoord_self]
  · rw [Box.below, Ecef.coord_setCoord_ne _ _ ha]
    exact (h a).2

theorem IsNumeric.above (h : b.IsNumeric) (hv : v.isNaN = false) : (b.above axis v).IsNumeric := by
  intro a
  refine ⟨?_, (h a).2⟩
  by_cases ha : a = axis
  · subst ha
    rwa [Box.above, Ecef.coord_setCoord_self]
  · rw [Box.above, Ecef.coord_setCoord_ne _ _ ha]
    exact (h a).1

/-- A box of numbers without room has an upper end below the lower end. -/
theorem IsNumeric.exists_lt (h : b.IsNumeric) (hroom : ¬ b.HasRoom) :
    ∃ axis, b.high.coord axis < b.low.coord axis := by
  rw [HasRoom, not_forall] at hroom
  obtain ⟨axis, haxis⟩ := hroom
  rcases Binary64.lt_or_le_of_not_nan (h axis).2 (h axis).1 with hlt | hle
  · exact ⟨axis, hlt⟩
  · exact absurd hle haxis

/-- A box with a point in it has room. -/
theorem Contains.hasRoom {p : Ecef} (h : b.Contains p) : b.HasRoom :=
  fun axis => Binary64.le_trans (h axis).1 (h axis).2

theorem clampCoord_failsWith {p : Ecef} :
    FailsWith (fun e => e = .aborted .contradictoryBox ∧ ¬ b.HasRoom) (b.clampCoord axis p) := by
  unfold clampCoord
  by_cases h : b.low.coord axis ≤ b.high.coord axis
  · rw [if_pos h]
    exact .ok _
  · rw [if_neg h]
    exact .error ⟨rfl, fun hroom => h (hroom axis)⟩

/-- Only a box without room has no nearest point. -/
theorem closest_failsWith :
    FailsWith (fun e => e = .aborted .contradictoryBox ∧ ¬ b.HasRoom) (b.closest target) := by
  apply clampCoord_failsWith.bind
  intro p _
  apply clampCoord_failsWith.bind
  intro p _
  exact clampCoord_failsWith

end Box

/-! ## Nodes -/

section
variable {buf : Buffer} {node item : Nat} {v : Visit}

theorem readEcef_damage : FailsWith Error.IsDamage (readEcef buf item) := by
  apply Buffer.readReal64_failsWith.bind
  intro x _
  apply Buffer.readReal64_failsWith.bind
  intro y _
  apply Buffer.readReal64_failsWith.bind
  intro z _
  exact .ok _

theorem readVisit_damage : FailsWith Error.IsDamage (readVisit buf node) := by
  apply Buffer.readOffset_failsWith.bind
  intro item? _
  cases item? with
  | none => exact .error ⟨_, rfl⟩
  | some item =>
    apply Buffer.readOffset_failsWith.bind
    intro left _
    apply Buffer.readOffset_failsWith.bind
    intro right _
    apply readEcef_damage.bind
    intro pivot _
    split
    · exact .ok _
    · exact .error ⟨_, rfl⟩

theorem isFinite_of_readVisit (h : readVisit buf node = .ok v) : v.pivot.isFinite = true :=
  (readVisit_eq_ok.1 h).2.2.2.2

/-- The children of a node that is read lie at offsets of the file format. -/
theorem child_lt_of_readVisit (h : readVisit buf node = .ok v) {c : Nat}
    (hc : v.left = some c ∨ v.right = some c) : c < 0x80000000 := by
  obtain ⟨-, hleft, hright, -⟩ := readVisit_eq_ok.1 h
  rcases hc with hc | hc
  · exact Buffer.readOffset_lt (hc ▸ hleft)
  · exact Buffer.readOffset_lt (hc ▸ hright)

end

/-! ## Reached boxes -/

namespace StoredTree

variable {t : StoredTree} {depth node : Nat} {box : Box}

/-- The nodes that can be reached from the root of a stored tree, each with its level and with the
box that a search carries to it. -/
inductive Reached (t : StoredTree) : (depth node : Nat) → Box → Prop
  | root {r : Nat} (h : t.root = some r) : Reached t 0 r .unbounded
  | lower {depth node c : Nat} {box : Box} {v : Visit} (h : Reached t depth node box)
      (read : readVisit t.buf node = .ok v) (child : v.left = some c) :
      Reached t (depth + 1) c (box.below (Axis.ofDepth depth) (v.pivot.coord (Axis.ofDepth depth)))
  | upper {depth node c : Nat} {box : Box} {v : Visit} (h : Reached t depth node box)
      (read : readVisit t.buf node = .ok v) (child : v.right = some c) :
      Reached t (depth + 1) c (box.above (Axis.ofDepth depth) (v.pivot.coord (Axis.ofDepth depth)))

/-- The planes of a tree lie in the boxes that they divide. -/
def HasRoom (t : StoredTree) : Prop := ∀ depth node box, t.Reached depth node box → box.HasRoom

/-- **The ends of the boxes of a search are numbers.** -/
theorem Reached.isNumeric (h : t.Reached depth node box) : box.IsNumeric := by
  induction h with
  | root _ => exact Box.isNumeric_unbounded
  | lower _ hread _ ih =>
    exact ih.below (Binary64.not_nan_of_isFinite (Ecef.isFinite_coord (isFinite_of_readVisit hread) _))
  | upper _ hread _ ih =>
    exact ih.above (Binary64.not_nan_of_isFinite (Ecef.isFinite_coord (isFinite_of_readVisit hread) _))

/-- The offsets of the nodes are those of the file format. -/
theorem Reached.node_lt (h : t.Reached depth node box)
    (hroot : ∀ r, t.root = some r → r < 0x80000000) : node < 0x80000000 := by
  cases h with
  | root h => exact hroot node h
  | lower _ hread hchild => exact child_lt_of_readVisit hread (.inl hchild)
  | upper _ hread hchild => exact child_lt_of_readVisit hread (.inr hchild)

/-- How a search can fail: the file is damaged, or there is no room in a box. -/
def Fault (t : StoredTree) (e : Error) : Prop :=
  e.IsDamage ∨ (e = .aborted .contradictoryBox ∧
    ∃ depth node box, t.Reached depth node box ∧ ∃ axis, box.high.coord axis < box.low.coord axis)

theorem Fault.of_isDamage (e : Error) (h : e.IsDamage) : t.Fault e := .inl h

/-- With room in the boxes there is damage only. -/
theorem HasRoom.isDamage (h : t.HasRoom) (e : Error) (he : t.Fault e) : e.IsDamage := by
  rcases he with he | ⟨-, depth, node, box, hreach, axis, hlt⟩
  · exact he
  · have hself := Binary64.lt_of_lt_of_le hlt (h depth node box hreach axis)
    exact absurd (Binary64.lt_iff.1 hself).2.2 (Int.lt_irrefl _)

end StoredTree

/-! ## The search -/

section
variable {t : StoredTree} {target : Ecef} {depth node : Nat} {box : Box} {v : Visit}

/-- The halves of a node are reached from it. -/
theorem StoredTree.Reached.halves (h : t.Reached depth node box)
    (hread : readVisit t.buf node = .ok v) {half : Half}
    (hhalf : half = (Gazetteer.halves v (Axis.ofDepth depth) target box).1 ∨
      half = (Gazetteer.halves v (Axis.ofDepth depth) target box).2) {c : Nat}
    (hc : half.child = some c) : t.Reached (depth + 1) c half.box := by
  rcases halves_cases v (Axis.ofDepth depth) target box with heq | heq
  · rw [heq] at hhalf
    rcases hhalf with rfl | rfl
    · exact h.lower hread hc
    · exact h.upper hread hc
  · rw [heq] at hhalf
    rcases hhalf with rfl | rfl
    · exact h.upper hread hc
    · exact h.lower hread hc

variable [Trig] {σ : Type} [Selection σ] {metric : Metric} {tooDeep : Error} {levels : Nat} {s : σ}
  {half : Half}

theorem admitsBox_failsWith (h : t.Reached depth node box) :
    FailsWith t.Fault (admitsBox metric target box s) := by
  have hclosest : FailsWith t.Fault (box.closest target) := by
    refine Box.closest_failsWith.mono ?_
    rintro e ⟨rfl, hroom⟩
    exact .inr ⟨rfl, depth, node, box, h, h.isNumeric.exists_lt hroom⟩
  apply hclosest.bind
  intro p _
  exact .ok _

/-- What a search with so many levels does below the nodes of a tree. -/
def SearchesFail (σ : Type) [Selection σ] (t : StoredTree) (metric : Metric) (target : Ecef)
    (tooDeep : Error) (levels : Nat) : Prop :=
  ∀ depth node box (s : σ), t.Reached depth node box →
    FailsWith t.Fault (searchFrom t.buf metric target tooDeep levels depth node box s).outcome

theorem searchNear_failsWith (ih : SearchesFail σ t metric target tooDeep levels)
    (h : ∀ c, half.child = some c → t.Reached depth c half.box) :
    FailsWith t.Fault (searchNear t.buf metric target tooDeep levels depth half s).outcome := by
  unfold searchNear
  cases hc : half.child with
  | none => exact .ok ()
  | some c => exact ih depth c half.box s (h c hc)

theorem searchFar_failsWith (ih : SearchesFail σ t metric target tooDeep levels)
    (h : ∀ c, half.child = some c → t.Reached depth c half.box) :
    FailsWith t.Fault (searchFar t.buf metric target tooDeep levels depth half s).outcome := by
  unfold searchFar
  cases hc : half.child with
  | none => exact .ok ()
  | some c =>
    dsimp only
    cases ha : admitsBox metric target half.box s with
    | error e => exact .error (admitsBox_failsWith (h c hc) e ha)
    | ok b =>
      cases b with
      | false => exact .ok ()
      | true => exact ih depth c half.box s (h c hc)

/-- **A search below a node fails only as it can.** -/
theorem searchFrom_failsWith (htoo : tooDeep.IsDamage) :
    SearchesFail σ t metric target tooDeep levels := by
  induction levels with
  | zero =>
    intro depth node box s _
    exact .error (.inl htoo)
  | succ levels ih =>
    intro depth node box s h
    rw [searchFrom_succ]
    cases hv : readVisit t.buf node with
    | error e => exact .error (.inl (readVisit_damage e hv))
    | ok v =>
      dsimp only
      have hnear (s : σ) := searchNear_failsWith (s := s) ih
        fun c (hc : (halves v (Axis.ofDepth depth) target box).1.child = some c) =>
          h.halves hv (.inl rfl) hc
      cases hfirst : (searchNear t.buf metric target tooDeep levels (depth + 1)
          (halves v (Axis.ofDepth depth) target box).1
          (Selection.offer s ⟨metric.distance v.pivot target, v.item⟩)).outcome with
      | error e =>
        dsimp only
        rw [hfirst]
        exact .error (hnear _ e hfirst)
      | ok _ =>
        exact searchFar_failsWith ih
          fun c (hc : (halves v (Axis.ofDepth depth) target box).2.child = some c) =>
            h.halves hv (.inr rfl) hc

/-- A search of a tree fails only as it can. -/
theorem StoredTree.search_failsWith :
    FailsWith t.Fault (t.search metric target s).outcome := by
  unfold search
  cases hr : t.root with
  | none => exact .ok ()
  | some root => exact searchFrom_failsWith ⟨_, rfl⟩ 0 root .unbounded s (.root hr)

end

/-! ## Trees with room -/

section
variable {t : StoredTree} {u : Tree} {itemAt : Nat → Nat} {point : Nat → Ecef} {depth node : Nat}
  {box : Box}

/-- Where a tree stands, a reached node is the root of a part of the tree that lies in the box. -/
theorem StoredTree.Reached.stored (h : t.Reached depth node box)
    (hu : u.StoredAt t.buf itemAt point t.root) (ho : u.Ordered point 0)
    (hbox : u.InBox point .unbounded) :
    ∃ part : Tree, part.StoredAt t.buf itemAt point (some node) ∧ part.Ordered point depth ∧
      part.InBox point box := by
  induction h with
  | root h => exact ⟨u, h ▸ hu, ho, hbox⟩
  | lower _ hread hchild ih =>
    obtain ⟨part, hpart, hordered, hin⟩ := ih
    cases hpart with
    | node hread' hlower hupper =>
      cases hread.symm.trans hread'
      exact ⟨_, hchild ▸ hlower, hordered.2.2.1, hordered.inBox_below hin⟩
  | upper _ hread hchild ih =>
    obtain ⟨part, hpart, hordered, hin⟩ := ih
    cases hpart with
    | node hread' hlower hupper =>
      cases hread.symm.trans hread'
      exact ⟨_, hchild ▸ hupper, hordered.2.2.2, hordered.inBox_above hin⟩

/-- **The tree of some items has room**, whatever the distances are measured with. -/
theorem Database.Holds.hasRoom {α : Type} [Schema α] {db : Database α} {items : List α}
    (h : db.Holds items) (hfin : ∀ x ∈ items, (Schema.base x).ecef.isFinite = true) :
    db.tree.HasRoom := by
  intro depth node box hreach
  have hpoints : (treeOf items).InBox (pointAt items) .unbounded := by
    intro i hi
    have hlt := mem_items_treeOf.1 hi
    rw [pointAt_of_getElem? (List.getElem?_eq_getElem hlt)]
    have hpoint := hfin _ (List.getElem_mem hlt)
    exact ⟨hpoint, Box.contains_unbounded hpoint⟩
  obtain ⟨part, hpart, -, hin⟩ :=
    hreach.stored (h.storedAt hfin) (ordered_treeOf items) hpoints
  obtain ⟨i, hi⟩ := List.exists_mem_of_ne_nil _ hpart.items_ne_nil
  exact (hin i hi).2.hasRoom

end

/-! ## Queries -/

namespace Database

variable {α : Type} {db : Database α} {settings : Settings} {buf : Buffer} {pos : Position}

theorem search_failsWith [Trig] {σ : Type} [Selection σ] {s : σ} (hpos : pos.isFinite = true) :
    FailsWith db.tree.Fault (db.search pos s) := by
  rw [search, hpos]
  apply StoredTree.search_failsWith.bind
  intro _ _
  exact .ok _

variable [Schema α]

/-- The offsets of the nodes of an opened file are those of the file format. -/
theorem Fits.root_lt (h : db.Fits) {r : Nat} (hr : db.tree.root = some r) : r < 0x80000000 := by
  have hsize := h.size_lt
  have hnodes := h.sections_le.2
  rw [tree] at hr
  dsimp only at hr
  split at hr
  · cases hr
  · cases hr
    omega

variable [ForgivingSchema α]

theorem resolve_failsWith {hits : List Hit} :
    FailsWith Error.IsDamage (db.resolve hits) := by
  apply FailsWith.mapM
  intro h _
  apply read_damage.bind
  intro x _
  exact .ok _

variable [Trig]

theorem nearest?_failsWith (hpos : pos.isFinite = true) :
    FailsWith db.tree.Fault (db.nearest? pos) := by
  apply (search_failsWith hpos).bind
  intro s _
  apply (resolve_failsWith.mono StoredTree.Fault.of_isDamage).bind
  intro ns _
  exact .ok _

theorem kNearest_failsWith (hpos : pos.isFinite = true) (k : Nat) :
    FailsWith db.tree.Fault (db.kNearest pos k) := by
  apply (search_failsWith hpos).bind
  intro s _
  exact resolve_failsWith.mono StoredTree.Fault.of_isDamage

theorem within_failsWith (hpos : pos.isFinite = true) {r : Binary64} (hr : r.isNaN = false) :
    FailsWith db.tree.Fault (db.within pos r) := by
  rw [within, hr]
  apply (search_failsWith hpos).bind
  intro s _
  exact resolve_failsWith.mono StoredTree.Fault.of_isDamage

/-- **How a query of any opened file by place fails.** The ends of every box that a search can carry
are numbers and its offsets are small. A query that fails reports damage, or it was aborted at a box
in which a plane leaves no room; with room in the boxes it reports damage only, and the tree of
items that were packed has room. -/
theorem queries_of_ofBuffer [StorableSchema α] (h : Database.ofBuffer α settings buf = .ok db)
    (hpos : pos.isFinite = true) (k : Nat) {r : Binary64} (hr : r.isNaN = false) :
    (FailsWith db.tree.Fault (db.nearest? pos) ∧ FailsWith db.tree.Fault (db.kNearest pos k) ∧
      FailsWith db.tree.Fault (db.within pos r)) ∧
    (db.tree.HasRoom → FailsWith Error.IsDamage (db.nearest? pos) ∧
      FailsWith Error.IsDamage (db.kNearest pos k) ∧ FailsWith Error.IsDamage (db.within pos r)) ∧
    (∀ depth node box, db.tree.Reached depth node box → box.IsNumeric ∧ node < 0x80000000) ∧
    ∀ items, db.Holds items → (∀ x ∈ items, (Schema.base x).ecef.isFinite = true) →
      db.tree.HasRoom := by
  have hf := fits_of_ofBuffer h
  have hnearest : FailsWith db.tree.Fault (db.nearest? pos) := nearest?_failsWith hpos
  have hk : FailsWith db.tree.Fault (db.kNearest pos k) := kNearest_failsWith hpos k
  have hwithin : FailsWith db.tree.Fault (db.within pos r) := within_failsWith hpos hr
  refine ⟨⟨hnearest, hk, hwithin⟩, ?_, ?_, fun items hi hfin => hi.hasRoom hfin⟩
  · intro hroom
    exact ⟨hnearest.mono hroom.isDamage, hk.mono hroom.isDamage, hwithin.mono hroom.isDamage⟩
  · intro depth node box hreach
    exact ⟨hreach.isNumeric, hreach.node_lt fun r hr => hf.root_lt hr⟩

end Database

/-! ## A plane outside its box -/

def minusOne : Binary64 := ⟨0xbff0000000000000⟩

/-- The positions of four places: three in the middle of the earth, one beside it. -/
def chainPoints : List Ecef := [onAxis .zero, onAxis .zero, onAxis .zero, onAxis minusOne]

/-- A tree without branches. Its last plane lies below the first one, in whose upper half it is, and
has a lower half all the same. -/
def chainNodes : List TreeNode :=
  [⟨0, none, some 1⟩, ⟨1, none, some 2⟩, ⟨2, none, some 3⟩, ⟨3, some 0, none⟩]

/-- The record of a place at a point, with the name of the schema for all its texts. -/
def chainRecord (p : Ecef) : List UInt8 :=
  ItemBase.encode ⟨"place", 0, ⟨.zero, .zero, .zero⟩, p⟩ 0 ++ List.replicate 8 0

/-- Where the nodes and the records of the chain lie. -/
def chainPlan : TreePlan := ⟨314, 42, 64⟩

/-- The three words of a node. -/
def chainNodeBytes (n : TreeNode) : List UInt8 :=
  match chainPlan.encodeNode n with
  | .ok bytes => bytes
  | .error _ => []

/-- A file of four places whose tree is the chain. -/
def chainForm : FileForm :=
  .withCrc Place ⟨0, 0, ["place"], 4, (chainPoints.map chainRecord).flatten, ⟨2, 1⟩,
    int32Bytes emptyOffset ++ int32Bytes emptyOffset, (chainNodes.map chainNodeBytes).flatten⟩

theorem encodeNode_chain {n : TreeNode} (hn : n ∈ chainNodes) :
    chainPlan.encodeNode n = .ok (chainNodeBytes n) ∧ (chainNodeBytes n).length = 12 := by
  simp only [chainNodes, List.mem_cons, List.not_mem_nil, or_false] at hn
  rcases hn with rfl | rfl | rfl | rfl <;> exact ⟨rfl, rfl⟩

theorem layout_chainForm : chainForm.layout Place = ⟨42, 64, 4, ⟨2, 1⟩⟩ := by decide

theorem isFile_chainForm : chainForm.IsFile Place true := by
  have hrecords : chainForm.records.length = 4 * 64 := by
    simp [chainForm, FileForm.withCrc, chainRecord, chainPoints, baseSize]
  have hnodes : chainForm.nodes.length = 4 * 12 := by
    refine length_flatten_of_forall 12 fun bytes hb => ?_
    obtain ⟨n, hn, rfl⟩ := List.mem_map.1 hb
    exact (encodeNode_chain hn).2
  have hsized : chainForm.Sized Place := ⟨hrecords, rfl, hnodes⟩
  refine ⟨hsized, rfl, Nat.one_pos, Nat.one_lt_two, fun _ => FileForm.crc_withCrc _, ?_⟩
  rw [FileForm.length_bytes, ← hsized.stop_eq, layout_chainForm]
  decide

/-- The nodes of the chain are read as they are. -/
theorem readVisit_chain {i : Nat} {n : TreeNode} {p : Ecef} (hn : chainNodes[i]? = some n)
    (hp : chainPoints[n.item]? = some p) (hfin : p.isFinite = true) :
    readVisit (.ofList (chainForm.bytes Place)) (314 + i * 12) = .ok ⟨42 + n.item * 64,
      n.left.map fun j => 314 + j * 12, n.right.map fun j => 314 + j * 12, p⟩ := by
  have hplaced := isFile_chainForm.placedIn
  rw [layout_chainForm] at hplaced
  have hmem := List.mem_of_getElem? hn
  have hnode : HasAt (chainForm.bytes Place) (314 + i * 12) (chainNodeBytes n) := by
    apply hplaced.nodes.flatten
    · intro bytes hb
      obtain ⟨m, hm, rfl⟩ := List.mem_map.1 hb
      exact (encodeNode_chain hm).2
    · rw [List.getElem?_map, hn]
      rfl
  have hrecord : HasAt (Buffer.ofList (chainForm.bytes Place)).bytes (42 + n.item * 64)
      (chainRecord p) := by
    apply hplaced.records.flatten
    · simp [chainRecord, baseSize]
    · rw [List.getElem?_map, hp]
      rfl
  exact TreePlan.readVisit_of_encodeNode (encodeNode_chain hmem).1 hnode
    (readEcef_of_hasAt hrecord.left) hfin

section
variable [Trig] {σ : Type} [Selection σ] {metric : Metric} {target : Ecef} {tooDeep : Error} {s : σ}

/-- A search that fails above the plane of a node, where the target is, fails. -/
theorem searchFrom_above_error {buf : Buffer} {levels depth place c : Nat} {box : Box} {v : Visit}
    {e : Error} (hread : readVisit buf place = .ok v)
    (hside : ¬ target.coord (Axis.ofDepth depth) < v.pivot.coord (Axis.ofDepth depth))
    (hchild : v.right = some c)
    (hfails : (searchFrom buf metric target tooDeep levels (depth + 1) c
      (box.above (Axis.ofDepth depth) (v.pivot.coord (Axis.ofDepth depth)))
      (Selection.offer s ⟨metric.distance v.pivot target, v.item⟩)).outcome = .error e) :
    (searchFrom buf metric target tooDeep (levels + 1) depth place box s).outcome = .error e := by
  rw [searchFrom_succ, hread]
  dsimp only
  rw [halves, if_neg hside, searchNear, hchild]
  dsimp only
  rw [hfails]
  exact hfails

theorem searchNear_none {buf : Buffer} {levels depth : Nat} {box : Box} :
    searchNear buf metric target tooDeep levels depth ⟨none, box⟩ s = ⟨s, .ok ()⟩ := rfl

/-- A search that is aborted at the box of a half is aborted. -/
theorem searchFar_error {buf : Buffer} {levels depth c : Nat} {box : Box} {e : Error}
    (h : admitsBox metric target box s = .error e) :
    (searchFar buf metric target tooDeep levels depth ⟨some c, box⟩ s).outcome = .error e := by
  rw [searchFar, h]

/-- The box of the lower half of the last node: above the other planes, and below the last one. -/
def chainBox : Box :=
  (((Box.unbounded.above .x .zero).above .y .zero).above .z .zero).below .x minusOne

theorem admitsBox_chainBox :
    admitsBox metric target chainBox s = .error (.aborted .contradictoryBox) := by
  have hclamp : chainBox.clampCoord .x target = .error (.aborted .contradictoryBox) :=
    if_neg (by decide)
  rw [admitsBox, Box.closest, hclamp]
  rfl

/-- From a target above all planes, a search of the chain goes down to the last node, whose lower
half has no room. -/
theorem search_chain (hzero : ∀ axis, ¬ target.coord axis < .zero)
    (hbeside : ¬ target.coord .x < minusOne) :
    (searchFrom (.ofList (chainForm.bytes Place)) metric target tooDeep 6 0 314 .unbounded
      s).outcome = .error (.aborted .contradictoryBox) := by
  have hmiddle (axis : Axis) : ¬ target.coord axis < (onAxis .zero).coord axis := by
    cases axis with
    | x => exact hzero .x
    | y => exact hzero .y
    | z => exact hzero .z
  have h0 : readVisit (.ofList (chainForm.bytes Place)) 314 =
      .ok ⟨42, none, some 326, onAxis .zero⟩ := readVisit_chain (i := 0) rfl rfl (by decide)
  have h1 : readVisit (.ofList (chainForm.bytes Place)) 326 =
      .ok ⟨106, none, some 338, onAxis .zero⟩ := readVisit_chain (i := 1) rfl rfl (by decide)
  have h2 : readVisit (.ofList (chainForm.bytes Place)) 338 =
      .ok ⟨170, none, some 350, onAxis .zero⟩ := readVisit_chain (i := 2) rfl rfl (by decide)
  have h3 : readVisit (.ofList (chainForm.bytes Place)) 350 =
      .ok ⟨234, some 314, none, onAxis minusOne⟩ := readVisit_chain (i := 3) rfl rfl (by decide)
  apply searchFrom_above_error h0 (hmiddle _) rfl
  apply searchFrom_above_error h1 (hmiddle _) rfl
  apply searchFrom_above_error h2 (hmiddle _) rfl
  have hhalves (box : Box) : halves ⟨234, some 314, none, onAxis minusOne⟩ (Axis.ofDepth 3) target
      box = (⟨none, box.above .x minusOne⟩, ⟨some 314, box.below .x minusOne⟩) := if_neg hbeside
  rw [searchFrom_of_halves h3 (hhalves _) searchNear_none]
  exact searchFar_error admitsBox_chainBox

end

/-- The database of the chain. -/
def chainDatabase : Database Place := chainForm.database Place lenientSettings

theorem tree_chainDatabase :
    chainDatabase.tree = ⟨.ofList (chainForm.bytes Place), some 314, 4⟩ := by
  rw [Database.tree, Database.size, chainDatabase, FileForm.database, layout_chainForm]
  rfl

/-- A search of the database from the middle of the map is aborted, whatever it selects. -/
theorem Database.search_chainDatabase {σ : Type} [Selection σ] {s : σ} :
    letI : Trig := nearestTrig
    chainDatabase.search ⟨.zero, .zero, .zero⟩ s = .error (.aborted .contradictoryBox) := by
  let _ : Trig := nearestTrig
  have htarget : Position.toEcef ⟨.zero, .zero, .zero⟩ = onAxis Ellipsoid.semiMajorAxis :=
    toEcef_nearestTrig_zero
  have hpos : Position.isFinite ⟨.zero, .zero, .zero⟩ = true := by decide
  have hlevels : maxLevels 4 = 6 := by decide
  have hsearch : (chainDatabase.tree.search chainDatabase.metric (onAxis Ellipsoid.semiMajorAxis)
      s).outcome = .error (.aborted .contradictoryBox) := by
    rw [tree_chainDatabase, StoredTree.search]
    dsimp only
    rw [hlevels, semiMajorAxis_eq]
    apply search_chain
    · intro axis
      cases axis <;> decide
    · decide
  rw [search, hpos, unlessInput, if_pos rfl, ok_bind, htarget]
  dsimp only
  rw [hsearch, error_bind]

theorem queries_of_ofBuffer_chain :
    letI : Trig := nearestTrig
    Database.ofBuffer Place lenientSettings (.ofList (chainForm.bytes Place)) = .ok chainDatabase ∧
      chainDatabase.nearest? ⟨.zero, .zero, .zero⟩ = .error (.aborted .contradictoryBox) ∧
      chainDatabase.kNearest ⟨.zero, .zero, .zero⟩ 1 = .error (.aborted .contradictoryBox) ∧
      chainDatabase.within ⟨.zero, .zero, .zero⟩ .zero = .error (.aborted .contradictoryBox) ∧
      ∃ depth node box, chainDatabase.tree.Reached depth node box ∧
        ∃ axis, box.high.coord axis < box.low.coord axis := by
  let _ : Trig := nearestTrig
  have hopen : Database.ofBuffer Place lenientSettings _ = .ok chainDatabase :=
    isFile_chainForm.ofBuffer_eq (by decide)
  have hnearest : chainDatabase.nearest? ⟨.zero, .zero, .zero⟩ =
      .error (.aborted .contradictoryBox) := by
    rw [Database.nearest?, Database.search_chainDatabase]
    rfl
  refine ⟨hopen, hnearest, ?_, ?_, ?_⟩
  · rw [Database.kNearest, Database.search_chainDatabase]
    rfl
  · rw [Database.within, Database.search_chainDatabase]
    rfl
  · have hpos : Position.isFinite ⟨.zero, .zero, .zero⟩ = true := by decide
    have hradius : Binary64.zero.isNaN = false := by decide
    obtain ⟨⟨hfault, -⟩, -⟩ := Database.queries_of_ofBuffer hopen hpos 1 hradius
    rcases hfault _ hnearest with ⟨cause, hcause⟩ | ⟨-, hbox⟩
    · cases hcause
    · exact hbox

end Gazetteer
