import Gazetteer.Proofs.AnyFile
import Gazetteer.Proofs.NameLookup
import Gazetteer.Proofs.Walking

/-!
# Files of the same items

Two files may hold the same items and differ elsewhere. If their sections lie at the same places,
the nodes of the tree are read alike from both, so a search goes the same way in both of them and
comes to the same records. Then every question has one answer in both files.
-/

namespace Gazetteer

/-! ## Nodes in common -/

/-- Nodes that two buffers have in common: they are read alike from both, their items are among the
records, and their children are among the nodes again. -/
structure NodesAgree (buf buf' : Buffer) (nodes records : Set Nat) : Prop where
  visit : ∀ node ∈ nodes, ∃ v, readVisit buf node = .ok v ∧ readVisit buf' node = .ok v
  item : ∀ node ∈ nodes, ∀ v, readVisit buf node = .ok v → v.item ∈ records
  child : ∀ node ∈ nodes, ∀ v, readVisit buf node = .ok v →
    ∀ c, v.left = some c ∨ v.right = some c → c ∈ nodes

section
variable {buf buf' : Buffer} {nodes records : Set Nat} {node : Nat} {v : Visit} {target : Ecef}
  {box : Box}

variable [Trig] {σ : Type} [Selection σ] {metric : Metric} {tooDeep : Error} {levels depth : Nat}
  {s : σ}

/-- **A search goes the same way** through nodes that are read alike. -/
theorem NodesAgree.searchFrom_eq (h : NodesAgree buf buf' nodes records) (hn : node ∈ nodes) :
    searchFrom buf' metric target tooDeep levels depth node box s =
      searchFrom buf metric target tooDeep levels depth node box s := by
  induction levels generalizing depth node box s with
  | zero => rfl
  | succ levels ih =>
    obtain ⟨v, hv, hv'⟩ := h.visit node hn
    obtain ⟨hnear, hfar⟩ := ChildClosed.halves_child h.child hn hv (Axis.ofDepth depth) target box
    rw [searchFrom_succ, searchFrom_succ, hv, hv']
    dsimp only
    rw [searchNear_congr fun c hc box s => ih (hnear c hc)]
    split
    · rfl
    · exact searchFar_congr fun c hc box s => ih (hfar c hc)

/-- What the offers of the records keep. -/
def OffersKeep (records : Set Nat) (Q : σ → Prop) : Prop :=
  ∀ s d item, item ∈ records → Q s → Q (Selection.offer s ⟨d, item⟩)

variable {Q : σ → Prop}

/-- A search of common nodes keeps what offers of the records keep. -/
theorem NodesAgree.visitsKeep (h : NodesAgree buf buf' nodes records) (hQ : OffersKeep records Q) :
    VisitsKeep buf metric target nodes Q :=
  fun node hn v hv s hs => hQ s _ v.item (h.item node hn v hv) hs

end

/-! ## The levels of a tree -/

/-- **A walk goes the same way** through nodes that are read alike. -/
theorem NodesAgree.walk_eq {buf buf' : Buffer} {nodes records : Set Nat}
    (h : NodesAgree buf buf' nodes records) {budget deepest : Nat} {pending : List (Nat × Nat)}
    (hp : ∀ p ∈ pending, p.1 ∈ nodes) :
    StoredTree.walk buf' budget pending deepest = StoredTree.walk buf budget pending deepest := by
  induction budget generalizing pending deepest with
  | zero => cases pending <;> rfl
  | succ budget ih =>
    cases pending with
    | nil => rfl
    | cons p pending =>
      obtain ⟨node, level⟩ := p
      have hn : node ∈ nodes := hp (node, level) (by simp)
      obtain ⟨v, hv, hv'⟩ := h.visit node hn
      obtain ⟨-, hl, hr, -⟩ := readVisit_eq_ok.1 hv
      obtain ⟨-, hl', hr', -⟩ := readVisit_eq_ok.1 hv'
      simp only [StoredTree.walk, hl, hr, hl', hr', ok_bind]
      apply ih
      intro q hq
      rcases StoredTree.mem_pushChildren hq with ⟨c, hc, rfl⟩ | hq
      · exact h.child node hn v hv c hc
      · exact hp q (by simp [hq])

/-! ## Hits -/

/-- What the hits of a selection have in common is kept by offers that have it. -/
theorem KeepsOffers.offersKeep {σ : Type} [Selection σ] {hits : σ → List Hit}
    (h : KeepsOffers hits) (records : Set Nat) :
    OffersKeep records fun s => ∀ hit ∈ hits s, hit.offset ∈ records := by
  intro s d item hitem hs hit hmem
  rcases h s _ hit hmem with rfl | hmem
  · exact hitem
  · exact hs hit hmem

/-! ## Databases -/

namespace Database

section
variable {α : Type} (db : Database α)

/-- The places of the nodes of a database. -/
def nodePlaces : Set Nat := {place | ∃ i < db.size, place = db.layout.nodesAt + i * nodeSize}

/-- The places of the records of a database. -/
def recordPlaces : Set Nat := {place | ∃ i < db.size, place = db.layout.itemAt i}

/-- The root of a database is one of its nodes. -/
theorem root_mem_nodePlaces {r : Nat} (hr : db.tree.root = some r) : r ∈ db.nodePlaces := by
  rw [tree] at hr
  dsimp only at hr
  split at hr
  · cases hr
  · cases hr
    exact ⟨0, by omega, by simp⟩

end

variable {α : Type} [Schema α] {db db' : Database α} {items : List α}

/-- One database answers every question as another one does. -/
structure AnswersAs (db' db : Database α) : Prop where
  size : db'.size = db.size
  items : db'.items = db.items
  get? : ∀ key, db'.get? key = db.get? key
  nearest? : ∀ (_ : Trig) pos, db'.nearest? pos = db.nearest? pos
  kNearest : ∀ (_ : Trig) pos k, db'.kNearest pos k = db.kNearest pos k
  within : ∀ (_ : Trig) pos r, db'.within pos r = db.within pos r
  depth : db'.tree.depth = db.tree.depth

/-- One database lies as another one does, and its nodes and records are read alike. -/
structure ReadsAs (db' db : Database α) : Prop where
  layout_eq : db'.layout = db.layout
  metric_eq : db'.metric = db.metric
  nodes : NodesAgree db.buf db'.buf db.nodePlaces db.recordPlaces
  read_eq : ∀ place ∈ db.recordPlaces, db'.read place = db.read place

namespace ReadsAs

variable (h : db'.ReadsAs db)
include h

theorem tree_eq : db'.tree = { db.tree with buf := db'.buf } := by
  simp only [tree, size, h.layout_eq]
  rfl

theorem depth_eq : db'.tree.depth = db.tree.depth := by
  rw [h.tree_eq]
  apply h.nodes.walk_eq
  intro p hp
  obtain ⟨r, hr, rfl⟩ := List.mem_map.1 hp
  exact db.root_mem_nodePlaces (Option.mem_toList.1 hr)

/-- The items of records of the file are the same. -/
theorem resolve_eq {hits : List Hit} (hhits : ∀ hit ∈ hits, hit.offset ∈ db.recordPlaces) :
    db'.resolve hits = db.resolve hits := by
  induction hits with
  | nil => rfl
  | cons hit hits ih =>
    have hrest := ih fun other hother => hhits other (by simp [hother])
    have hread := h.read_eq _ (hhits hit (by simp))
    unfold resolve at hrest ⊢
    rw [List.mapM_cons, List.mapM_cons, hrest, hread]

variable [Trig] {σ : Type} [Selection σ] {pos : Position} {s r : σ}

theorem search_eq : db'.search pos s = db.search pos s := by
  have htree : db'.tree.search db.metric pos.toEcef s = db.tree.search db.metric pos.toEcef s := by
    rw [h.tree_eq, StoredTree.search, StoredTree.search]
    dsimp only
    cases hr : db.tree.root with
    | none => rfl
    | some r => exact h.nodes.searchFrom_eq (db.root_mem_nodePlaces hr)
  rw [search, search, h.metric_eq, htree]

/-- A search keeps what offers of the records keep. -/
theorem search_keeps {Q : σ → Prop} (hQ : OffersKeep db.recordPlaces Q) (hs : Q s)
    (hr : db.search pos s = .ok r) : Q r := by
  exact db.search_keeps h.nodes.child (fun r hr => db.root_mem_nodePlaces hr)
    (h.nodes.visitsKeep hQ) hs hr

/-- **A question by place has one answer**, whatever is selected. -/
theorem search_resolve_eq (pos : Position) {hits : σ → List Hit} (hkeep : KeepsOffers hits)
    (hs : hits s = []) :
    (db'.search pos s >>= fun r => db'.resolve (hits r)) =
      (db.search pos s >>= fun r => db.resolve (hits r)) := by
  rw [h.search_eq]
  cases hr : db.search pos s with
  | error e => rfl
  | ok r =>
    apply h.resolve_eq
    exact h.search_keeps (hkeep.offersKeep db.recordPlaces) (by simp [hs]) hr

theorem nearest?_eq : db'.nearest? pos = db.nearest? pos := by
  have hnone : Nearest.empty.hits = [] := rfl
  have hfound := h.search_resolve_eq pos Nearest.keepsOffers hnone
  unfold nearest?
  rw [← bind_assoc, ← bind_assoc, hfound]

theorem kNearest_eq (k : Nat) : db'.kNearest pos k = db.kNearest pos k :=
  h.search_resolve_eq pos KNearest.keepsOffers rfl

theorem within_eq (d : Binary64) : db'.within pos d = db.within pos d := by
  have hnone : (Within.empty d).hits = [] := List.mergeSort_nil
  have hfound := h.search_resolve_eq pos Within.keepsOffers hnone
  unfold within
  rw [hfound]

end ReadsAs

/-! ## Files of the same items -/

namespace Holds

/-- At the place of a node stands a node of the tree. -/
theorem exists_node (h : db.Holds items) {i : Nat} (hi : i < db.size) :
    ∃ n, (treeOf items).nodes[i]? = some n ∧ n.item < db.size ∧
      ∀ j, n.left = some j ∨ n.right = some j → j < db.size := by
  have hsize : db.size = items.length := h.count_eq
  have htree : (treeOf items).size = db.size := by
    rw [treeOf, Tree.size_ofPoints, List.length_map, hsize]
  have hlt : i < (treeOf items).nodes.length := by
    rwa [Tree.nodes, Tree.length_layout, htree]
  obtain ⟨hitem, hleft, hright⟩ := Tree.mem_layout (List.getElem_mem hlt)
  refine ⟨_, List.getElem?_eq_getElem hlt, ?_, ?_⟩
  · rw [hsize]
    exact mem_items_treeOf.1 hitem
  · rw [← htree, ← Nat.zero_add (treeOf items).size]
    rintro j (hj | hj)
    · exact hleft j hj
    · exact hright j hj

variable (h : db.Holds items) (h' : db'.Holds items)
include h h'

/-- **Two files of the same items are read alike**, if they lie alike. -/
theorem readsAs (hl : db'.layout = db.layout) (hm : db'.metric = db.metric)
    (hfin : ∀ x ∈ items, (Schema.base x).ecef.isFinite = true) : db'.ReadsAs db where
  layout_eq := hl
  metric_eq := hm
  read_eq := by
    rintro _ ⟨i, hi, rfl⟩
    have hlt : i < items.length := h.count_eq ▸ hi
    have hx : items[i]? = some items[i] := List.getElem?_eq_getElem hlt
    rw [h.read_at i _ hx, ← hl, h'.read_at i _ hx]
  nodes := by
    constructor
    · rintro _ ⟨i, hi, rfl⟩
      obtain ⟨n, hn, -⟩ := h.exists_node hi
      exact ⟨_, h.readVisit_layout hfin hn, hl ▸ h'.readVisit_layout hfin hn⟩
    · rintro _ ⟨i, hi, rfl⟩ v hv
      obtain ⟨n, hn, hitem, -⟩ := h.exists_node hi
      cases (h.readVisit_layout hfin hn).symm.trans hv
      exact ⟨n.item, hitem, rfl⟩
    · rintro _ ⟨i, hi, rfl⟩ v hv c hc
      obtain ⟨n, hn, -, hchild⟩ := h.exists_node hi
      cases (h.readVisit_layout hfin hn).symm.trans hv
      rcases hc with hc | hc
      · obtain ⟨j, hj, rfl⟩ := Option.map_eq_some_iff.1 hc
        exact ⟨j, hchild j (.inl hj), rfl⟩
      · obtain ⟨j, hj, rfl⟩ := Option.map_eq_some_iff.1 hc
        exact ⟨j, hchild j (.inr hj), rfl⟩

/-- A lookup by name is settled by the items. -/
theorem get?_eq (hnodup : (items.map Schema.itemName).Nodup) (key : String) :
    db'.get? key = db.get? key := by
  by_cases hx : ∃ x ∈ items, Schema.itemName x = key ∧ (Schema.base x).hash = nameHash key
  · obtain ⟨x, hx, hkey, hhash⟩ := hx
    rw [h.get?_found hx hkey hhash hnodup, h'.get?_found hx hkey hhash hnodup]
  · have hno (x : α) (hmem : x ∈ items) (hkey : Schema.itemName x = key) :
        (Schema.base x).hash ≠ nameHash key := fun hhash => hx ⟨x, hmem, hkey, hhash⟩
    rw [h.get?_absent hno, h'.get?_absent hno]

/-- **Files of the same items give the same answers**, if they lie alike. -/
theorem answersAs (hl : db'.layout = db.layout) (hm : db'.metric = db.metric)
    (hnodup : (items.map Schema.itemName).Nodup)
    (hfin : ∀ x ∈ items, (Schema.base x).ecef.isFinite = true) : db'.AnswersAs db := by
  have hreads := h.readsAs h' hl hm hfin
  constructor
  · exact h'.count_eq.trans h.count_eq.symm
  · exact h'.items_eq.trans h.items_eq.symm
  · exact h.get?_eq h' hnodup
  · exact fun _ pos => hreads.nearest?_eq
  · exact fun _ pos k => hreads.kNearest_eq k
  · exact fun _ pos r => hreads.within_eq r
  · exact hreads.depth_eq

end Holds
end Database
end Gazetteer
