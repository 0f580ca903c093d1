import Gazetteer.Proofs.PruneBound
import Gazetteer.Proofs.RoundTrip
import Gazetteer.Proofs.Traversal

/-!
# Questions by place are answered as by a full scan

A full scan measures the distance of every item from the target and sorts: nearest first, and of
items at one distance the one that was added first. The nearest item is the first of the ranking, the
`k` nearest items are the first `k`, and the items within a radius are those of the ranking that are
no farther away.
-/

namespace Gazetteer

variable {α : Type}

/-! ## The order of neighbours -/

/-- The order by distance. -/
def Neighbor.notFarther (a b : Neighbor α) : Bool := (a.distance.totalCompare b.distance).isLE

/-- The hit that stands for an item of a ranking. -/
def Layout.hit (l : Layout) (n : Neighbor α × Nat) : Hit := ⟨n.1.distance, l.itemAt n.2⟩

/-- The records of items stand in the order of the items. -/
theorem Layout.itemAt_le_iff {l : Layout} (h : 0 < l.itemSize) {i j : Nat} :
    l.itemAt i ≤ l.itemAt j ↔ i ≤ j := by
  rw [itemAt, itemAt, Nat.add_le_add_iff_left, Nat.mul_le_mul_right_iff h]

/-- Hits are ordered as the items they stand for. -/
theorem Layout.zipIdxLE_eq {l : Layout} (h : 0 < l.itemSize) (a b : Neighbor α × Nat) :
    List.zipIdxLE Neighbor.notFarther a b = Hit.notAfter (l.hit a) (l.hit b) := by
  rw [Bool.eq_iff_iff, Hit.notAfter_iff]
  simp only [List.zipIdxLE, Neighbor.notFarther, Binary64.isLE_totalCompare, Layout.hit,
    Layout.itemAt_le_iff h]
  split
  · split
    · simp
      omega
    · simp
      omega
  · simp
    omega

/-- The records of neighbours are read back as the neighbours. -/
theorem Database.Holds.resolve_map_hit [Schema α] {db : Database α} {items : List α}
    {ns : List (Neighbor α × Nat)} (h : db.Holds items)
    (hns : ∀ n ∈ ns, items[n.2]? = some n.1.item) :
    db.resolve (ns.map db.layout.hit) = .ok (ns.map Prod.fst) := by
  rw [Database.resolve, List.mapM_map]
  refine mapM_eq_ok_map fun n hn => ?_
  simp only [Function.comp_apply, Layout.hit, h.read_at n.2 n.1.item (hns n hn), ok_bind]
  rfl

/-! ## The full scan -/

section
variable [Schema α] [Trig] {metric : Metric} {target : Ecef} {items : List α}

/-- All items with their distances from a target, in the order of the items. -/
def neighbors (metric : Metric) (target : Ecef) (items : List α) : List (Neighbor α) :=
  items.map fun x => ⟨x, metric.distance (Schema.base x).ecef target⟩

/-- All items with their distances from a target, nearest first. Items at one distance keep their
order. -/
def ranking (metric : Metric) (target : Ecef) (items : List α) : List (Neighbor α) :=
  (neighbors metric target items).mergeSort Neighbor.notFarther

/-- The ranking with the index of every item. -/
def indexedRanking (metric : Metric) (target : Ecef) (items : List α) : List (Neighbor α × Nat) :=
  (neighbors metric target items).zipIdx.mergeSort (List.zipIdxLE Neighbor.notFarther)

theorem map_fst_indexedRanking (metric : Metric) (target : Ecef) (items : List α) :
    (indexedRanking metric target items).map Prod.fst = ranking metric target items :=
  List.mergeSort_zipIdx

/-- A place in the ranking is taken by an item with its index and its distance. -/
theorem mem_indexedRanking {n : Neighbor α × Nat} (h : n ∈ indexedRanking metric target items) :
    items[n.2]? = some n.1.item := by
  have hmem := (List.mergeSort_perm _ _).mem_iff.1 h
  have hget := List.mem_zipIdx_iff_getElem?.1 hmem
  rw [neighbors, List.getElem?_map, Option.map_eq_some_iff] at hget
  obtain ⟨x, hx, hn⟩ := hget
  rw [hx, ← hn]

end

/-! ## The hits of a search -/

section
variable [Schema α] [Trig] {metric : Metric} {target : Ecef} {items : List α} {db : Database α}

/-- The sorted hits of a scan are those of the ranking. -/
theorem Layout.sortHits_map_hit {l : Layout} (h : 0 < l.itemSize) (metric : Metric) (target : Ecef)
    (items : List α) :
    sortHits ((neighbors metric target items).zipIdx.map l.hit) =
      (indexedRanking metric target items).map l.hit :=
  (List.map_mergeSort fun a _ b _ => l.zipIdxLE_eq h a b).symm

namespace Database.Holds

/-- The offers of the tree of a database are the hits of its items, in another order. -/
theorem perm_offers (db : Database α) :
    ((treeOf items).offers metric target db.layout.itemAt (pointAt items) 0).Perm
      ((neighbors metric target items).zipIdx.map db.layout.hit) := by
  have hitems : (treeOf items).items.Perm (List.range items.length) := by
    have := Tree.items_ofPoints (items.map fun x => (Schema.base x).ecef)
    rwa [List.length_map] at this
  refine (((Tree.perm_nearFirst _ target 0 _).trans hitems).map _).trans (.of_eq ?_)
  refine List.ext_getElem (by simp [neighbors]) fun i h₁ h₂ => ?_
  have hi : i < items.length := by simpa using h₁
  simp [neighbors, Layout.hit, pointAt_of_getElem? (List.getElem?_eq_getElem hi)]

/-- **A search of a database offers all its items**, as far as the selection can tell. -/
theorem search_eq {σ : Type} [Selection σ] [LawfulSelection σ] {s : σ} (h : db.Holds items)
    (hne : items ≠ []) (hfin : ∀ x ∈ items, (Schema.base x).ecef.isFinite = true)
    (hm : db.metric.Sound) (ht : target.isFinite = true) (hs : LawfulSelection.Sound s) :
    db.tree.search db.metric target s =
      ⟨offerAll s ((treeOf items).offers db.metric target db.layout.itemAt (pointAt items) 0),
        .ok ()⟩ := by
  have hst := h.storedAt hfin
  have hcount : db.tree.count = items.length := h.count_eq
  have hlevels : (treeOf items).height ≤ maxLevels db.tree.count := by
    rw [height_treeOf, hcount, maxLevels]
    omega
  have hbox : (treeOf items).InBox (pointAt items) .unbounded := by
    intro i hi
    have hlt := mem_items_treeOf.1 hi
    rw [pointAt_of_getElem? (List.getElem?_eq_getElem hlt)]
    have hp := hfin _ (List.getElem_mem hlt)
    exact ⟨hp, Box.contains_unbounded hp⟩
  rw [StoredTree.search]
  cases hroot : db.tree.root with
  | none =>
    rw [hroot] at hst
    have hpos := List.length_pos_iff.2 hne
    have hempty := mem_items_treeOf.2 hpos
    rw [hst.eq_empty] at hempty
    cases hempty
  | some root =>
    rw [hroot] at hst
    exact (ordered_treeOf items).searched hm ht hlevels root .unbounded s hst hbox hs

end Database.Holds
end

/-! ## The three questions -/

section
variable [Schema α] [Trig] {items : List α} {db : Database α} {pos : Position}

/-- What a database is searched with: items with finite positions, a sound metric, and a position
that stands for a finite point. -/
structure Database.Searchable (db : Database α) (items : List α) (pos : Position) : Prop where
  nonempty : items ≠ []
  finite : ∀ x ∈ items, (Schema.base x).ecef.isFinite = true
  sound : db.metric.Sound
  pos_finite : pos.isFinite = true
  ecef_finite : pos.toEcef.isFinite = true

namespace Database.Holds

theorem search_pos_eq {σ : Type} [Selection σ] [LawfulSelection σ] {s : σ} (h : db.Holds items)
    (hq : db.Searchable items pos) (hs : LawfulSelection.Sound s) :
    db.search pos s = .ok (offerAll s ((treeOf items).offers db.metric pos.toEcef db.layout.itemAt
      (pointAt items) 0)) := by
  rw [search, hq.pos_finite,
    h.search_eq hq.nonempty hq.finite hq.sound hq.ecef_finite hs]
  rfl

/-- The hits of a search, sorted, are those of the ranking. -/
theorem sortHits_offers (h : db.Holds items) (target : Ecef) :
    sortHits ((treeOf items).offers db.metric target db.layout.itemAt (pointAt items) 0) =
      (indexedRanking db.metric target items).map db.layout.hit := by
  rw [sortHits_congr (perm_offers db), Layout.sortHits_map_hit h.itemSize_pos]

theorem nearest?_eq (h : db.Holds items) (hq : db.Searchable items pos) :
    db.nearest? pos = .ok (ranking db.metric pos.toEcef items).head? := by
  have hs : LawfulSelection.Sound Nearest.empty := fun b hb => by cases hb
  rw [nearest?, h.search_pos_eq hq hs, ok_bind, Nearest.offerAll_empty, h.sortHits_offers,
    ← map_fst_indexedRanking, Nearest.hits, List.head?_map, List.head?_map]
  cases hl : (indexedRanking db.metric pos.toEcef items).head? with
  | none => rfl
  | some n =>
    have hn : ∀ m ∈ [n], items[m.2]? = some m.1.item := fun m hm => by
      rw [List.mem_singleton.1 hm]
      exact mem_indexedRanking (List.mem_of_mem_head? hl)
    have hresolve := h.resolve_map_hit hn
    rw [List.map_singleton] at hresolve
    rw [Option.map_some, Option.toList_some, hresolve]
    rfl

theorem kNearest_eq (h : db.Holds items) (hq : db.Searchable items pos) (k : Nat) :
    db.kNearest pos k = .ok ((ranking db.metric pos.toEcef items).take k) := by
  have hs : LawfulSelection.Sound (KNearest.empty k) :=
    ⟨Nat.zero_le _, List.Pairwise.nil, fun b hb => by cases hb⟩
  rw [kNearest, h.search_pos_eq hq hs, ok_bind, KNearest.offerAll_empty]
  dsimp only
  rw [h.sortHits_offers, ← List.map_take, ← map_fst_indexedRanking, ← List.map_take]
  exact h.resolve_map_hit fun n hn => mem_indexedRanking (List.mem_of_mem_take hn)

theorem within_eq (h : db.Holds items) (hq : db.Searchable items pos) {r : Binary64}
    (hr : r.isNaN = false) :
    db.within pos r =
      .ok ((ranking db.metric pos.toEcef items).filter fun n => decide (n.distance ≤ r)) := by
  have hs : LawfulSelection.Sound (Within.empty r) := trivial
  have hinput : unlessInput (!r.isNaN) .distanceNaN = .ok () := by
    rw [hr]
    rfl
  rw [within, hinput, ok_bind, h.search_pos_eq hq hs, ok_bind, Within.hits_offerAll_empty,
    h.sortHits_offers, List.filter_map, ← map_fst_indexedRanking, List.filter_map]
  exact h.resolve_map_hit fun n hn => mem_indexedRanking (List.mem_of_mem_filter hn)

end Database.Holds

/-- **Questions by place are answered as by a full scan.** For every database that was opened from
packed items, with a sound metric, and every position that stands for a finite point, no question
fails: the answers are the first, the first `k`, and those within the radius, of the ranking of all
items. -/
theorem queries_ofBuffer_pack [LawfulSchema α] {settings reading : Settings} {d : Draft α}
    {date : Int64} {image : Image} (hd : Draft.ofItems settings items = .ok d)
    (hp : d.pack date = .ok image)
    (ho : Database.ofBuffer α reading (.ofList image.bytes) = .ok db)
    (hm : Metric.Sound ⟨reading.longRangeThreshold⟩) (hpos : pos.isFinite = true)
    (ht : pos.toEcef.isFinite = true) :
    db.nearest? pos =
        .ok (ranking ⟨reading.longRangeThreshold⟩ pos.toEcef items).head? ∧
      (∀ k, db.kNearest pos k =
        .ok ((ranking ⟨reading.longRangeThreshold⟩ pos.toEcef items).take k)) ∧
      ∀ r, r.isNaN = false → db.within pos r =
        .ok ((ranking ⟨reading.longRangeThreshold⟩ pos.toEcef items).filter
          fun n => decide (n.distance ≤ r)) := by
  obtain ⟨h, -, hmetric⟩ := holds_of_ofBuffer hd hp ho
  obtain ⟨sections, hpacked⟩ := Draft.pack_eq_ok_iff.1 hp
  have hlist := Draft.toList_of_ofItems hd
  have hq : db.Searchable items pos := {
    nonempty := hlist ▸ hpacked.nonempty
    finite := hlist ▸ (Draft.inOrder_of_ofItems hd).finite
    sound := hmetric ▸ hm
    pos_finite := hpos
    ecef_finite := ht }
  rw [← hmetric]
  exact ⟨h.nearest?_eq hq, h.kNearest_eq hq, fun r hr => h.within_eq hq hr⟩

end

/-! ## Five items around a position -/

namespace Crowd

/-- Where the first meridian meets the equator. -/
def middle : Position := ⟨.zero, .zero, .zero⟩

/-- The distances of the five: four chords and the arc to the other side of the earth. -/
theorem distance_toEcef_middle :
    letI : Trig := nearestTrig
    let metric : Metric := ⟨lenientSettings.longRangeThreshold⟩
    metric.distance altarage.ecef middle.toEcef = longestArc ∧
      metric.distance liquid.ecef middle.toEcef = 5000 ∧
      metric.distance costarring.ecef middle.toEcef = 5000 ∧
      metric.distance mislaid.ecef middle.toEcef = 80000 ∧
      metric.distance natal.ecef middle.toEcef = 6000 := by
  let _ : Trig := nearestTrig
  intro metric
  have htarget : middle.toEcef = ⟨⟨0x415854a640000000⟩, .zero, .zero⟩ := by
    rw [← semiMajorAxis_eq]
    exact toEcef_nearestTrig_zero
  have hchord {p : Ecef} {c : Binary64} (hc : p.distance ⟨⟨0x415854a640000000⟩, .zero, .zero⟩ = c)
      (hle : c ≤ lenientSettings.longRangeThreshold) :
      metric.distance p middle.toEcef = c := by
    rw [htarget, Metric.distance, hc, correctedDistance_eq, if_pos hle]
  have hchords : liquid.ecef.distance ⟨⟨0x415854a640000000⟩, .zero, .zero⟩ = 5000 ∧
      costarring.ecef.distance ⟨⟨0x415854a640000000⟩, .zero, .zero⟩ = 5000 ∧
      mislaid.ecef.distance ⟨⟨0x415854a640000000⟩, .zero, .zero⟩ = 80000 ∧
      natal.ecef.distance ⟨⟨0x415854a640000000⟩, .zero, .zero⟩ = 6000 := by decide +kernel
  have hshort : (5000 : Binary64) ≤ lenientSettings.longRangeThreshold ∧
      (80000 : Binary64) ≤ lenientSettings.longRangeThreshold ∧
      (6000 : Binary64) ≤ lenientSettings.longRangeThreshold := by decide +kernel
  obtain ⟨hliquid, hcostarring, hmislaid, hnatal⟩ := hchords
  obtain ⟨h5, h80, h6⟩ := hshort
  refine ⟨?_, hchord hliquid h5, hchord hcostarring h5, hchord hmislaid h80, hchord hnatal h6⟩
  -- The other side of the earth is farther than the diameter of the metric, which is capped there.
  have hacross : altarage.ecef.distance ⟨⟨0x415854a640000000⟩, .zero, .zero⟩ =
      ⟨0x416854a640000000⟩ := by decide +kernel
  have hdiameter : (1 : Binary64).magnitude ≤
      ((⟨0x416854a640000000⟩ : Binary64) / earthDiameter).magnitude := by
    rw [earthDiameter_eq]
    decide +kernel
  rw [htarget, Metric.distance, hacross, correctedDistance_eq, if_neg (by decide)]
  exact arc_eq_longestArc lawfulArcsine_nearestTrig ⟨by decide, by decide⟩ hdiameter

/-- The five, nearest first. -/
def ranked {α : Type} (make : ItemBase → α) : List (Neighbor α) :=
  [⟨make liquid, 5000⟩, ⟨make costarring, 5000⟩, ⟨make natal, 6000⟩, ⟨make mislaid, 80000⟩,
    ⟨make altarage, longestArc⟩]

theorem ranking_eq {α : Type} [Schema α] {make : ItemBase → α}
    (hmake : ∀ b, Schema.base (make b) = b) :
    letI : Trig := nearestTrig
    ranking ⟨lenientSettings.longRangeThreshold⟩ middle.toEcef (bases.map make) = ranked make := by
  let _ : Trig := nearestTrig
  have h5 : (5000 : Binary64) = ⟨0x40b3880000000000⟩ := by decide +kernel
  have h6 : (6000 : Binary64) = ⟨0x40b7700000000000⟩ := by decide +kernel
  have h80 : (80000 : Binary64) = ⟨0x40f3880000000000⟩ := by decide +kernel
  obtain ⟨haltarage, hliquid, hcostarring, hmislaid, hnatal⟩ := distance_toEcef_middle
  have hneighbors : neighbors ⟨lenientSettings.longRangeThreshold⟩ middle.toEcef
      (bases.map make) = [⟨make altarage, longestArc⟩, ⟨make liquid, 5000⟩,
        ⟨make costarring, 5000⟩, ⟨make mislaid, 80000⟩, ⟨make natal, 6000⟩] := by
    simp only [neighbors, bases, List.map_cons, List.map_nil, hmake, haltarage, hliquid,
      hcostarring, hmislaid, hnatal]
  rw [ranking, hneighbors, ranked, h5, h6, h80, longestArc_eq]
  simp +decide [List.mergeSort, List.MergeSort.Internal.splitInTwo, List.merge,
    Neighbor.notFarther]

/-- Of the five at their distances, three are within six kilometres. -/
theorem filter_ranked {α : Type} (make : ItemBase → α) :
    (ranked make).filter (fun n => decide (n.distance ≤ 6000)) =
      [⟨make liquid, 5000⟩, ⟨make costarring, 5000⟩, ⟨make natal, 6000⟩] := by
  have hreach : decide ((5000 : Binary64) ≤ 6000) = true ∧
      decide ((6000 : Binary64) ≤ 6000) = true ∧ decide ((80000 : Binary64) ≤ 6000) = false ∧
      decide (longestArc ≤ 6000) = false := by
    rw [longestArc_eq]
    decide +kernel
  obtain ⟨h5, h6, h80, harc⟩ := hreach
  simp only [ranked, List.filter_cons, h5, h6, h80, harc]
  rfl

end Crowd

section
open Crowd

theorem queries_ofBuffer_pack_crowd :
    letI : Trig := nearestTrig
    Metric.Sound ⟨lenientSettings.longRangeThreshold⟩ ∧
    (∃ d image db, Draft.ofItems lenientSettings (bases.map place) = .ok d ∧
      d.pack 7 = .ok image ∧
      Database.ofBuffer Place lenientSettings (.ofList image.bytes) = .ok db ∧
      db.nearest? middle = .ok (some ⟨place liquid, 5000⟩) ∧
      db.kNearest middle 1 = .ok [⟨place liquid, 5000⟩] ∧
      db.kNearest middle 4 = .ok [⟨place liquid, 5000⟩, ⟨place costarring, 5000⟩,
        ⟨place natal, 6000⟩, ⟨place mislaid, 80000⟩] ∧
      db.within middle 6000 = .ok [⟨place liquid, 5000⟩, ⟨place costarring, 5000⟩,
        ⟨place natal, 6000⟩]) ∧
    ∃ d image db, Draft.ofItems lenientSettings (bases.map airport) = .ok d ∧
      d.pack 7 = .ok image ∧
      Database.ofBuffer Airport lenientSettings (.ofList image.bytes) = .ok db ∧
      db.nearest? middle = .ok (some ⟨airport liquid, 5000⟩) ∧
      db.kNearest middle 1 = .ok [⟨airport liquid, 5000⟩] ∧
      db.kNearest middle 4 = .ok [⟨airport liquid, 5000⟩, ⟨airport costarring, 5000⟩,
        ⟨airport natal, 6000⟩, ⟨airport mislaid, 80000⟩] ∧
      db.within middle 6000 = .ok [⟨airport liquid, 5000⟩, ⟨airport costarring, 5000⟩,
        ⟨airport natal, 6000⟩] := by
  let _ : Trig := nearestTrig
  have hcheck : lenientSettings.check = .ok () := by decide
  have hm : Metric.Sound ⟨lenientSettings.longRangeThreshold⟩ := by
    refine Metric.sound lawfulArcsine_nearestTrig ?_
    rw [longestArc_eq]
    decide
  have hfinite : middle.toEcef.isFinite = true := by
    rw [middle, toEcef_nearestTrig_zero, semiMajorAxis_eq]
    decide
  have hone {β : Type} [Schema β] [LawfulSchema β] {make : ItemBase → β} {d : Draft β}
      {image : Image} {db : Database β} (hmake : ∀ b, Schema.base (make b) = b)
      (hd : Draft.ofItems lenientSettings (bases.map make) = .ok d) (hp : d.pack 7 = .ok image)
      (ho : Database.ofBuffer β lenientSettings (.ofList image.bytes) = .ok db) :
      db.nearest? middle = .ok (some ⟨make liquid, 5000⟩) ∧
      db.kNearest middle 1 = .ok [⟨make liquid, 5000⟩] ∧
      db.kNearest middle 4 = .ok [⟨make liquid, 5000⟩, ⟨make costarring, 5000⟩,
        ⟨make natal, 6000⟩, ⟨make mislaid, 80000⟩] ∧
      db.within middle 6000 = .ok [⟨make liquid, 5000⟩, ⟨make costarring, 5000⟩,
        ⟨make natal, 6000⟩] := by
    obtain ⟨hnearest, hk, hwithin⟩ :=
      queries_ofBuffer_pack hd hp ho hm (show middle.isFinite = true by decide) hfinite
    have hradius := hwithin 6000 (by decide +kernel)
    rw [ranking_eq hmake] at hnearest hk hradius
    rw [filter_ranked] at hradius
    exact ⟨hnearest, hk 1, hk 4, hradius⟩
  obtain ⟨dp, ip, hdp, hpp⟩ := exists_pack_place
  obtain ⟨da, ia, hda, hpa⟩ := exists_pack_airport
  obtain ⟨dbp, hop⟩ := exists_ofBuffer hdp hpp hcheck
  obtain ⟨dba, hoa⟩ := exists_ofBuffer hda hpa hcheck
  exact ⟨hm, ⟨dp, ip, dbp, hdp, hpp, hop, hone (fun _ => rfl) hdp hpp hop⟩,
    ⟨da, ia, dba, hda, hpa, hoa, hone (fun _ => rfl) hda hpa hoa⟩⟩

end
end Gazetteer
