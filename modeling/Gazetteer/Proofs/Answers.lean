import Gazetteer.Proofs.AnyTree
import Gazetteer.Proofs.Ranking
import Gazetteer.Proofs.Walking

/-!
# What answers say

An opened file may hold anything, and a search may meet its records in any order, more than once or
not at all. What it answers is true all the same: every item comes with the distance of its own
position, the nearest first. The distance is measured while the tree is searched and the item is
read afterwards, by another decoder; both find the same position at the same place.
-/

namespace Gazetteer

/-! ## Two decoders of a position -/

/-- **Both decoders agree**: the position that a search reads is that of the item. -/
theorem readEcef_of_readItem {α : Type} [Schema α] [ForgivingSchema α] {buf : Buffer}
    {table : StringTable} {offset : Nat} {x : α}
    (h : Schema.readItem α buf table offset = .ok x) :
    readEcef buf offset = .ok (Schema.base x).ecef := by
  obtain ⟨bytes, hbytes, h⟩ := bind_eq_ok.1 h
  obtain ⟨b, hb, h⟩ := bind_eq_ok.1 h
  obtain ⟨name, -, hb⟩ := bind_eq_ok.1 hb
  cases hb
  have hsize : baseSize ≤ Schema.recordSize α := Nat.le_add_right _ _
  have hreal (k : Nat) (hk : k + 8 ≤ 56) : buf.readReal64 (offset + k) = .ok (real64At bytes k) :=
    Buffer.readReal64_of_slice hbytes (Nat.le_trans hk hsize)
  rw [ForgivingSchema.base_ofPayload h]
  simp only [readEcef, ecefOffset, Nat.add_assoc, Nat.reduceAdd, hreal 4 (by decide),
    hreal 12 (by decide), hreal 20 (by decide), ok_bind]
  rfl

/-! ## Hits of any tree -/

section
variable [Trig] {buf : Buffer} {metric : Metric} {target : Ecef} {nodes : Set Nat}

/-- A hit is honest if its distance is that of the position in its record. -/
def Hit.Honest (buf : Buffer) (metric : Metric) (target : Ecef) (h : Hit) : Prop :=
  ∃ p, readEcef buf h.offset = .ok p ∧ h.distance = metric.distance p target

/-- Hits in order: by distance, and by offset where distances are equal. -/
def HitsInOrder (hits : List Hit) : Prop := hits.Pairwise fun a b => Hit.notAfter a b = true

/-- The offer of a node that is read is honest. -/
theorem honest_of_readVisit {node : Nat} {v : Visit} (h : readVisit buf node = .ok v) :
    Hit.Honest buf metric target ⟨metric.distance v.pivot target, v.item⟩ :=
  ⟨v.pivot, (readVisit_eq_ok.1 h).2.2.2.1, rfl⟩

variable {σ : Type} [Selection σ]

/-- A selection with honest hits is offered another one by every node. -/
theorem KeepsOffers.visitsKeep_honest {hits : σ → List Hit} (h : KeepsOffers hits) :
    VisitsKeep buf metric target nodes
      fun s => ∀ hit ∈ hits s, hit.Honest buf metric target := by
  intro node _ v hv s hs hit hmem
  rcases h s _ hit hmem with rfl | hmem
  · exact honest_of_readVisit hv
  · exact hs hit hmem

/-- What every offer keeps, the offers of nodes keep. -/
theorem visitsKeep_of_offer {Q : σ → Prop} (h : ∀ s hit, Q s → Q (Selection.offer s hit)) :
    VisitsKeep buf metric target nodes Q :=
  fun _ _ _ _ s hs => h s _ hs

end

/-! ## What each selection keeps -/

/-- The best hit is at most one. -/
theorem Nearest.hits_inOrder (s : Nearest) : HitsInOrder s.hits := by
  unfold hits HitsInOrder
  cases s.best <;> simp

/-- At most `k` hits are kept, in order. -/
theorem KNearest.offer_keeps {k : Nat} (s : KNearest) (h : Hit)
    (hs : s.k = k ∧ HitsInOrder s.hits ∧ s.hits.length ≤ k) :
    (s.offer h).k = k ∧ HitsInOrder (s.offer h).hits ∧ (s.offer h).hits.length ≤ k := by
  obtain ⟨rfl, hsorted, -⟩ := hs
  refine ⟨rfl, ?_, List.length_take_le _ _⟩
  exact (pairwise_insertHit hsorted).sublist (List.take_sublist _ _)

theorem Within.hits_inOrder (s : Within) : HitsInOrder s.hits := pairwise_sortHits _

/-- No hit is kept from beyond the radius. -/
theorem Within.offer_keeps {r : Binary64} (s : Within) (h : Hit)
    (hs : s.radius = r ∧ ∀ hit ∈ s.hits, hit.distance ≤ r) :
    (s.offer h).radius = r ∧ ∀ hit ∈ (s.offer h).hits, hit.distance ≤ r := by
  obtain ⟨rfl, hs⟩ := hs
  unfold offer
  by_cases hd : h.distance ≤ s.radius
  · rw [if_pos hd]
    refine ⟨rfl, fun hit hmem => ?_⟩
    rcases List.mem_cons.1 (Within.mem_hits.1 hmem) with rfl | hmem
    · exact hd
    · exact hs hit (Within.mem_hits.2 hmem)
  · rw [if_neg hd]
    exact ⟨rfl, hs⟩

/-! ## Answers -/

namespace Database

section
variable {α : Type} [Schema α] {db : Database α} {hits : List Hit} {ns : List (Neighbor α)}

/-- A neighbor is what a hit stands for: the item of its record, at its distance. -/
def StandsFor (db : Database α) (h : Hit) (n : Neighbor α) : Prop :=
  db.read h.offset = .ok n.item ∧ h.distance = n.distance

theorem standsFor_of_eq_ok {h : Hit} {n : Neighbor α}
    (hn : (do return ⟨← db.read h.offset, h.distance⟩) = Except.ok (ε := Error) n) :
    db.StandsFor h n := by
  obtain ⟨x, hx, hn⟩ := bind_eq_ok.1 hn
  cases hn
  exact ⟨hx, rfl⟩

/-- An answer is honest if each item comes with the distance of its own position and the items are
those of records in order of their distances, and of their places where these are equal. -/
structure HonestAnswer [Trig] (db : Database α) (metric : Metric) (target : Ecef)
    (answer : List (Neighbor α)) : Prop where
  distance_eq : ∀ n ∈ answer, n.distance = metric.distance (Schema.base n.item).ecef target
  inOrder : ∃ hits, HitsInOrder hits ∧ List.Forall₂ db.StandsFor hits answer

/-- Honest hits in order make an honest answer. -/
theorem honestAnswer_of_resolve [Trig] [ForgivingSchema α] {metric : Metric} {target : Ecef}
    (hsorted : HitsInOrder hits) (hhonest : ∀ h ∈ hits, h.Honest db.buf metric target)
    (h : db.resolve hits = .ok ns) : db.HonestAnswer metric target ns := by
  refine ⟨fun n hn => ?_, hits, hsorted, ?_⟩
  · obtain ⟨hit, hmem, hone⟩ := mem_of_mapM_eq_ok h hn
    obtain ⟨hread, hdistance⟩ := standsFor_of_eq_ok hone
    obtain ⟨p, hp, hmeasured⟩ := hhonest hit hmem
    -- the position of the search is that of the item
    obtain rfl := Except.ok.inj (hp.symm.trans (readEcef_of_readItem hread))
    rw [← hdistance, hmeasured]
  · exact (mapM_eq_ok.1 h).imp fun _ _ => standsFor_of_eq_ok

end

section
variable [Trig] {α : Type} {db : Database α} {pos : Position} {σ : Type} [Selection σ] {s r : σ}

/-- The hits of a search are honest, whatever the file holds. -/
theorem honest_of_search {hits : σ → List Hit} (hkeep : KeepsOffers hits) (hs : hits s = [])
    (hr : db.search pos s = .ok r) :
    ∀ h ∈ hits r, h.Honest db.buf db.metric pos.toEcef :=
  search_keeps (childClosed_univ _) (fun _ _ => Set.mem_univ _) hkeep.visitsKeep_honest
    (by simp [hs]) hr

/-- A search keeps what every offer keeps. -/
theorem search_keeps_of_offer {Q : σ → Prop} (h : ∀ s hit, Q s → Q (Selection.offer s hit))
    (hs : Q s) (hr : db.search pos s = .ok r) : Q r :=
  search_keeps (childClosed_univ _) (fun _ _ => Set.mem_univ _) (visitsKeep_of_offer h) hs hr

end

variable [Trig] {α : Type} [Schema α] [ForgivingSchema α] {db : Database α} {pos : Position}

theorem honestAnswer_nearest? {n : Option (Neighbor α)} (h : db.nearest? pos = .ok n) :
    db.HonestAnswer db.metric pos.toEcef n.toList := by
  obtain ⟨r, hr, h⟩ := bind_eq_ok.1 h
  obtain ⟨ns, hns, h⟩ := bind_eq_ok.1 h
  cases h
  have hanswer := honestAnswer_of_resolve r.hits_inOrder
    (honest_of_search Nearest.keepsOffers rfl hr) hns
  have hlength : ns.length ≤ 1 := by
    rw [length_of_mapM_eq_ok hns, Nearest.hits]
    cases r.best <;> simp
  have hall : ns.head?.toList = ns := by
    cases ns with
    | nil => rfl
    | cons n rest =>
      have hrest : rest = [] := List.eq_nil_of_length_eq_zero (by simpa using hlength)
      rw [hrest]
      rfl
  rwa [hall]

theorem honestAnswer_kNearest {k : Nat} {ns : List (Neighbor α)} (h : db.kNearest pos k = .ok ns) :
    db.HonestAnswer db.metric pos.toEcef ns ∧ ns.length ≤ k := by
  obtain ⟨r, hr, h⟩ := bind_eq_ok.1 h
  have hempty : (KNearest.empty k).k = k ∧ HitsInOrder (KNearest.empty k).hits ∧
      (KNearest.empty k).hits.length ≤ k := ⟨rfl, List.Pairwise.nil, Nat.zero_le k⟩
  obtain ⟨-, hsorted, hlength⟩ := search_keeps_of_offer KNearest.offer_keeps hempty hr
  refine ⟨honestAnswer_of_resolve hsorted (honest_of_search KNearest.keepsOffers rfl hr) h, ?_⟩
  rwa [length_of_mapM_eq_ok h]

theorem honestAnswer_within {d : Binary64} {ns : List (Neighbor α)}
    (h : db.within pos d = .ok ns) :
    db.HonestAnswer db.metric pos.toEcef ns ∧ ∀ n ∈ ns, n.distance ≤ d := by
  obtain ⟨_, -, h⟩ := bind_eq_ok.1 h
  obtain ⟨r, hr, h⟩ := bind_eq_ok.1 h
  have hnone : (Within.empty d).hits = [] := sortHits_nil
  have hempty : (Within.empty d).radius = d ∧ ∀ hit ∈ (Within.empty d).hits, hit.distance ≤ d :=
    ⟨rfl, by simp [hnone]⟩
  obtain ⟨-, hradius⟩ := search_keeps_of_offer Within.offer_keeps hempty hr
  refine ⟨honestAnswer_of_resolve r.hits_inOrder (honest_of_search Within.keepsOffers hnone hr) h,
    fun n hn => ?_⟩
  obtain ⟨hit, hmem, hone⟩ := mem_of_mapM_eq_ok h hn
  rw [← (standsFor_of_eq_ok hone).2]
  exact hradius hit hmem

/-- **Answers are honest on any opened file.** Whatever its sections hold, a question by place that
is answered gives items with the distances of their own positions, the nearest first and at equal
distances in the order of their records; no more than asked for, and none from beyond the radius. -/
theorem honestAnswers_of_ofBuffer {settings : Settings} {buf : Buffer}
    (h : Database.ofBuffer α settings buf = .ok db) (pos : Position) :
    (∀ n, db.nearest? pos = .ok n →
      db.HonestAnswer ⟨settings.longRangeThreshold⟩ pos.toEcef n.toList) ∧
    (∀ k ns, db.kNearest pos k = .ok ns →
      db.HonestAnswer ⟨settings.longRangeThreshold⟩ pos.toEcef ns ∧ ns.length ≤ k) ∧
    ∀ d ns, db.within pos d = .ok ns →
      db.HonestAnswer ⟨settings.longRangeThreshold⟩ pos.toEcef ns ∧ ∀ n ∈ ns, n.distance ≤ d := by
  obtain ⟨-, -, -, stop, -, -, -, -, hmetric⟩ := ofBuffer_eq_ok_iff_steps.1 h
  rw [← hmetric]
  exact ⟨fun _ hn => honestAnswer_nearest? hn, fun _ _ hns => honestAnswer_kNearest hns,
    fun _ _ hns => honestAnswer_within hns⟩

end Database

/-! ## A tree that knows one record twice -/

/-- A file of two places whose nodes both refer to the second one. -/
def twinForm : FileForm :=
  .withCrc Place ⟨0, 0, ["place"], 2, chainRecord (onAxis minusOne) ++ chainRecord (onAxis .zero),
    ⟨2, 1⟩, int32Bytes emptyOffset ++ int32Bytes emptyOffset,
    (int32Bytes 106 ++ (int32Bytes emptyOffset ++ int32Bytes 198)) ++
      (int32Bytes 106 ++ (int32Bytes emptyOffset ++ int32Bytes emptyOffset))⟩

/-- The place in the second record. -/
def twinPlace : Place := ⟨⟨"place", 0, ⟨.zero, .zero, .zero⟩, onAxis .zero⟩, "place", "place"⟩

/-- Settings for reading with a threshold of ten thousand kilometres. -/
def farSettings : Settings := { lenientSettings with longRangeThreshold := ⟨0x416312d000000000⟩ }

/-- The database of the file. -/
def twinDatabase : Database Place := twinForm.database Place farSettings

theorem length_chainRecord (p : Ecef) : (chainRecord p).length = 64 := by
  simp [chainRecord, baseSize]

theorem layout_twinForm : twinForm.layout Place = ⟨42, 64, 2, ⟨2, 1⟩⟩ := by decide

theorem isFile_twinForm : twinForm.IsFile Place true := by
  have hrecords : twinForm.records.length = 2 * 64 := by
    simp [twinForm, FileForm.withCrc, length_chainRecord]
  have hsized : twinForm.Sized Place := ⟨hrecords, rfl, rfl⟩
  refine ⟨hsized, rfl, Nat.one_pos, Nat.one_lt_two, fun _ => FileForm.crc_withCrc _, ?_⟩
  rw [FileForm.length_bytes, ← hsized.stop_eq, layout_twinForm]
  decide

/-- The second record stands at its place. -/
theorem hasAt_twinRecord : HasAt twinDatabase.buf.bytes 106 (chainRecord (onAxis .zero)) := by
  have hplaced := isFile_twinForm.placedIn
  rw [layout_twinForm] at hplaced
  exact hplaced.records.after 106 (by rw [length_chainRecord])

theorem read_twinDatabase : twinDatabase.read 106 = .ok twinPlace := by
  have hslice : twinDatabase.buf.slice 106 (Schema.recordSize Place) =
      .ok (chainRecord (onAxis .zero)) :=
    Buffer.slice_of_hasAt hasAt_twinRecord (length_chainRecord _)
  have hname : twinDatabase.strings.resolve 0 = .ok twinPlace.base.name := by decide
  have hbase : ItemBase.decode twinDatabase.strings (chainRecord (onAxis .zero)) =
      .ok twinPlace.base :=
    ItemBase.decode_of_hasAt hname (hasAt_self (chainRecord (onAxis .zero))).left
  rw [Database.read, Schema.readItem, hslice, ok_bind, hbase]
  rfl

theorem readVisit_twin :
    readVisit twinDatabase.buf 186 = .ok ⟨106, none, some 198, onAxis .zero⟩ ∧
      readVisit twinDatabase.buf 198 = .ok ⟨106, none, none, onAxis .zero⟩ := by
  have hplaced := isFile_twinForm.placedIn
  rw [layout_twinForm] at hplaced
  have hpoint : readEcef twinDatabase.buf 106 = .ok (onAxis .zero) :=
    readEcef_of_hasAt hasAt_twinRecord.left
  have hfirst : TreePlan.encodeNode ⟨186, 42, 64⟩ ⟨1, none, some 1⟩ = .ok _ := rfl
  have hsecond : TreePlan.encodeNode ⟨186, 42, 64⟩ ⟨1, none, none⟩ = .ok _ := rfl
  exact ⟨TreePlan.readVisit_of_encodeNode hfirst hplaced.nodes.left hpoint (by decide),
    TreePlan.readVisit_of_encodeNode hsecond (hplaced.nodes.after 198 rfl) hpoint (by decide)⟩

section
variable [Trig] {σ : Type} [Selection σ]

/-- What both nodes offer to a search from a target. -/
def twinHit (target : Ecef) : Hit := ⟨twinDatabase.metric.distance (onAxis .zero) target, 106⟩

/-- A search from above the planes is offered the record twice. -/
theorem search_twin {target : Ecef} (s : σ) (h : ∀ axis, ¬ target.coord axis < .zero) :
    twinDatabase.tree.search twinDatabase.metric target s =
      ⟨Selection.offer (Selection.offer s (twinHit target)) (twinHit target), .ok ()⟩ := by
  obtain ⟨hfirst, hsecond⟩ := readVisit_twin
  have hlevels : maxLevels 2 = 4 := by decide
  have hroot : twinDatabase.tree = ⟨twinDatabase.buf, some 186, 2⟩ := by
    rw [Database.tree, Database.size, twinDatabase, FileForm.database, layout_twinForm]
    rfl
  have hup (axis : Axis) : ¬ target.coord axis < (onAxis .zero).coord axis := by
    cases axis with
    | x => exact h .x
    | y => exact h .y
    | z => exact h .z
  have hnear (tooDeep : Error) (box : Box) (s : σ) :
      searchNear twinDatabase.buf twinDatabase.metric target tooDeep 3 1 ⟨some 198, box⟩ s =
        ⟨Selection.offer s (twinHit target), .ok ()⟩ := by
    rw [searchNear]
    dsimp only
    rw [searchFrom_of_halves hsecond (if_neg (hup _)) searchNear_none]
    rfl
  rw [hroot, StoredTree.search]
  dsimp only
  rw [hlevels]
  exact searchFrom_of_halves hfirst (if_neg (hup _)) (hnear _ _ _)

end

/-- A hit that is offered again is no better than before. -/
theorem Nearest.hits_offer_offer (h : Hit) :
    (Selection.offer (Selection.offer Nearest.empty h) h).hits = List.replicate 1 h := by
  show (Nearest.offer ⟨some h⟩ h).hits = _
  unfold Nearest.offer
  dsimp only
  split <;> rfl

theorem KNearest.hits_offer_offer (h : Hit) :
    (Selection.offer (Selection.offer (KNearest.empty 2) h) h).hits = List.replicate 2 h := by
  show (insertHit h [h]).take 2 = _
  unfold insertHit
  split <;> rfl

theorem Within.hits_offer_offer {r : Binary64} {h : Hit} (hr : h.distance ≤ r) :
    (Selection.offer (Selection.offer (Within.empty r) h) h).hits = List.replicate 2 h := by
  show (Within.offer (Within.offer _ h) h).hits = _
  rw [Within.offer, Within.offer, Within.empty, if_pos hr, if_pos hr]
  refine (eq_sortHits (List.Perm.refl [h, h]) ?_).symm
  simp [Hit.notAfter_iff]

theorem resolve_twin (n : Nat) (d : Binary64) :
    twinDatabase.resolve (List.replicate n ⟨d, 106⟩) = .ok (List.replicate n ⟨twinPlace, d⟩) := by
  rw [Database.resolve, mapM_eq_ok, List.forall₂_iff_get]
  refine ⟨by simp, fun i h₁ h₂ => ?_⟩
  simp [read_twinDatabase]

theorem honestAnswers_of_ofBuffer_twin :
    letI : Trig := nearestTrig
    Database.ofBuffer Place farSettings (.ofList (twinForm.bytes Place)) = .ok twinDatabase ∧
      twinDatabase.nearest? ⟨.zero, .zero, .zero⟩ =
        .ok (some ⟨twinPlace, Ellipsoid.semiMajorAxis⟩) ∧
      twinDatabase.kNearest ⟨.zero, .zero, .zero⟩ 2 =
        .ok (List.replicate 2 ⟨twinPlace, Ellipsoid.semiMajorAxis⟩) ∧
      twinDatabase.within ⟨.zero, .zero, .zero⟩ Ellipsoid.semiMajorAxis =
        .ok (List.replicate 2 ⟨twinPlace, Ellipsoid.semiMajorAxis⟩) ∧
      twinDatabase.HonestAnswer ⟨farSettings.longRangeThreshold⟩
        (Position.toEcef ⟨.zero, .zero, .zero⟩)
        (List.replicate 2 ⟨twinPlace, Ellipsoid.semiMajorAxis⟩) := by
  let _ : Trig := nearestTrig
  have hopen : Database.ofBuffer Place farSettings (.ofList (twinForm.bytes Place)) =
      .ok twinDatabase := isFile_twinForm.ofBuffer_eq (by decide)
  have hpos : Position.isFinite ⟨.zero, .zero, .zero⟩ = true := by decide
  have htarget : Position.toEcef ⟨.zero, .zero, .zero⟩ = onAxis Ellipsoid.semiMajorAxis :=
    toEcef_nearestTrig_zero
  have hup (axis : Axis) : ¬ (onAxis Ellipsoid.semiMajorAxis).coord axis < .zero := by
    rw [semiMajorAxis_eq]
    cases axis <;> decide
  have hhit : twinHit (onAxis Ellipsoid.semiMajorAxis) = ⟨Ellipsoid.semiMajorAxis, 106⟩ := by
    have hchord : (onAxis .zero).distance (onAxis Ellipsoid.semiMajorAxis) =
        Ellipsoid.semiMajorAxis := by
      rw [semiMajorAxis_eq]
      decide +kernel
    rw [twinHit, Metric.distance, hchord, correctedDistance_eq, semiMajorAxis_eq]
    exact congrArg (Hit.mk · 106) (if_pos (by decide))
  have hsearch {σ : Type} [Selection σ] (s : σ) :
      twinDatabase.search ⟨.zero, .zero, .zero⟩ s =
        .ok (Selection.offer (Selection.offer s ⟨Ellipsoid.semiMajorAxis, 106⟩)
          ⟨Ellipsoid.semiMajorAxis, 106⟩) := by
    rw [Database.search, hpos, htarget, search_twin s hup, hhit]
    rfl
  have hnearest : twinDatabase.nearest? ⟨.zero, .zero, .zero⟩ =
      .ok (some ⟨twinPlace, Ellipsoid.semiMajorAxis⟩) := by
    rw [Database.nearest?, hsearch, ok_bind, Nearest.hits_offer_offer, resolve_twin]
    rfl
  have hk : twinDatabase.kNearest ⟨.zero, .zero, .zero⟩ 2 =
      .ok (List.replicate 2 ⟨twinPlace, Ellipsoid.semiMajorAxis⟩) := by
    rw [Database.kNearest, hsearch, ok_bind, KNearest.hits_offer_offer, resolve_twin]
  have hwithin : twinDatabase.within ⟨.zero, .zero, .zero⟩ Ellipsoid.semiMajorAxis =
      .ok (List.replicate 2 ⟨twinPlace, Ellipsoid.semiMajorAxis⟩) := by
    have hnan : Ellipsoid.semiMajorAxis.isNaN = false := by
      rw [semiMajorAxis_eq]
      decide
    have hself : (Hit.mk Ellipsoid.semiMajorAxis 106).distance ≤ Ellipsoid.semiMajorAxis :=
      Binary64.le_refl_of_not_nan hnan
    rw [Database.within, hnan, unlessInput, Bool.not_false, if_pos rfl, ok_bind, hsearch, ok_bind,
      Within.hits_offer_offer hself, resolve_twin]
  obtain ⟨-, hhonest, -⟩ := Database.honestAnswers_of_ofBuffer hopen ⟨.zero, .zero, .zero⟩
  exact ⟨hopen, hnearest, hk, hwithin, (hhonest 2 _ hk).1⟩

end Gazetteer
