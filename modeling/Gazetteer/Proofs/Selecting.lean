import Gazetteer.Proofs.WordOrder
import Gazetteer.SpatialTree.Selection

/-!
# What selections keep

Whatever the order of the offers, a selection ends with the least hit, the first `k` of the sorted
hits, or the sorted hits within its radius. And once a selection does not admit a distance, an offer
from there or beyond changes nothing: this is what allows a search to leave such offers out.
-/

namespace Gazetteer

/-! ## The order of hits -/

namespace Hit

variable {a b c : Hit}

theorem notAfter_iff : notAfter a b = true ↔ a.distance.totalRank < b.distance.totalRank ∨
    a.distance.totalRank = b.distance.totalRank ∧ a.offset ≤ b.offset := by
  rw [notAfter, Hit.compare, Ordering.isLE_then_iff_or, Binary64.totalCompare, Int.compare_eq_lt,
    Int.compare_eq_eq, Nat.isLE_compare]

theorem precedes_iff : precedes a b = true ↔ a.distance.totalRank < b.distance.totalRank ∨
    a.distance.totalRank = b.distance.totalRank ∧ a.offset < b.offset := by
  rw [precedes, Hit.compare, Ordering.isLT_iff_eq_lt, Ordering.then_eq_lt, Binary64.totalCompare,
    Int.compare_eq_lt, Int.compare_eq_eq, Nat.compare_eq_lt]

theorem notAfter_trans (h₁ : notAfter a b = true) (h₂ : notAfter b c = true) :
    notAfter a c = true := by
  rw [notAfter_iff] at *
  omega

theorem notAfter_total (a b : Hit) : (notAfter a b || notAfter b a) = true := by
  rw [Bool.or_eq_true, notAfter_iff, notAfter_iff]
  omega

theorem notAfter_antisymm (h₁ : notAfter a b = true) (h₂ : notAfter b a = true) : a = b := by
  rw [notAfter_iff] at *
  have hd : a.distance = b.distance := Binary64.totalRank_inj (by omega)
  have ho : a.offset = b.offset := by omega
  cases a
  cases b
  simp_all

theorem notAfter_of_not_precedes (h : ¬ precedes a b = true) : notAfter b a = true := by
  rw [precedes_iff] at h
  rw [notAfter_iff]
  omega

theorem notAfter_of_precedes (h : precedes a b = true) : notAfter a b = true := by
  rw [precedes_iff] at h
  rw [notAfter_iff]
  omega

/-- A hit from farther away does not precede a nearer one. -/
theorem not_precedes_of_lt (h : a.distance < b.distance) : ¬ precedes b a = true := by
  have := Binary64.totalRank_lt_of_lt h
  rw [precedes_iff]
  omega

end Hit

/-! ## Sorted hits -/

/-- Hits in order. -/
def sortHits (hs : List Hit) : List Hit := hs.mergeSort Hit.notAfter

section
variable {h : Hit} {hs hs' : List Hit}

@[simp] theorem sortHits_nil : sortHits [] = [] := List.mergeSort_nil

theorem perm_sortHits (hs : List Hit) : (sortHits hs).Perm hs := List.mergeSort_perm hs _

theorem pairwise_sortHits (hs : List Hit) :
    (sortHits hs).Pairwise fun a b => Hit.notAfter a b = true := by
  apply List.pairwise_mergeSort
  · exact fun _ _ _ h₁ h₂ => Hit.notAfter_trans h₁ h₂
  · exact Hit.notAfter_total

/-- A list in order is the sorted list of its members. -/
theorem eq_sortHits (hp : hs'.Perm hs) (hl : hs'.Pairwise fun a b => Hit.notAfter a b = true) :
    hs' = sortHits hs :=
  List.Perm.eq_of_pairwise (fun _ _ _ _ => Hit.notAfter_antisymm) hl (pairwise_sortHits hs)
    (hp.trans (perm_sortHits hs).symm)

/-- The order of the offers does not matter. -/
theorem sortHits_congr (hp : hs'.Perm hs) : sortHits hs' = sortHits hs :=
  eq_sortHits ((perm_sortHits hs').trans hp) (pairwise_sortHits hs')

/-- No hit comes after the last of sorted hits. -/
theorem notAfter_getLast (hl : hs.Pairwise fun a b => Hit.notAfter a b = true) (hne : hs ≠ [])
    {b : Hit} (hb : b ∈ hs) : Hit.notAfter b (hs.getLast hne) = true := by
  rw [← List.dropLast_concat_getLast hne] at hl hb
  rcases List.mem_append.1 hb with hb | hb
  · exact (List.pairwise_append.1 hl).2.2 b hb _ (List.mem_singleton_self _)
  · rw [List.mem_singleton.1 hb]
    exact Hit.notAfter_iff.2 (Or.inr ⟨rfl, Nat.le_refl _⟩)

theorem perm_insertHit (h : Hit) (hs : List Hit) : (insertHit h hs).Perm (h :: hs) := by
  induction hs with
  | nil => exact List.Perm.refl _
  | cons e es ih =>
    rw [insertHit]
    split
    · exact List.Perm.refl _
    · exact (ih.cons e).trans (List.Perm.swap h e es)

theorem pairwise_insertHit (hl : hs.Pairwise fun a b => Hit.notAfter a b = true) :
    (insertHit h hs).Pairwise fun a b => Hit.notAfter a b = true := by
  induction hs with
  | nil => exact List.pairwise_singleton _ _
  | cons e es ih =>
    obtain ⟨hfirst, hrest⟩ := List.pairwise_cons.1 hl
    rw [insertHit]
    split
    · rename_i hlt
      have hle := Hit.notAfter_of_precedes hlt
      refine List.pairwise_cons.2 ⟨fun b hb => ?_, hl⟩
      rcases List.mem_cons.1 hb with rfl | hb
      · exact hle
      · exact Hit.notAfter_trans hle (hfirst b hb)
    · rename_i hge
      refine List.pairwise_cons.2 ⟨fun b hb => ?_, ih hrest⟩
      rcases List.mem_cons.1 ((perm_insertHit h es).mem_iff.1 hb) with rfl | hb
      · exact Hit.notAfter_of_not_precedes hge
      · exact hfirst b hb

/-- Inserting one more hit keeps the hits sorted. -/
theorem insertHit_sortHits (h : Hit) (hs : List Hit) :
    insertHit h (sortHits hs) = sortHits (hs ++ [h]) := by
  refine eq_sortHits ?_ (pairwise_insertHit (pairwise_sortHits hs))
  exact (perm_insertHit h _).trans (((perm_sortHits hs).cons h).trans
    (List.perm_append_singleton h hs).symm)

/-- Only the first `k` hits matter for the first `k` after an insertion. -/
theorem take_insertHit_take (h : Hit) (hs : List Hit) (k : Nat) :
    (insertHit h (hs.take k)).take k = (insertHit h hs).take k := by
  induction hs generalizing k with
  | nil => simp
  | cons e es ih =>
    cases k with
    | zero => simp
    | succ k =>
      rw [List.take_succ_cons, insertHit, insertHit]
      split
      · cases k with
        | zero => simp
        | succ k => simp [List.take_take]
      · rw [List.take_succ_cons, List.take_succ_cons, ih k]

theorem head?_insertHit (h : Hit) (hs : List Hit) :
    (insertHit h hs).head? = (match hs.head? with
      | none => some h
      | some b => if h.precedes b then some h else some b) := by
  cases hs with
  | nil => rfl
  | cons e es =>
    rw [insertHit, List.head?_cons]
    split
    · rename_i hlt
      simp [hlt]
    · rename_i hge
      simp [hge]

end

/-! ## What each selection ends with -/

section
variable {σ : Type} [Selection σ]

/-- A selection after some offers. -/
def offerAll (s : σ) (hs : List Hit) : σ := hs.foldl Selection.offer s

@[simp] theorem offerAll_nil (s : σ) : offerAll s [] = s := rfl

@[simp] theorem offerAll_cons (s : σ) (h : Hit) (hs : List Hit) :
    offerAll s (h :: hs) = offerAll (Selection.offer s h) hs := rfl

theorem offerAll_append (s : σ) (hs hs' : List Hit) :
    offerAll s (hs ++ hs') = offerAll (offerAll s hs) hs' := List.foldl_append

end

/-- **The nearest item** is the least hit. -/
theorem Nearest.offerAll_empty (hs : List Hit) :
    offerAll Nearest.empty hs = ⟨(sortHits hs).head?⟩ := by
  suffices hrun : ∀ done : List Hit, offerAll (⟨(sortHits done).head?⟩ : Nearest) hs =
      ⟨(sortHits (done ++ hs)).head?⟩ from by
    simpa [Nearest.empty] using hrun []
  induction hs with
  | nil => simp
  | cons h hs ih =>
    intro done
    have hstep : Selection.offer (⟨(sortHits done).head?⟩ : Nearest) h =
        ⟨(sortHits (done ++ [h])).head?⟩ := by
      rw [← insertHit_sortHits, head?_insertHit]
      show Nearest.offer _ h = _
      unfold Nearest.offer
      cases (sortHits done).head? with
      | none => rfl
      | some b =>
        dsimp only
        split <;> rfl
    rw [offerAll_cons, hstep, ih, List.append_assoc, List.singleton_append]

/-- **The `k` nearest items** are the first `k` of the sorted hits. -/
theorem KNearest.offerAll_empty (k : Nat) (hs : List Hit) :
    offerAll (KNearest.empty k) hs = ⟨k, (sortHits hs).take k⟩ := by
  suffices hrun : ∀ done : List Hit, offerAll (⟨k, (sortHits done).take k⟩ : KNearest) hs =
      ⟨k, (sortHits (done ++ hs)).take k⟩ from by
    simpa [KNearest.empty] using hrun []
  induction hs with
  | nil => simp
  | cons h hs ih =>
    intro done
    have hstep : Selection.offer (⟨k, (sortHits done).take k⟩ : KNearest) h =
        ⟨k, (sortHits (done ++ [h])).take k⟩ := by
      rw [← insertHit_sortHits, ← take_insertHit_take]
      rfl
    rw [offerAll_cons, hstep, ih, List.append_assoc, List.singleton_append]

/-- **The items within a radius** are the sorted hits that are no farther away. -/
theorem Within.hits_offerAll_empty (r : Binary64) (hs : List Hit) :
    (offerAll (Within.empty r) hs).hits =
      (sortHits hs).filter fun h => decide (h.distance ≤ r) := by
  have hoffered : offerAll (Within.empty r) hs =
      ⟨r, (hs.filter fun h => decide (h.distance ≤ r)).reverse⟩ := by
    suffices hrun : ∀ done : List Hit, offerAll (⟨r, done.reverse⟩ : Within) hs =
        ⟨r, (done ++ hs.filter fun h => decide (h.distance ≤ r)).reverse⟩ from hrun []
    induction hs with
    | nil => simp
    | cons h hs ih =>
      intro done
      by_cases hd : h.distance ≤ r
      · have hstep : Selection.offer (⟨r, done.reverse⟩ : Within) h = ⟨r, (done ++ [h]).reverse⟩ := by
          show Within.offer _ h = _
          simp [Within.offer, hd]
        rw [offerAll_cons, hstep, ih]
        simp [hd]
      · have hstep : Selection.offer (⟨r, done.reverse⟩ : Within) h = ⟨r, done.reverse⟩ := by
          show Within.offer _ h = _
          simp [Within.offer, hd]
        rw [offerAll_cons, hstep, ih]
        simp [hd]
  rw [hoffered, Within.hits, List.reverse_reverse]
  refine (eq_sortHits ?_ ((pairwise_sortHits hs).filter _)).symm
  exact (perm_sortHits hs).filter _

/-! ## Offers that may be left out -/

/-- A selection for which offers may be left out that it does not admit. -/
class LawfulSelection (σ : Type) [Selection σ] where
  /-- What holds of a selection as long as no offer is a NaN. -/
  Sound : σ → Prop
  sound_offer : ∀ (s : σ) (h : Hit), Sound s → h.distance.isNaN = false →
    Sound (Selection.offer s h)
  /-- An offer from where the selection admits nothing, or from beyond, changes nothing. -/
  offer_eq_self : ∀ (s : σ) (d : Binary64) (h : Hit), Sound s → Selection.admits s d = false →
    d ≤ h.distance → Selection.offer s h = s

open LawfulSelection

/-- What is not admitted and not a NaN lies beyond a number that was to admit it. -/
theorem lt_of_not_le {d b : Binary64} {h : Hit} (hb : b.isNaN = false) (hd : ¬ d ≤ b)
    (hle : d ≤ h.distance) : b < h.distance := by
  obtain ⟨hnan, -, -⟩ := Binary64.le_iff.1 hle
  rcases Binary64.lt_or_le_of_not_nan hb hnan with hlt | hle'
  · exact Binary64.lt_of_lt_of_le hlt hle
  · exact absurd hle' hd

instance : LawfulSelection Nearest where
  Sound s := ∀ b, s.best = some b → b.distance.isNaN = false
  sound_offer s h hs hh b hb := by
    change (Nearest.offer s h).best = some b at hb
    unfold Nearest.offer at hb
    split at hb
    · cases hb
      exact hh
    · rename_i c hc
      split at hb
      · cases hb
        exact hh
      · exact hs b hb
  offer_eq_self s d h hs hd hle := by
    change Nearest.admits s d = false at hd
    change Nearest.offer s h = s
    unfold Nearest.admits at hd
    unfold Nearest.offer
    cases hb : s.best with
    | none => simp [hb] at hd
    | some b =>
      rw [hb] at hd
      have hlt := lt_of_not_le (hs b hb) (of_decide_eq_false hd) hle
      exact if_neg (Hit.not_precedes_of_lt hlt)

/-- A hit that precedes none of the hits goes to their end. -/
theorem insertHit_eq_append {h : Hit} {hs : List Hit} (hh : ∀ b ∈ hs, ¬ h.precedes b = true) :
    insertHit h hs = hs ++ [h] := by
  induction hs with
  | nil => rfl
  | cons e es ih =>
    rw [insertHit, if_neg (hh e (by simp)), ih fun b hb => hh b (by simp [hb]), List.cons_append]

instance : LawfulSelection KNearest where
  Sound s := s.hits.length ≤ s.k ∧ s.hits.Pairwise (fun a b => Hit.notAfter a b = true) ∧
    ∀ b ∈ s.hits, b.distance.isNaN = false
  sound_offer s h hs hh := by
    obtain ⟨-, hsorted, hnan⟩ := hs
    refine ⟨List.length_take_le _ _, ?_, fun b hb => ?_⟩
    · exact (pairwise_insertHit hsorted).sublist (List.take_sublist _ _)
    · rcases List.mem_cons.1 ((perm_insertHit h s.hits).mem_iff.1 (List.mem_of_mem_take hb)) with
        rfl | hb
      · exact hh
      · exact hnan b hb
  offer_eq_self s d h hs hd hle := by
    obtain ⟨hlen, hsorted, hnan⟩ := hs
    change KNearest.admits s d = false at hd
    suffices htake : (insertHit h s.hits).take s.k = s.hits from congrArg (KNearest.mk s.k) htake
    unfold KNearest.admits KNearest.isFull at hd
    split at hd
    · rename_i hk
      have hnil : s.hits = [] := List.eq_nil_of_length_eq_zero (by omega)
      rw [hk, List.take_zero, hnil]
    · rename_i hk
      rw [Bool.or_eq_false_iff, Bool.not_eq_false', decide_eq_true_eq] at hd
      obtain ⟨hfull, hlast⟩ := hd
      have hne : s.hits ≠ [] := fun hnil => by
        rw [hnil, List.length_nil] at hfull
        omega
      rw [List.getLast?_eq_some_getLast hne] at hlast
      have hlt := lt_of_not_le (hnan _ (List.getLast_mem hne)) (of_decide_eq_false hlast) hle
      -- the last hit is nearer than the offer, and no other hit is farther away than the last
      rw [insertHit_eq_append, List.take_left' (by omega)]
      intro b hb
      rw [Hit.precedes_iff]
      have hrank := Binary64.totalRank_lt_of_lt hlt
      have hbl := Hit.notAfter_iff.1 (notAfter_getLast hsorted hne hb)
      omega

instance : LawfulSelection Within where
  Sound _ := True
  sound_offer _ _ _ _ := trivial
  offer_eq_self s d h _ hd hle := by
    change Within.admits s d = false at hd
    have hnot : ¬ h.distance ≤ s.radius := fun hr =>
      of_decide_eq_false hd (Binary64.le_trans hle hr)
    exact if_neg hnot

/-- **Offers that a selection does not admit may be left out.** -/
theorem offerAll_eq_self {σ : Type} [Selection σ] [LawfulSelection σ] {s : σ} {d : Binary64}
    {hs : List Hit} (hsound : Sound s) (hd : Selection.admits s d = false)
    (hle : ∀ h ∈ hs, d ≤ h.distance) : offerAll s hs = s := by
  induction hs with
  | nil => rfl
  | cons h hs ih =>
    rw [offerAll_cons, offer_eq_self s d h hsound hd (hle h (by simp))]
    exact ih fun h' hh' => hle h' (by simp [hh'])

theorem sound_offerAll {σ : Type} [Selection σ] [LawfulSelection σ] {s : σ} {hs : List Hit}
    (hsound : Sound s) (hh : ∀ h ∈ hs, h.distance.isNaN = false) : Sound (offerAll s hs) := by
  induction hs generalizing s with
  | nil => exact hsound
  | cons h hs ih =>
    exact ih (sound_offer s h hsound (hh h (by simp))) fun h' hh' => hh h' (by simp [hh'])

end Gazetteer
