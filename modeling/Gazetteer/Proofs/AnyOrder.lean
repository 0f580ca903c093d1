import Gazetteer.Proofs.Selecting

/-!
# Selections do not depend on the order of the offers

What a selection ends with is a rule on the offers in order: the first of them, the first `k`, or
those within a radius. So the offers may come in any order. And what a selection does not admit it
never admits again, as long as no offer is a NaN: its bound only shrinks. So an offer from where
nothing is admitted, or from beyond, may be left out wherever it comes.
-/

namespace Gazetteer

/-! ## Rules on the offers in order -/

section
variable {σ : Type} [Selection σ]

/-- What is chosen after some offers is what a rule takes from the offers in order. -/
def Follows (start : σ) (chosen : σ → List Hit) (rule : List Hit → List Hit) : Prop :=
  ∀ offers sorted : List Hit, sorted.Perm offers →
    sorted.Pairwise (fun a b => Hit.notAfter a b = true) →
    chosen (offerAll start offers) = rule sorted

variable {start : σ} {chosen : σ → List Hit} {rule : List Hit → List Hit}

theorem follows_of_sortHits (h : ∀ offers, chosen (offerAll start offers) = rule (sortHits offers)) :
    Follows start chosen rule := by
  intro offers sorted hperm hsorted
  rw [h, ← eq_sortHits hperm hsorted]

/-- What is chosen by a rule does not depend on the order of the offers. -/
theorem Follows.eq_of_perm (h : Follows start chosen rule) {offers offers' : List Hit}
    (hperm : offers.Perm offers') :
    chosen (offerAll start offers) = chosen (offerAll start offers') := by
  have hsorted := pairwise_sortHits offers'
  rw [h offers _ ((perm_sortHits offers').trans hperm.symm) hsorted,
    h offers' _ (perm_sortHits offers') hsorted]

end

theorem Nearest.follows : Follows empty hits (List.take 1) := by
  refine follows_of_sortHits fun offers => ?_
  rw [offerAll_empty, hits, List.take_one]

theorem KNearest.follows (k : Nat) : Follows (empty k) hits (List.take k) :=
  follows_of_sortHits fun offers => by rw [offerAll_empty]

theorem Within.follows (r : Binary64) :
    Follows (empty r) hits (List.filter fun h => decide (h.distance ≤ r)) :=
  follows_of_sortHits (hits_offerAll_empty r)

/-! ## Bounds that only shrink -/

open LawfulSelection

/-- A selection that does not admit again what it did not admit. -/
class SteadySelection (σ : Type) [Selection σ] extends LawfulSelection σ where
  admits_offer : ∀ (s : σ) (d : Binary64) (h : Hit), Sound s → h.distance.isNaN = false →
    Selection.admits s d = false → Selection.admits (Selection.offer s h) d = false

/-- A distance beyond one hit is beyond every hit that does not come after that one. -/
theorem Hit.not_le_of_notAfter {a b : Hit} {d : Binary64} (h : notAfter a b = true)
    (ha : a.distance.isNaN = false) (hb : b.distance.isNaN = false) (hd : ¬ d ≤ b.distance) :
    ¬ d ≤ a.distance := by
  have hrank : a.distance.totalRank ≤ b.distance.totalRank := by
    rw [notAfter_iff] at h
    omega
  exact fun hle => hd (Binary64.le_trans hle (Binary64.le_of_totalRank_le ha hb hrank))

instance : SteadySelection Nearest where
  admits_offer s d h hs hh hd := by
    change Nearest.admits s d = false at hd
    change Nearest.admits (Nearest.offer s h) d = false
    unfold Nearest.offer
    split
    · rename_i hnone
      rw [Nearest.admits, hnone] at hd
      cases hd
    · rename_i b hb
      split
      · rename_i hlt
        rw [Nearest.admits, hb] at hd
        have hbeyond := of_decide_eq_false hd
        exact decide_eq_false
          (Hit.not_le_of_notAfter (Hit.notAfter_of_precedes hlt) hh (hs b hb) hbeyond)
      · exact hd

section
variable {s : KNearest} {d : Binary64}

/-- When nothing from a distance is among the `k` nearest. -/
theorem KNearest.admits_eq_false_iff (hs : Sound s) : admits s d = false ↔
    s.k = 0 ∨ s.hits.length = s.k ∧ ∃ hne : s.hits ≠ [], ¬ d ≤ (s.hits.getLast hne).distance := by
  obtain ⟨hlen, -, -⟩ := hs
  unfold admits isFull
  by_cases hk : s.k = 0
  · simp [hk]
  · rw [if_neg hk, Bool.or_eq_false_iff, Bool.not_eq_false', decide_eq_true_eq]
    by_cases hne : s.hits = []
    · simp [hk, hne]
    · rw [List.getLast?_eq_some_getLast hne]
      simp only [hk, false_or, decide_eq_false_iff_not, exists_prop_of_true, ne_eq, hne,
        not_false_eq_true]
      refine and_congr_left' ?_
      omega

/-- The `k` nearest after one more offer are among those that do not come after the last. -/
theorem KNearest.notAfter_getLast_of_mem_offer {h b : Hit} (hs : Sound s)
    (hfull : s.hits.length = s.k) (hne : s.hits ≠ []) (hb : b ∈ (offer s h).hits) :
    Hit.notAfter b (s.hits.getLast hne) = true := by
  obtain ⟨-, hsorted, -⟩ := hs
  have hlast (c : Hit) (hc : c ∈ s.hits) := notAfter_getLast hsorted hne hc
  change b ∈ (insertHit h s.hits).take s.k at hb
  by_cases hbefore : ∃ c ∈ s.hits, h.precedes c = true
  · obtain ⟨c, hc, hlt⟩ := hbefore
    rcases List.mem_cons.1 ((perm_insertHit h s.hits).mem_iff.1 (List.mem_of_mem_take hb)) with
      rfl | hb
    · exact Hit.notAfter_trans (Hit.notAfter_of_precedes hlt) (hlast c hc)
    · exact hlast b hb
  · -- the offer comes last, behind as many hits as are kept
    rw [insertHit_eq_append fun c hc hlt => hbefore ⟨c, hc, hlt⟩, List.take_left' hfull] at hb
    exact hlast b hb

end

instance : SteadySelection KNearest where
  admits_offer s d h hs hh hd := by
    have hs' : Sound (KNearest.offer s h) := sound_offer s h hs hh
    refine (KNearest.admits_eq_false_iff hs').2 ?_
    rcases (KNearest.admits_eq_false_iff hs).1 hd with hk | ⟨hfull, hne, hlast⟩
    · exact .inl hk
    · have hlen : (KNearest.offer s h).hits.length = s.k := by
        show ((insertHit h s.hits).take s.k).length = s.k
        rw [List.length_take, (perm_insertHit h s.hits).length_eq, List.length_cons]
        omega
      have hne' : (KNearest.offer s h).hits ≠ [] := by
        rw [← List.length_pos_iff, hlen, ← hfull]
        exact List.length_pos_iff.2 hne
      refine .inr ⟨hlen, hne', ?_⟩
      have hmem := List.getLast_mem hne'
      exact Hit.not_le_of_notAfter (KNearest.notAfter_getLast_of_mem_offer hs hfull hne hmem)
        (hs'.2.2 _ hmem) (hs.2.2 _ (List.getLast_mem hne)) hlast

instance : SteadySelection Within where
  admits_offer s d h _ _ hd := by
    change Within.admits (Within.offer s h) d = false
    unfold Within.offer
    split <;> exact hd

section
variable {σ : Type} [Selection σ] [SteadySelection σ] {s : σ} {d : Binary64}

/-- **What is not admitted is never admitted again**, as long as no offer is a NaN. -/
theorem admits_offerAll {offers : List Hit} (hs : Sound s) (hd : Selection.admits s d = false)
    (hoffers : ∀ h ∈ offers, h.distance.isNaN = false) :
    Selection.admits (offerAll s offers) d = false := by
  induction offers generalizing s with
  | nil => exact hd
  | cons h offers ih =>
    have hh := hoffers h (by simp)
    exact ih (sound_offer s h hs hh) (SteadySelection.admits_offer s d h hs hh hd)
      fun h' hh' => hoffers h' (by simp [hh'])

/-- An offer from where nothing was admitted, or from beyond, makes no difference, whatever is
offered before it and after it. -/
theorem offerAll_append_cons_of_admits {before after : List Hit} {h : Hit} (hs : Sound s)
    (hd : Selection.admits s d = false) (hbefore : ∀ h ∈ before, h.distance.isNaN = false)
    (hle : d ≤ h.distance) : offerAll s (before ++ h :: after) = offerAll s (before ++ after) := by
  rw [offerAll_append, offerAll_append, offerAll_cons,
    offer_eq_self _ d h (sound_offerAll hs hbefore) (admits_offerAll hs hd hbefore) hle]

end

/-! ## Selections in any order -/

/-- What a selection has to do with its offers: it chooses by a rule on the offers in order, so their
order does not matter; and after any offers that are not NaNs, what it does not admit it does not
admit after more of them either, and an offer from there or beyond makes no difference. -/
structure OrderFree {σ : Type} [Selection σ] (start : σ) (chosen : σ → List Hit)
    (rule : List Hit → List Hit) : Prop where
  follows : Follows start chosen rule
  eq_of_perm : ∀ offers offers' : List Hit, offers.Perm offers' →
    chosen (offerAll start offers) = chosen (offerAll start offers')
  steady : ∀ (offers more : List Hit) (d : Binary64),
    (∀ h ∈ offers ++ more, h.distance.isNaN = false) →
    Selection.admits (offerAll start offers) d = false →
    Selection.admits (offerAll start (offers ++ more)) d = false
  left_out : ∀ (offers before after : List Hit) (h : Hit) (d : Binary64),
    (∀ h ∈ offers ++ before ++ after, h.distance.isNaN = false) →
    Selection.admits (offerAll start offers) d = false → d ≤ h.distance →
    offerAll start (offers ++ before ++ h :: after) = offerAll start (offers ++ before ++ after)

theorem orderFree {σ : Type} [Selection σ] [SteadySelection σ] {start : σ} {chosen : σ → List Hit}
    {rule : List Hit → List Hit} (hrule : Follows start chosen rule) (hs : Sound start) :
    OrderFree start chosen rule where
  follows := hrule
  eq_of_perm _ _ hperm := hrule.eq_of_perm hperm
  steady offers more d hnan hd := by
    obtain ⟨hoffers, hmore⟩ := List.forall_mem_append.1 hnan
    rw [offerAll_append]
    exact admits_offerAll (sound_offerAll hs hoffers) hd hmore
  left_out offers before after h d hnan hd hle := by
    obtain ⟨hoffers, hbefore⟩ := List.forall_mem_append.1 (List.forall_mem_append.1 hnan).1
    rw [List.append_assoc, List.append_assoc, offerAll_append start offers,
      offerAll_append start offers]
    exact offerAll_append_cons_of_admits (sound_offerAll hs hoffers) hd hbefore hle

/-- **The three selections do not depend on the order of the offers.** They end with the least offer,
the first `k` offers, and the offers within a radius, of the offers in order. Their bounds only
shrink, so what is not admitted may be left out. -/
theorem orderFree_selections : OrderFree Nearest.empty Nearest.hits (List.take 1) ∧
    (∀ k, OrderFree (KNearest.empty k) KNearest.hits (List.take k)) ∧
    ∀ r, OrderFree (Within.empty r) Within.hits
      (List.filter fun h => decide (h.distance ≤ r)) := by
  refine ⟨orderFree Nearest.follows ?_, fun k => orderFree (KNearest.follows k) ?_,
    fun r => orderFree (Within.follows r) trivial⟩
  · intro b hb
    cases hb
  · exact ⟨Nat.zero_le k, .nil, by simp [KNearest.empty]⟩

end Gazetteer
