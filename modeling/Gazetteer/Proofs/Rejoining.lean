import Gazetteer.Item.Airport
import Gazetteer.Item.Place
import Gazetteer.Proofs.NearestTrig
import Gazetteer.Proofs.RowsByLine

/-!
# Texts taken in one after another

A lenient intake offers the items of a text to the draft one by one, and a refused item leaves no
trace. What a draft refuses once it refuses ever after: the names in it only get more. So it makes no
difference whether two texts are taken in one after the other or as one text, and a text that was
taken in has nothing more to give. The names of the columns are left out at the start of a text only,
but they are no record anywhere.
-/

namespace Gazetteer

namespace Draft

variable {α : Type} [Schema α] {d : Draft α} {x : α} {items : List α}

/-! ## Items offered one by one -/

/-- The draft after some items were offered to it. -/
def offer (d : Draft α) (items : List α) : Draft α := items.foldl (fun d x => d.after (.add x)) d

/-- An item that a draft does not take. -/
def Refuses (d : Draft α) (x : α) : Prop := d.check x ≠ .ok ()

theorem offer_append (d : Draft α) (items items' : List α) :
    d.offer (items ++ items') = (d.offer items).offer items' :=
  List.foldl_append

theorem after_add_of_check (h : d.check x = .ok ()) : d.after (.add x) = d.push x := by
  rw [after, (add_eq_ok_iff d x _).2 ⟨h, rfl⟩]

theorem Refuses.after_add (h : d.Refuses x) : d.after (.add x) = d := by
  rw [after]
  cases ha : d.add x with
  | ok d' => exact absurd ((add_eq_ok_iff d x d').1 ha).1 h
  | error e => rfl

/-- A lenient intake offers the items of its rows. -/
theorem draft_takeLenient (d : Draft α) (rows : List (Except Error α)) :
    (d.takeLenient rows).draft = d.offer (rows.filterMap Except.toOption) := by
  induction rows generalizing d with
  | nil => rfl
  | cons row rows ih =>
    rw [takeLenient]
    cases hs : d.screen row with
    | ok x =>
      obtain ⟨rfl, hcheck⟩ := screen_eq_ok.1 hs
      exact (ih (d.push x)).trans (by rw [← after_add_of_check hcheck]; rfl)
    | error e =>
      refine (ih d).trans ?_
      cases row with
      | error e' => rfl
      | ok x =>
        have hrefused : d.Refuses x := by
          intro hcheck
          rw [screen_eq_ok.2 ⟨rfl, hcheck⟩] at hs
          cases hs
        exact congrArg (offer · _) hrefused.after_add.symm

theorem Keeps.offer {P : Draft α → Prop} (hP : Keeps P) (hd : P d) (items : List α) :
    P (d.offer items) := by
  induction items generalizing d with
  | nil => exact hd
  | cons x items ih => exact ih (hP.after hd (.add x))

theorem settings_offer (d : Draft α) (items : List α) : (d.offer items).settings = d.settings := by
  have hkeeps : Keeps fun d' : Draft α => d'.settings = d.settings := fun d' x hd' _ => hd'
  exact hkeeps.offer rfl items

theorem size_le_size_offer (d : Draft α) (items : List α) : d.size ≤ (d.offer items).size := by
  have hkeeps : Keeps fun d' : Draft α => d.size ≤ d'.size := by
    intro d' x hd' _
    show d.size ≤ (d'.push x).size
    rw [size_eq (d'.push x), toList_push, List.length_append, ← size_eq]
    exact Nat.le_add_right_of_le hd'
  exact hkeeps.offer le_rfl items

/-! ## What is refused once -/

/-- **A draft goes on refusing what it refused**: its settings stay, and no name is given up. -/
theorem keeps_refuses (x : α) : Keeps fun d : Draft α => d.Refuses x := by
  intro d y hd _ hcheck
  apply hd
  rw [check_eq_ok_iff_admissible] at hcheck ⊢
  refine ⟨hcheck.1, fun hmem => hcheck.2 ?_⟩
  rw [push, Std.HashSet.mem_insert]
  exact .inr hmem

/-- An item that was offered is not taken again. -/
theorem refuses_after_add (d : Draft α) (x : α) : (d.after (.add x)).Refuses x := by
  by_cases hcheck : d.check x = .ok ()
  · rw [after_add_of_check hcheck]
    intro hagain
    refine (check_eq_ok_iff_admissible.1 hagain).2 ?_
    rw [push, Std.HashSet.mem_insert]
    exact .inl (beq_self_eq_true _)
  · rw [Refuses.after_add hcheck]
    exact hcheck

/-- Items that were offered are not taken again. -/
theorem refuses_offer (d : Draft α) (h : x ∈ items) : (d.offer items).Refuses x := by
  induction items generalizing d with
  | nil => cases h
  | cons y items ih =>
    rcases List.mem_cons.1 h with rfl | h
    · exact (keeps_refuses x).offer (d.refuses_after_add x) items
    · exact ih (d.after (.add y)) h

theorem offer_of_refuses (h : ∀ x ∈ items, d.Refuses x) : d.offer items = d := by
  induction items with
  | nil => rfl
  | cons x items ih =>
    have hx : d.after (.add x) = d := (h x (by simp)).after_add
    rw [offer, List.foldl_cons, hx]
    exact ih fun y hy => h y (by simp [hy])

/-- **Offering the same items again changes nothing.** -/
theorem offer_offer (d : Draft α) (items : List α) : (d.offer items).offer items = d.offer items :=
  offer_of_refuses fun _ hx => d.refuses_offer hx

end Draft

/-! ## The names of the columns -/

/-- A schema of which the names of the columns are no record. -/
class NamesNoRecord (α : Type) [Tabular α] : Prop where
  ofFields_of_isColumnNames : ∀ fields : List String,
    isColumnNames (Tabular.columns α) fields = true →
      ∃ cause, Tabular.ofFields (α := α) fields = .error cause

/-- The name of a latitude is no number, in whatever cases it is written. -/
theorem readNumber?_lat {cs : List Char} (h : cs.map Char.toLower = ['l', 'a', 't']) :
    readNumber? cs = none := by
  obtain ⟨c, rest, rfl, hc, -⟩ := List.map_eq_cons_iff.1 h
  have hdigit : c.isDigit = false := by
    unfold Char.toLower at hc
    split at hc
    · rw [Char.isDigit]
      grind
    · rw [hc]
      rfl
  have hmark {m : Char} (hm : m.toLower ≠ 'l') {ds : List Char} : c :: rest ≠ m :: ds := by
    rintro ⟨⟩
    exact hm hc
  have hsign : splitSign (c :: rest) = (false, c :: rest) :=
    splitSign.eq_3 _ (fun _ => hmark (by decide)) fun _ => hmark (by decide)
  have hunsigned : readUnsigned? false (c :: rest) = none := by
    have hwhole : (c :: rest).takeWhile Char.isDigit = [] :=
      List.takeWhile_cons_of_neg (by simp [hdigit])
    have hafter : (c :: rest).dropWhile Char.isDigit = c :: rest :=
      List.dropWhile_cons_of_neg (by simp [hdigit])
    rw [readUnsigned?, hwhole, hafter]
    split
    rename_i fraction tail hpoint
    split at hpoint
    · rename_i ds hds
      exact absurd hds (hmark (by decide))
    · cases hpoint
      rfl
  rw [readNumber?, hsign]
  dsimp only
  rw [h, if_neg (by decide), if_neg (by decide), hunsigned]

/-- A row that repeats the names of the columns has a word for a latitude. -/
theorem ofText?_of_asciiLower {s : String} (h : asciiLower s = asciiLower "lat") :
    Binary64.ofText? s = none := by
  have hlower : s.toList.map Char.toLower = ['l', 'a', 't'] := by
    rw [← String.toList_map, ← asciiLower, h, asciiLower, String.toList_map]
    rfl
  rw [Binary64.ofText?, readNumber?_lat hlower, Option.map_none]

theorem readField_of_asciiLower {s column : String} (h : asciiLower s = asciiLower "lat") :
    readField Binary64.ofText? s column = .error (.badField column s) := by
  rw [readField, ofText?_of_asciiLower h]

instance [Trig] : NamesNoRecord Place where
  ofFields_of_isColumnNames fields h := by
    have hnames : fields.map asciiLower = (Tabular.columns Place).map asciiLower := beq_iff_eq.1 h
    obtain ⟨name, rest, rfl, -, hrest⟩ := List.map_eq_cons_iff.1 hnames
    obtain ⟨lat, rest, rfl, hlat, hrest⟩ := List.map_eq_cons_iff.1 hrest
    have hlength := congrArg List.length hrest
    match rest, hlength with
    | [lon, alt, kind, description], _ =>
      refine ⟨.field (.badField "lat" lat), ?_⟩
      show Place.ofFields [name, lat, lon, alt, kind, description] = _
      rw [Place.ofFields, readField_of_asciiLower hlat]
      rfl

instance [Trig] : NamesNoRecord Airport where
  ofFields_of_isColumnNames fields h := by
    have hnames : fields.map asciiLower = (Tabular.columns Airport).map asciiLower := beq_iff_eq.1 h
    obtain ⟨name, rest, rfl, -, hrest⟩ := List.map_eq_cons_iff.1 hnames
    obtain ⟨lat, rest, rfl, hlat, hrest⟩ := List.map_eq_cons_iff.1 hrest
    have hlength := congrArg List.length hrest
    match rest, hlength with
    | [lon, elevation, city, country, runways, towered], _ =>
      refine ⟨.field (.badField "lat" lat), ?_⟩
      show Airport.ofFields [name, lat, lon, elevation, city, country, runways, towered] = _
      rw [Airport.ofFields, readField_of_asciiLower hlat]
      rfl

/-! ## The items of a text -/

section
variable {α : Type} [Tabular α] {delimiter : Char}

/-- The item of a row, if it is a record. -/
def Row.item? (α : Type) [Tabular α] (r : Row) : Option α := (Tabular.ofFields r.fields).toOption

/-- The items of a text, in order. -/
def readableItems (α : Type) [Tabular α] (delimiter : Char) (text : String) : List α :=
  (readItems α delimiter text).filterMap Except.toOption

theorem toOption_itemOfRow (r : Row) : (itemOfRow α r).toOption = r.item? α := by
  rw [itemOfRow, Row.item?]
  cases Tabular.ofFields (α := α) r.fields <;> rfl

/-- The names of the columns need not be left out: there is no item in them. -/
theorem filterMap_item?_dropColumnNames [NamesNoRecord α] (rows : List Row) :
    (dropColumnNames (Tabular.columns α) rows).filterMap (Row.item? α) =
      rows.filterMap (Row.item? α) := by
  cases rows with
  | nil => rfl
  | cons r rs =>
    rw [dropColumnNames]
    split
    · rename_i hnames
      obtain ⟨cause, hcause⟩ := NamesNoRecord.ofFields_of_isColumnNames (α := α) r.fields hnames
      have hnone : r.item? α = none := by
        rw [Row.item?, hcause]
        rfl
      rw [List.filterMap_cons_none hnone]
    · rfl

theorem readableItems_eq [NamesNoRecord α] (delimiter : Char) (text : String) :
    readableItems α delimiter text =
      (textRows delimiter text.toList).filterMap (Row.item? α) := by
  rw [readableItems, readItems, recordRows_eq, List.filterMap_map,
    ← filterMap_item?_dropColumnNames]
  exact List.filterMap_congr fun r _ => toOption_itemOfRow r

/-- **Two texts on lines of their own have the items of the one, then those of the other.** -/
theorem readableItems_append [NamesNoRecord α] (delimiter : Char) (a b : String) :
    readableItems α delimiter (a ++ "\n" ++ b) =
      readableItems α delimiter a ++ readableItems α delimiter b := by
  have htext : (a ++ "\n" ++ b).toList = a.toList ++ '\n' :: b.toList := by simp
  rw [readableItems_eq, readableItems_eq, readableItems_eq, htext, textRows_append_cons,
    List.filterMap_append, List.filterMap_map]
  rfl

end

/-! ## Lenient intakes -/

namespace Draft

variable {α : Type} [Tabular α] {d : Draft α}

/-- A lenient intake of a text offers its items and counts those that were taken. -/
theorem ending_of_lenient (h : d.settings.skipInvalidRecords = true) (delimiter : Char)
    (text : String) : d.ending delimiter text =
      (.ok ((d.offer (readableItems α delimiter text)).size - d.size),
        d.offer (readableItems α delimiter text)) := by
  rw [ending, takeText, takeRows, if_pos h, intakeOutcome, h, draft_takeLenient]
  rfl

/-- **Lenient intakes can be put together and repeated.** Two texts that are taken in one after the
other leave the draft that they leave as one text, with a line break between them, and the counts add
up; the second text may well begin with the names of the columns. A text that is taken in again right
after it was taken in gives no item more, and leaves the draft as it is. -/
theorem ending_append [NamesNoRecord α] (h : d.settings.skipInvalidRecords = true)
    (delimiter : Char) (a b : String) : ∃ m n d₁ d₂,
      d.ending delimiter a = (.ok m, d₁) ∧ d₁.ending delimiter b = (.ok n, d₂) ∧
      d.ending delimiter (a ++ "\n" ++ b) = (.ok (m + n), d₂) ∧
      d₁.ending delimiter a = (.ok 0, d₁) := by
  have h₁ : (d.offer (readableItems α delimiter a)).settings.skipInvalidRecords = true := by
    rw [settings_offer, h]
  refine ⟨_, _, _, _, ending_of_lenient h delimiter a, ending_of_lenient h₁ delimiter b, ?_, ?_⟩
  · have hle := d.size_le_size_offer (readableItems α delimiter a)
    have hle' := (d.offer (readableItems α delimiter a)).size_le_size_offer
      (readableItems α delimiter b)
    rw [ending_of_lenient h, readableItems_append, offer_append,
      ← Nat.sub_add_sub_cancel hle' hle, Nat.add_comm]
  · rw [ending_of_lenient h₁, offer_offer, Nat.sub_self]

end Draft

/-- Places of which one is named twice, the second text with the names of the columns. -/
theorem ending_append_twice :
    letI : Trig := nearestTrig
    let d : Draft Place := .empty default
    d.settings.skipInvalidRecords = true ∧ ∃ m n d₁ d₂,
      d.ending ',' "A,1,2,3,k,d" = (.ok m, d₁) ∧
      d₁.ending ',' "name,lat,lon,alt,kind,description\nA,1,2,3,k,d\nB,1,2,3,k,d" = (.ok n, d₂) ∧
      d.ending ',' ("A,1,2,3,k,d" ++ "\n" ++
        "name,lat,lon,alt,kind,description\nA,1,2,3,k,d\nB,1,2,3,k,d") = (.ok (m + n), d₂) ∧
      d₁.ending ',' "A,1,2,3,k,d" = (.ok 0, d₁) := by
  let _ : Trig := nearestTrig
  let d : Draft Place := .empty default
  have h : d.settings.skipInvalidRecords = true := rfl
  exact ⟨h, Draft.ending_append h ',' _ _⟩

end Gazetteer
