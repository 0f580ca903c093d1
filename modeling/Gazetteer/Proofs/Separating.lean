import Mathlib.Data.List.DropRight
import Gazetteer.Item.Airport
import Gazetteer.Item.Place
import Gazetteer.Proofs.NearestTrig
import Gazetteer.Proofs.PathParts

/-!
# Fields between delimiters

A row is written by joining its fields with the delimiter, and read by trimming the line and
splitting it again. A delimiter that is not blank is never trimmed, so every field is found again.
A blank one is trimmed from the end of the line, with the empty fields that it separates: such a row
has too few fields, and is refused.
-/

namespace Gazetteer

/-! ## Joined pieces -/

section
variable {sep c : Char} {cs f : List Char} {fs : List (List Char)}

/-- Splitting finds the pieces that were joined. -/
theorem splitAtEach_intercalate (hne : fs ≠ []) (h : ∀ f ∈ fs, sep ∉ f) :
    splitAtEach sep ([sep].intercalate fs) = fs := by
  induction fs with
  | nil => exact absurd rfl hne
  | cons f fs ih =>
    have hf : sep ∉ f := h f (by simp)
    cases fs with
    | nil => rw [List.intercalate_singleton, splitAtEach_of_not_mem hf]
    | cons g fs =>
      rw [List.intercalate_cons_cons, List.append_assoc, List.singleton_append,
        splitAtEach_append_cons, splitAtEach_of_not_mem hf,
        ih (by simp) fun f' hf' => h f' (by simp [hf']), List.singleton_append]

theorem intercalate_concat (hne : fs ≠ []) :
    [sep].intercalate (fs ++ [f]) = [sep].intercalate fs ++ sep :: f := by
  induction fs with
  | nil => exact absurd rfl hne
  | cons g fs ih =>
    cases fs with
    | nil => simp [List.intercalate_cons_cons]
    | cons g' fs =>
      rw [List.cons_append, List.cons_append, List.intercalate_cons_cons, ← List.cons_append,
        ih (by simp), List.intercalate_cons_cons, List.append_assoc, List.append_assoc,
        List.append_assoc]

/-- A character of joined pieces is the separator or comes from a piece. -/
theorem mem_intercalate (h : c ∈ [sep].intercalate fs) : c = sep ∨ ∃ f ∈ fs, c ∈ f := by
  induction fs with
  | nil => cases h
  | cons f fs ih =>
    cases fs with
    | nil =>
      rw [List.intercalate_singleton] at h
      exact .inr ⟨f, by simp, h⟩
    | cons g fs =>
      rw [List.intercalate_cons_cons, List.append_assoc, List.mem_append, List.singleton_append,
        List.mem_cons] at h
      rcases h with h | rfl | h
      · exact .inr ⟨f, by simp, h⟩
      · exact .inl rfl
      · exact (ih h).imp_right fun ⟨f', hf', hc⟩ => ⟨f', by simp [hf'], hc⟩

/-- Joined pieces start like the first of them. -/
theorem exists_intercalate_cons (sep : Char) (f : List Char) (fs : List (List Char)) :
    ∃ rest, [sep].intercalate (f :: fs) = f ++ rest := by
  cases fs with
  | nil => exact ⟨[], by rw [List.intercalate_singleton, List.append_nil]⟩
  | cons g fs => exact ⟨_, by rw [List.intercalate_cons_cons, List.append_assoc]⟩

/-! ## Trimmed lines -/

theorem trimEnd_eq_rdropWhile (cs : List Char) : trimEnd cs = cs.rdropWhile isBlank := rfl

/-- A text that is trimmed is so at both ends. -/
theorem trim_eq_self (h : trim cs = cs) : trimStart cs = cs ∧ trimEnd cs = cs := by
  have hstart : trimStart cs <:+ cs := List.dropWhile_suffix isBlank
  have hend : trimEnd (trimStart cs) <+: trimStart cs := List.rdropWhile_prefix isBlank _
  have hle := hend.length_le
  change (trim cs).length ≤ _ at hle
  rw [h] at hle
  have heq := hstart.eq_of_length_le hle
  rw [trim, heq] at h
  exact ⟨heq, h⟩

/-- Nothing is trimmed from the end of a text that ends with a trimmed piece. -/
theorem trimEnd_append (hne : f ≠ []) (h : trimEnd f = f) : trimEnd (cs ++ f) = cs ++ f := by
  rw [trimEnd_eq_rdropWhile, List.rdropWhile_eq_self_iff] at h ⊢
  intro hl
  rw [List.getLast_append_of_ne_nil hl hne]
  exact h hne

/-- Nothing is trimmed from the start of a text that starts with a trimmed piece. -/
theorem trimStart_append (hne : f ≠ []) (h : trimStart f = f) : trimStart (f ++ cs) = f ++ cs := by
  obtain ⟨c, f, rfl⟩ := List.exists_cons_of_ne_nil hne
  rw [trimStart, List.dropWhile_eq_self_iff] at h ⊢
  exact fun _ => h (Nat.succ_pos _)

/-- The pieces that are left when joined pieces are trimmed at the end: all of them, unless the
separator is blank; then those at the end that are empty are lost. -/
def keptPieces (sep : Char) (fs : List (List Char)) : List (List Char) :=
  if isBlank sep then fs.rdropWhile List.isEmpty else fs

/-- **Trimming joined pieces joins the pieces that are kept.** -/
theorem trimEnd_intercalate (hfirst : ∀ f, fs.head? = some f → f ≠ [])
    (htrim : ∀ f ∈ fs, trimEnd f = f) :
    trimEnd ([sep].intercalate fs) = [sep].intercalate (keptPieces sep fs) := by
  induction fs using List.reverseRecOn with
  | nil =>
    rw [keptPieces]
    split <;> rfl
  | append_singleton fs f ih =>
    by_cases hf : f = []
    · subst hf
      have hne : fs ≠ [] := by
        rintro rfl
        exact hfirst [] rfl rfl
      have hhead : (fs ++ [[]]).head? = fs.head? := List.head?_append_of_ne_nil fs hne
      have hbefore := ih (fun f hf => hfirst f (hhead.trans hf)) fun f hf => htrim f (by simp [hf])
      rw [trimEnd_eq_rdropWhile, intercalate_concat hne, List.rdropWhile_concat, keptPieces]
      split
      · rw [List.rdropWhile_concat_pos _ _ _ rfl, ← trimEnd_eq_rdropWhile, hbefore, keptPieces,
          if_pos ‹_›]
      · rw [intercalate_concat hne]
    · have hkept : keptPieces sep (fs ++ [f]) = fs ++ [f] := by
        rw [keptPieces]
        split
        · exact List.rdropWhile_concat_neg _ _ _ (by simpa using hf)
        · rfl
      rw [hkept]
      by_cases hne : fs = []
      · rw [hne, List.nil_append, List.intercalate_singleton]
        exact htrim f (by simp)
      · rw [intercalate_concat hne, List.append_cons, trimEnd_append hf (htrim f (by simp))]

end

/-! ## Rows -/

/-- The text of a row: its fields, with the delimiter between them. -/
def joinFields (delimiter : Char) (row : List String) : String :=
  String.ofList ([delimiter].intercalate (row.map String.toList))

/-- The fields that are left of a row when its text is trimmed: a blank delimiter is trimmed from
the end, and the empty fields with it. -/
def keptFields (delimiter : Char) (row : List String) : List String :=
  if isBlank delimiter then row.rdropWhile fun f => f = "" else row

/-- A row that can be written with a delimiter: there is a field for each column, all of them
trimmed and on one line and without the delimiter; the first one says something, and the row is not
that of the names of the columns. -/
structure IsRow (α : Type) [Tabular α] (delimiter : Char) (row : List String) : Prop where
  delimiter_ne : delimiter ≠ '\n'
  length_eq : row.length = (Tabular.columns α).length
  trimmed : ∀ f ∈ row, trim f.toList = f.toList
  free : ∀ f ∈ row, delimiter ∉ f.toList ∧ '\n' ∉ f.toList
  not_idle : ∃ first rest, row = first :: rest ∧ isIdle first.toList = false
  not_names : isColumnNames (Tabular.columns α) row = false

section
variable {delimiter : Char} {row : List String}

theorem keptFields_isPrefix (delimiter : Char) (row : List String) :
    keptFields delimiter row <+: row := by
  rw [keptFields]
  split
  · exact List.rdropWhile_prefix _ _
  · exact List.prefix_refl row

/-- All fields are kept but for empty ones behind a blank delimiter. -/
theorem keptFields_eq_self_iff :
    keptFields delimiter row = row ↔ isBlank delimiter = false ∨ row.getLast? ≠ some "" := by
  rw [keptFields]
  split
  · rename_i hblank
    rw [List.rdropWhile_eq_self_iff]
    by_cases hrow : row = []
    · simp [hrow]
    · simp [hrow, hblank, List.getLast?_eq_some_getLast]
  · rename_i hblank
    simp [hblank]

theorem length_keptFields_lt (h : keptFields delimiter row ≠ row) :
    (keptFields delimiter row).length < row.length := by
  have hkeep := keptFields_isPrefix delimiter row
  exact lt_of_le_of_ne hkeep.length_le fun hlength => h (hkeep.eq_of_length hlength)

theorem isColumnNames_of_length_ne {columns fields : List String}
    (h : fields.length ≠ columns.length) : isColumnNames columns fields = false := by
  rw [isColumnNames, beq_eq_false_iff_ne]
  intro heq
  have hlength := congrArg List.length heq
  rw [List.length_map, List.length_map] at hlength
  exact h hlength

theorem map_toList_keptFields (delimiter : Char) (row : List String) :
    (keptFields delimiter row).map String.toList =
      keptPieces delimiter (row.map String.toList) := by
  rw [keptFields, keptPieces]
  split
  · have hempty : (fun f : String => decide (f = "")) = List.isEmpty ∘ String.toList := by
      funext f
      rw [Bool.eq_iff_iff]
      simp
    rw [List.rdropWhile, List.rdropWhile, ← List.map_reverse, List.dropWhile_map, hempty,
      List.map_reverse]
  · rfl

/-- The first field is kept if it says something. -/
theorem exists_keptFields_cons (delimiter : Char) {first : String} (rest : List String)
    (h : isIdle first.toList = false) :
    ∃ rest', keptFields delimiter (first :: rest) = first :: rest' := by
  have hne : first ≠ "" := by
    rintro rfl
    cases h
  have hkept : keptFields delimiter (first :: rest) ≠ [] := by
    rw [keptFields]
    split
    · rw [Ne, List.rdropWhile_eq_nil_iff]
      exact fun hall => hne (by simpa using hall first (by simp))
    · exact List.cons_ne_nil _ _
  obtain ⟨f, rest', hcons⟩ := List.exists_cons_of_ne_nil hkept
  have hkeep := keptFields_isPrefix delimiter (first :: rest)
  rw [hcons] at hkeep
  exact ⟨rest', by rw [hcons, (List.cons_prefix_cons.1 hkeep).1]⟩

/-- A text on one line that is not empty is its only line. -/
theorem lines_of_not_mem {cs : List Char} (hne : cs ≠ []) (h : '\n' ∉ cs) : lines cs = [cs] := by
  obtain ⟨c, cs, rfl⟩ := List.exists_cons_of_ne_nil hne
  rw [lines, splitAtEach_of_not_mem h]
  rfl

variable {α : Type} [Tabular α]

namespace IsRow

variable (h : IsRow α delimiter row)
include h

theorem trim_piece {f : List Char} (hf : f ∈ row.map String.toList) :
    trimStart f = f ∧ trimEnd f = f := by
  obtain ⟨field, hfield, rfl⟩ := List.mem_map.1 hf
  exact trim_eq_self (h.trimmed field hfield)

/-- **The trimmed text of a row is that of the fields that are kept.** -/
theorem trim_joinFields : trim (joinFields delimiter row).toList =
    (joinFields delimiter (keptFields delimiter row)).toList := by
  obtain ⟨first, rest, hrow, hidle⟩ := h.not_idle
  have hpieces : row.map String.toList = first.toList :: rest.map String.toList := by
    rw [hrow, List.map_cons]
  have hne : first.toList ≠ [] := by
    intro hnil
    rw [hnil] at hidle
    cases hidle
  have hfirst : trimStart first.toList = first.toList := (h.trim_piece (by simp [hpieces])).1
  obtain ⟨tail, htail⟩ := exists_intercalate_cons delimiter first.toList (rest.map String.toList)
  rw [joinFields, joinFields, String.toList_ofList, String.toList_ofList, map_toList_keptFields,
    trim, ← trimEnd_intercalate ?_ fun f hf => (h.trim_piece hf).2]
  · rw [hpieces, htail, trimStart_append hne hfirst]
  · intro f hf
    rw [hpieces] at hf
    cases hf
    exact hne

/-- The trimmed text of a row starts like its first field. -/
theorem isIdle_trim_joinFields : isIdle (trim (joinFields delimiter row).toList) = false := by
  obtain ⟨first, rest, hrow, hidle⟩ := h.not_idle
  obtain ⟨rest', hkept⟩ := exists_keptFields_cons delimiter rest hidle
  obtain ⟨tail, htail⟩ := exists_intercalate_cons delimiter first.toList (rest'.map String.toList)
  rw [h.trim_joinFields, hrow, hkept, joinFields, String.toList_ofList, List.map_cons, htail]
  cases hfirst : first.toList with
  | nil =>
    rw [hfirst] at hidle
    cases hidle
  | cons c cs =>
    rw [hfirst] at hidle
    exact hidle

/-- The fields of the text of a row are those that are kept. -/
theorem fieldsOf_joinFields :
    fieldsOf delimiter (trim (joinFields delimiter row).toList) = keptFields delimiter row := by
  have hmem (f : String) (hf : f ∈ keptFields delimiter row) : f ∈ row :=
    (keptFields_isPrefix delimiter row).subset hf
  obtain ⟨first, rest, hrow, hidle⟩ := h.not_idle
  obtain ⟨rest', hkept⟩ := exists_keptFields_cons delimiter rest hidle
  have hne : (keptFields delimiter row).map String.toList ≠ [] := by
    rw [hrow, hkept]
    exact List.cons_ne_nil _ _
  have hfields (f : String) (hf : f ∈ keptFields delimiter row) :
      ((fun f => String.ofList (trim f)) ∘ String.toList) f = id f := by
    rw [Function.comp_apply, h.trimmed f (hmem f hf), String.ofList_toList, id]
  rw [h.trim_joinFields, fieldsOf, joinFields, String.toList_ofList, splitAtEach_intercalate hne,
    List.map_map, List.map_congr_left hfields, List.map_id]
  · intro f hf
    obtain ⟨field, hfield, rfl⟩ := List.mem_map.1 hf
    exact (h.free field (hmem field hfield)).1

theorem lines_joinFields :
    lines (joinFields delimiter row).toList = [(joinFields delimiter row).toList] := by
  refine lines_of_not_mem ?_ ?_
  · intro hnil
    have hidle := h.isIdle_trim_joinFields
    rw [hnil] at hidle
    cases hidle
  · intro hmem
    rw [joinFields, String.toList_ofList] at hmem
    rcases mem_intercalate hmem with hsep | ⟨f, hf, hc⟩
    · exact h.delimiter_ne hsep.symm
    · obtain ⟨field, hfield, rfl⟩ := List.mem_map.1 hf
      exact (h.free field hfield).2 hc

/-- The fields that are kept are not the names of the columns either. -/
theorem not_names_keptFields :
    isColumnNames (Tabular.columns α) (keptFields delimiter row) = false := by
  by_cases hself : keptFields delimiter row = row
  · rw [hself]
    exact h.not_names
  · have hlt := length_keptFields_lt hself
    rw [h.length_eq] at hlt
    exact isColumnNames_of_length_ne hlt.ne

/-- **The text of a row is read as one row**, of the fields that are kept. -/
theorem recordRows_joinFields :
    recordRows (Tabular.columns α) delimiter (joinFields delimiter row) =
      [⟨1, keptFields delimiter row⟩] := by
  rw [recordRows, h.lines_joinFields, rowsFrom, h.isIdle_trim_joinFields,
    if_neg Bool.false_ne_true, h.fieldsOf_joinFields, rowsFrom, dropColumnNames, h.not_names_keptFields, if_neg Bool.false_ne_true]

end IsRow
end

/-! ## Records -/

/-- A schema that counts the fields of a row, and has nothing to say against so many. -/
class CountsFields (α : Type) [Tabular α] : Prop where
  ofFields_of_length_ne : ∀ fields : List String, fields.length ≠ (Tabular.columns α).length →
    Tabular.ofFields (α := α) fields =
      .error (.fieldCount (Tabular.columns α).length fields.length)
  ofFields_ne : ∀ (fields : List String) (wanted found : Nat),
    fields.length = (Tabular.columns α).length →
    Tabular.ofFields (α := α) fields ≠ .error (.fieldCount wanted found)

/-- A refused field is no wrong number of fields. -/
theorem mapError_field_ne {β : Type} (r : Except InputError β) (wanted found : Nat) :
    r.mapError RowError.field ≠ .error (.fieldCount wanted found) := by
  cases r with
  | ok x => exact fun h => by cases h
  | error e => exact fun h => by cases h

instance [Trig] : CountsFields Place where
  ofFields_of_length_ne fields h := by
    show Place.ofFields fields = _
    unfold Place.ofFields
    split
    · exact absurd rfl h
    · rfl
  ofFields_ne fields wanted found h := by
    change fields.length = 6 at h
    match fields, h with
    | [_, _, _, _, _, _], _ => exact mapError_field_ne _ wanted found

instance [Trig] : CountsFields Airport where
  ofFields_of_length_ne fields h := by
    show Airport.ofFields fields = _
    unfold Airport.ofFields
    split
    · exact absurd rfl h
    · rfl
  ofFields_ne fields wanted found h := by
    change fields.length = 8 at h
    match fields, h with
    | [_, _, _, _, _, _, _, _], _ => exact mapError_field_ne _ wanted found

/-- **What is read of a row that was written with a delimiter.** It is read as one record, of the
fields that are kept. This is the record of the row itself just if the delimiter is not blank or the
last field is not empty. Otherwise the empty fields at the end are lost, and the row is refused for
having too few. -/
theorem readItems_joinFields {α : Type} [Tabular α] [CountsFields α] {delimiter : Char}
    {row : List String} (h : IsRow α delimiter row) :
    readItems α delimiter (joinFields delimiter row) =
      [itemOfRow α ⟨1, keptFields delimiter row⟩] ∧
    (readItems α delimiter (joinFields delimiter row) =
        [(Tabular.ofFields row).mapError (.badRow 1)] ↔
      isBlank delimiter = false ∨ row.getLast? ≠ some "") ∧
    (isBlank delimiter = true → row.getLast? = some "" →
      (keptFields delimiter row).length < (Tabular.columns α).length ∧
        readItems α delimiter (joinFields delimiter row) = [.error (.badRow 1
          (.fieldCount (Tabular.columns α).length (keptFields delimiter row).length))]) := by
  have hread : readItems α delimiter (joinFields delimiter row) =
      [itemOfRow α ⟨1, keptFields delimiter row⟩] := by
    rw [readItems, h.recordRows_joinFields, List.map_singleton]
  have hlost (hself : keptFields delimiter row ≠ row) :
      (keptFields delimiter row).length < (Tabular.columns α).length ∧
        readItems α delimiter (joinFields delimiter row) = [.error (.badRow 1
          (.fieldCount (Tabular.columns α).length (keptFields delimiter row).length))] := by
    have hlt := length_keptFields_lt hself
    rw [h.length_eq] at hlt
    refine ⟨hlt, ?_⟩
    rw [hread, itemOfRow, CountsFields.ofFields_of_length_ne _ hlt.ne]
    rfl
  refine ⟨hread, ⟨fun hsame => ?_, fun hkept => ?_⟩, fun hblank hlast => hlost fun hself => ?_⟩
  · rw [← keptFields_eq_self_iff]
    by_contra hself
    rw [(hlost hself).2] at hsame
    cases hrow : Tabular.ofFields (α := α) row with
    | ok x =>
      rw [hrow] at hsame
      cases hsame
    | error e =>
      rw [hrow] at hsame
      cases hsame
      exact CountsFields.ofFields_ne row _ _ h.length_eq hrow
  · rw [hread, keptFields_eq_self_iff.2 hkept]
    rfl
  · rcases keptFields_eq_self_iff.1 hself with hfalse | hne
    · rw [hblank] at hfalse
      cases hfalse
    · exact hne hlast

/-- A place without a description can be written with a comma and with a tab. -/
theorem isRow_place [Trig] {delimiter : Char} (h : delimiter = ',' ∨ delimiter = '\t') :
    IsRow Place delimiter ["A", "1", "2", "3", "k", ""] := by
  have hnames : isColumnNames ["name", "lat", "lon", "alt", "kind", "description"]
      ["A", "1", "2", "3", "k", ""] = false := by
    decide +kernel
  rcases h with rfl | rfl
  · exact ⟨by decide, rfl, by decide, by decide, ⟨_, _, rfl, by decide⟩, hnames⟩
  · exact ⟨by decide, rfl, by decide, by decide, ⟨_, _, rfl, by decide⟩, hnames⟩

/-- An airport of which it is not said whether it is towered can be written so too. -/
theorem isRow_airport [Trig] {delimiter : Char} (h : delimiter = ',' ∨ delimiter = '\t') :
    IsRow Airport delimiter ["A", "1", "2", "3", "c", "d", "4", ""] := by
  have hnames : isColumnNames ["id", "lat", "lon", "elevation_ft", "city", "country", "runways",
      "towered"] ["A", "1", "2", "3", "c", "d", "4", ""] = false := by
    decide +kernel
  rcases h with rfl | rfl
  · exact ⟨by decide, rfl, by decide, by decide, ⟨_, _, rfl, by decide⟩, hnames⟩
  · exact ⟨by decide, rfl, by decide, by decide, ⟨_, _, rfl, by decide⟩, hnames⟩

theorem readItems_joinFields_tabs :
    letI : Trig := nearestTrig
    readItems Place '\t' "A\t1\t2\t3\tk\t" = [.error (.badRow 1 (.fieldCount 6 5))] ∧
      readItems Place ',' "A,1,2,3,k," =
        [(Place.ofFields ["A", "1", "2", "3", "k", ""]).mapError (.badRow 1)] ∧
      readItems Airport '\t' "A\t1\t2\t3\tc\td\t4\t" = [.error (.badRow 1 (.fieldCount 8 7))] ∧
      readItems Airport ',' "A,1,2,3,c,d,4," =
        [(Airport.ofFields ["A", "1", "2", "3", "c", "d", "4", ""]).mapError (.badRow 1)] := by
  let _ : Trig := nearestTrig
  have hblank : isBlank '\t' = true := by decide
  have hcomma : isBlank ',' = false := by decide
  obtain ⟨-, -, htab⟩ := readItems_joinFields (isRow_place (.inr rfl))
  obtain ⟨-, hkept, -⟩ := readItems_joinFields (isRow_place (.inl rfl))
  obtain ⟨-, -, htab'⟩ := readItems_joinFields (isRow_airport (.inr rfl))
  obtain ⟨-, hkept', -⟩ := readItems_joinFields (isRow_airport (.inl rfl))
  exact ⟨(htab hblank rfl).2, hkept.2 (.inl hcomma), (htab' hblank rfl).2, hkept'.2 (.inl hcomma)⟩

end Gazetteer
