import Gazetteer.Proofs.Collecting

/-!
# Where a strict intake stops

A lenient intake passes over the rows that it refuses, and a strict one stops at the first of them.
Up to that row the two are one run. So a strict intake succeeds just if the lenient one refuses
nothing, and it ends like it; otherwise it ends with the first refusal of the lenient one, and keeps
what that one had taken by then.
-/

namespace Gazetteer

/-! ## The lines of rows -/

/-- A row is that of a line of a text: it has the number of the line, counted from one, and the
fields of the trimmed line, which says something. -/
def Row.IsLineOf (row : Row) (delimiter : Char) (ls : List (List Char)) : Prop :=
  ∃ before l after, ls = before ++ l :: after ∧ row.line = before.length + 1 ∧
    isIdle (trim l) = false ∧ row.fields = fieldsOf delimiter (trim l)

section
variable {delimiter : Char} {row : Row} {number : Nat}

theorem mem_rowsFrom {ls : List (List Char)} (h : row ∈ rowsFrom delimiter number ls) :
    ∃ before l after, ls = before ++ l :: after ∧ row.line = number + before.length ∧
      isIdle (trim l) = false ∧ row.fields = fieldsOf delimiter (trim l) := by
  induction ls generalizing number with
  | nil => cases h
  | cons l ls ih =>
    have hlater (h : row ∈ rowsFrom delimiter (number + 1) ls) :
        ∃ before l' after, l :: ls = before ++ l' :: after ∧ row.line = number + before.length ∧
          isIdle (trim l') = false ∧ row.fields = fieldsOf delimiter (trim l') := by
      obtain ⟨before, l', after, rfl, hline, hfields⟩ := ih h
      exact ⟨l :: before, l', after, rfl, by rw [hline, List.length_cons]; omega, hfields⟩
    rw [rowsFrom] at h
    split at h
    · exact hlater h
    · rename_i hidle
      rcases List.mem_cons.1 h with rfl | h
      · exact ⟨[], l, ls, rfl, rfl, by simpa using hidle, rfl⟩
      · exact hlater h

theorem mem_of_mem_dropColumnNames {columns : List String} {rows : List Row}
    (h : row ∈ dropColumnNames columns rows) : row ∈ rows := by
  cases rows with
  | nil => exact h
  | cons r rs =>
    rw [dropColumnNames] at h
    split at h
    · exact List.mem_cons_of_mem r h
    · exact h

/-- Each record of a text is that of one of its lines. -/
theorem isLineOf_of_mem_recordRows {columns : List String} {text : String}
    (h : row ∈ recordRows columns delimiter text) : row.IsLineOf delimiter (lines text.toList) := by
  obtain ⟨before, l, after, hls, hline, hfields⟩ := mem_rowsFrom (mem_of_mem_dropColumnNames h)
  exact ⟨before, l, after, hls, by rw [hline, Nat.add_comm], hfields⟩

end

namespace Draft

variable {α : Type} [Schema α] {d : Draft α} {rows : List (Except Error α)}

/-! ## Lenient and strict drafts -/

/-- The draft with settings that pass over refused rows, or that do not. -/
def withSkipping (d : Draft α) (skip : Bool) : Draft α :=
  { d with settings := { d.settings with skipInvalidRecords := skip } }

/-- The draft with some more items. -/
def pushAll (d : Draft α) (items : List α) : Draft α := items.foldl push d

@[simp] theorem pushAll_nil (d : Draft α) : d.pushAll [] = d := rfl

@[simp] theorem pushAll_cons (d : Draft α) (x : α) (items : List α) :
    d.pushAll (x :: items) = (d.push x).pushAll items := rfl

@[simp] theorem toList_pushAll (d : Draft α) (items : List α) :
    (d.pushAll items).toList = d.toList ++ items := by
  induction items generalizing d with
  | nil => simp
  | cons x items ih => simp [ih]

theorem size_pushAll (d : Draft α) (items : List α) :
    (d.pushAll items).size = d.size + items.length := by
  rw [size_eq, size_eq, toList_pushAll, List.length_append]

theorem pushAll_withSkipping (d : Draft α) (skip : Bool) (items : List α) :
    (d.withSkipping skip).pushAll items = (d.pushAll items).withSkipping skip := by
  induction items generalizing d with
  | nil => rfl
  | cons x items ih => exact ih (d.push x)

/-- Whether a row is refused does not depend on what is done with refused rows. -/
theorem screen_withSkipping (d : Draft α) (skip : Bool) (row : Except Error α) :
    (d.withSkipping skip).screen row = d.screen row := rfl

theorem takeLenient_withSkipping (d : Draft α) (skip : Bool) (rows : List (Except Error α)) :
    (d.withSkipping skip).takeLenient rows =
      ⟨(d.takeLenient rows).draft.withSkipping skip, (d.takeLenient rows).refusals⟩ := by
  induction rows generalizing d with
  | nil => rfl
  | cons row rows ih =>
    rw [takeLenient, takeLenient, screen_withSkipping]
    cases d.screen row with
    | ok item => exact ih (d.push item)
    | error e =>
      dsimp only
      rw [ih d]

theorem takeStrict_withSkipping (d : Draft α) (skip : Bool) (rows : List (Except Error α)) :
    (d.withSkipping skip).takeStrict rows =
      ⟨(d.takeStrict rows).draft.withSkipping skip, (d.takeStrict rows).refusals⟩ := by
  induction rows generalizing d with
  | nil => rfl
  | cons row rows ih =>
    rw [takeStrict, takeStrict, screen_withSkipping]
    cases d.screen row with
    | ok item => exact ih (d.push item)
    | error e => rfl

/-! ## The first refusal -/

/-- A lenient intake takes or refuses each row. -/
theorem exists_takeLenient_eq (d : Draft α) (rows : List (Except Error α)) :
    ∃ taken, (d.takeLenient rows).draft = d.pushAll taken ∧
      taken.length + (d.takeLenient rows).refusals.length = rows.length := by
  induction rows generalizing d with
  | nil => exact ⟨[], rfl, rfl⟩
  | cons row rows ih =>
    rw [takeLenient]
    cases d.screen row with
    | ok item =>
      obtain ⟨taken, hdraft, hlength⟩ := ih (d.push item)
      refine ⟨item :: taken, hdraft, ?_⟩
      dsimp only
      rw [List.length_cons, List.length_cons]
      omega
    | error e =>
      obtain ⟨taken, hdraft, hlength⟩ := ih d
      refine ⟨taken, hdraft, ?_⟩
      dsimp only
      rw [List.length_cons, List.length_cons]
      omega

/-- Without a refusal there is nothing to stop at. -/
theorem takeStrict_of_refusals_eq_nil (h : (d.takeLenient rows).refusals = []) :
    d.takeStrict rows = d.takeLenient rows := by
  induction rows generalizing d with
  | nil => rfl
  | cons row rows ih =>
    rw [takeLenient] at h ⊢
    rw [takeStrict]
    cases hs : d.screen row with
    | ok item =>
      rw [hs] at h
      exact ih h
    | error e =>
      rw [hs] at h
      cases h

/-- **Up to the first refusal a strict and a lenient intake are one run**, which takes every row. -/
theorem exists_first_refusal {r : Refusal} {rs : List Refusal}
    (h : (d.takeLenient rows).refusals = r :: rs) :
    ∃ taken row after e, rows = taken.map .ok ++ row :: after ∧
      d.takeLenient (taken.map .ok) = ⟨d.pushAll taken, []⟩ ∧
      (d.pushAll taken).screen row = .error e ∧ r = refusal row e ∧
      d.takeStrict rows = ⟨d.pushAll taken, [r]⟩ := by
  induction rows generalizing d with
  | nil => cases h
  | cons row rows ih =>
    rw [takeLenient] at h
    rw [takeStrict]
    cases hs : d.screen row with
    | ok item =>
      rw [hs] at h
      obtain ⟨taken, row', after, e, rfl, htaken, hscreen, hr, hstrict⟩ := ih h
      obtain ⟨rfl, -⟩ := screen_eq_ok.1 hs
      refine ⟨item :: taken, row', after, e, rfl, ?_, hscreen, hr, hstrict⟩
      rw [List.map_cons, takeLenient, hs]
      exact htaken
    | error e =>
      rw [hs] at h
      cases h
      exact ⟨[], row, rows, e, rfl, rfl, hs, rfl, rfl⟩

theorem add_eq_error_iff {item : α} {e : Error} : d.add item = .error e ↔ d.check item = .error e := by
  unfold add
  cases d.check item <;> simp

/-- A row is refused because it is no record, or because its item is not taken. -/
theorem screen_eq_error {row : Except Error α} {e : Error} : d.screen row = .error e ↔
    row = .error e ∨ ∃ item, row = .ok item ∧ d.add item = .error e := by
  simp only [add_eq_error_iff]
  unfold screen
  cases row with
  | error e' => simp
  | ok item => cases hc : d.check item <;> simp [hc]

end Draft

/-! ## Texts -/

namespace Draft

variable {α : Type} [Tabular α]

/-- How the intake of a text ends: with a count or an error, and with the draft that it leaves. -/
def ending (d : Draft α) (delimiter : Char) (text : String) : Except Error Nat × Draft α :=
  let i := d.takeText delimiter text
  (intakeOutcome d i, i.draft)

/-- The first row of a text that a draft refuses, with the items taken before it and the cause: the
row is no record, which is said with the number of its line, or its item cannot be added. -/
structure FirstRefused (d : Draft α) (delimiter : Char) (text : String) (taken : List α)
    (row : Row) (cause : Error) : Prop where
  rows_eq : ∃ before after, recordRows (Tabular.columns α) delimiter text = before ++ row :: after ∧
    before.map (itemOfRow α) = taken.map .ok
  taken_eq : d.takeLenient (taken.map .ok) = ⟨d.pushAll taken, []⟩
  line : row.IsLineOf delimiter (lines text.toList)
  cause_cases :
    (∃ c, Tabular.ofFields (α := α) row.fields = .error c ∧ cause = .badRow row.line c) ∨
      ∃ item, Tabular.ofFields row.fields = .ok item ∧ (d.pushAll taken).add item = .error cause

variable {d : Draft α} {delimiter : Char} {text : String} {taken : List α} {row : Row}
  {cause : Error}

theorem FirstRefused.withSkipping (h : d.FirstRefused delimiter text taken row cause)
    (skip : Bool) : (d.withSkipping skip).FirstRefused delimiter text taken row cause where
  rows_eq := h.rows_eq
  taken_eq := by rw [takeLenient_withSkipping, h.taken_eq, pushAll_withSkipping]
  line := h.line
  cause_cases := by
    refine h.cause_cases.imp_right fun ⟨item, hrow, hadd⟩ => ⟨item, hrow, ?_⟩
    rw [add_eq_error_iff, pushAll_withSkipping] at *
    exact hadd

theorem ending_withSkipping_true (d : Draft α) (delimiter : Char) (text : String) :
    let i := d.takeLenient (readItems α delimiter text)
    (d.withSkipping true).ending delimiter text =
      (.ok (i.draft.size - d.size), i.draft.withSkipping true) := by
  have hrun : (d.withSkipping true).takeText delimiter text =
      (d.withSkipping true).takeLenient (readItems α delimiter text) := rfl
  dsimp only
  rw [ending, hrun, takeLenient_withSkipping]
  rfl

theorem ending_withSkipping_false (d : Draft α) (delimiter : Char) (text : String) :
    let i := d.takeStrict (readItems α delimiter text)
    (d.withSkipping false).ending delimiter text =
      (match i.refusals with
        | [] => .ok (i.draft.size - d.size)
        | r :: _ => .error r.cause, i.draft.withSkipping false) := by
  have hrun : (d.withSkipping false).takeText delimiter text =
      (d.withSkipping false).takeStrict (readItems α delimiter text) := rfl
  dsimp only
  rw [ending, hrun, takeStrict_withSkipping]
  dsimp only
  rw [intakeOutcome]
  cases (d.takeStrict (readItems α delimiter text)).refusals <;> rfl

/-- The item of a row is that of its fields, and so is the refusal. -/
theorem itemOfRow_cases (row : Row) :
    (∃ c, Tabular.ofFields (α := α) row.fields = .error c ∧
      itemOfRow α row = .error (.badRow row.line c)) ∨
      ∃ item, Tabular.ofFields row.fields = .ok item ∧ itemOfRow α row = .ok item := by
  rw [itemOfRow]
  cases Tabular.ofFields (α := α) row.fields with
  | error c => exact Or.inl ⟨c, rfl, rfl⟩
  | ok item => exact Or.inr ⟨item, rfl, rfl⟩

theorem exists_firstRefused {r : Refusal} {rs : List Refusal}
    (h : (d.takeLenient (readItems α delimiter text)).refusals = r :: rs) :
    ∃ taken row, d.FirstRefused delimiter text taken row r.cause ∧
      d.takeStrict (readItems α delimiter text) = ⟨d.pushAll taken, [r]⟩ := by
  obtain ⟨taken, row?, rest, e, hrows, htaken, hscreen, rfl, hstrict⟩ := exists_first_refusal h
  obtain ⟨before, tail, hrecords, hbefore, htail⟩ := List.map_eq_append_iff.1 hrows
  obtain ⟨row, after, rfl, rfl, -⟩ := List.map_eq_cons_iff.1 htail
  have hmem : row ∈ recordRows (Tabular.columns α) delimiter text := by
    rw [hrecords]
    simp
  refine ⟨taken, row, ⟨⟨before, after, hrecords, hbefore⟩, htaken,
    isLineOf_of_mem_recordRows hmem, ?_⟩, hstrict⟩
  rcases itemOfRow_cases (α := α) row with ⟨c, hfields, hrow⟩ | ⟨item, hfields, hrow⟩
  · rw [hrow] at hscreen
    cases hscreen
    exact Or.inl ⟨c, hfields, rfl⟩
  · rw [hrow, screen_eq_error] at hscreen
    obtain hscreen | ⟨item, hitem, hadd⟩ := hscreen
    · cases hscreen
    · cases hitem
      exact Or.inr ⟨item, hfields, hadd⟩

theorem refusals_takeText_lenient (d : Draft α) (delimiter : Char) (text : String) :
    ((d.withSkipping true).takeText delimiter text).refusals =
      (d.takeLenient (readItems α delimiter text)).refusals := by
  have hrun : (d.withSkipping true).takeText delimiter text =
      (d.withSkipping true).takeLenient (readItems α delimiter text) := rfl
  rw [hrun, takeLenient_withSkipping]

/-- A lenient intake of a text takes items and counts them. -/
theorem ending_lenient {taken : List α}
    (h : (d.takeLenient (readItems α delimiter text)).draft = d.pushAll taken) :
    (d.withSkipping true).ending delimiter text =
      (.ok taken.length, (d.withSkipping true).pushAll taken) := by
  have htrue := d.ending_withSkipping_true delimiter text
  dsimp only at htrue
  rw [htrue, h, size_pushAll, Nat.add_sub_cancel_left, pushAll_withSkipping]

/-- A strict intake of a text of which nothing is refused takes the same items. -/
theorem ending_strict_of_refusals_eq_nil {taken : List α}
    (h : (d.takeLenient (readItems α delimiter text)).draft = d.pushAll taken)
    (hnone : (d.takeLenient (readItems α delimiter text)).refusals = []) :
    (d.withSkipping false).ending delimiter text =
      (.ok taken.length, (d.withSkipping false).pushAll taken) := by
  have hfalse := d.ending_withSkipping_false delimiter text
  dsimp only at hfalse
  rw [hfalse, takeStrict_of_refusals_eq_nil hnone, hnone, h, size_pushAll, Nat.add_sub_cancel_left,
    pushAll_withSkipping]

/-- A strict intake of a text ends with the first refusal of the lenient one. -/
theorem ending_strict_of_refusals_eq_cons {r : Refusal} {rs : List Refusal}
    (h : (d.takeLenient (readItems α delimiter text)).refusals = r :: rs) : ∃ taken row,
      (d.withSkipping true).FirstRefused delimiter text taken row r.cause ∧
      (d.withSkipping false).ending delimiter text =
        (.error r.cause, (d.withSkipping false).pushAll taken) := by
  obtain ⟨taken, row, hfirst, hstrict⟩ := exists_firstRefused h
  have hfalse := d.ending_withSkipping_false delimiter text
  dsimp only at hfalse
  exact ⟨taken, row, hfirst.withSkipping true, by rw [hfalse, hstrict, pushAll_withSkipping]⟩

/-- **A strict intake ends at the first row that a lenient one passes over.** From the same draft
and with the same text, the lenient intake always succeeds, and counts the items that it took. The
strict one succeeds just if the lenient one refused no row, and then both took the same items.
Otherwise the strict one ends with the first refusal, and has taken what the lenient one took before
it. In place, row by row, both runs have the same outcome and leave the same draft. -/
theorem ending_strict_of_lenient (d : Draft α) (delimiter : Char) (text : String) :
    let lenient := (d.withSkipping true).takeText delimiter text
    (∀ skip, InPlace.take (readItems α delimiter text) (d.withSkipping skip) =
      match (d.withSkipping skip).ending delimiter text with
      | (.ok count, d') => .ok count d'
      | (.error e, d') => .error e d') ∧
    (∃ taken, (d.withSkipping true).ending delimiter text =
        (.ok taken.length, (d.withSkipping true).pushAll taken) ∧
      lenient.draft.toList = d.toList ++ taken ∧
      taken.length + lenient.refusals.length = (readItems α delimiter text).length) ∧
    ((∃ count, ((d.withSkipping false).ending delimiter text).1 = .ok count) ↔
      lenient.refusals = []) ∧
    (lenient.refusals = [] → ∃ taken, ∀ skip, (d.withSkipping skip).ending delimiter text =
      (.ok taken.length, (d.withSkipping skip).pushAll taken)) ∧
    ∀ r rs, lenient.refusals = r :: rs → ∃ taken row,
      (d.withSkipping true).FirstRefused delimiter text taken row r.cause ∧
      (d.withSkipping false).ending delimiter text =
        (.error r.cause, (d.withSkipping false).pushAll taken) := by
  intro lenient
  have hrefusals : lenient.refusals = (d.takeLenient (readItems α delimiter text)).refusals :=
    refusals_takeText_lenient d delimiter text
  obtain ⟨taken, hdraft, hlength⟩ := d.exists_takeLenient_eq (readItems α delimiter text)
  have hlenient := ending_lenient hdraft
  rw [hrefusals]
  refine ⟨fun skip => ?_, ⟨taken, hlenient, ?_, hlength⟩, ⟨?_, ?_⟩, fun hr => ⟨taken, fun skip => ?_⟩,
    fun r rs => ending_strict_of_refusals_eq_cons⟩
  · rw [InPlace.take_eq, ending, takeText]
    cases intakeOutcome _ _ <;> rfl
  · have hend : lenient.draft = (d.withSkipping true).pushAll taken := congrArg Prod.snd hlenient
    rw [hend]
    exact toList_pushAll _ taken
  · rintro ⟨count, hok⟩
    cases hr : (d.takeLenient (readItems α delimiter text)).refusals with
    | nil => rfl
    | cons r rs =>
      obtain ⟨taken, row, -, hend⟩ := ending_strict_of_refusals_eq_cons hr
      rw [hend] at hok
      cases hok
  · intro hr
    exact ⟨taken.length, by rw [ending_strict_of_refusals_eq_nil hdraft hr]⟩
  · cases skip with
    | true => exact hlenient
    | false => exact ending_strict_of_refusals_eq_nil hdraft hr

end Draft
end Gazetteer
