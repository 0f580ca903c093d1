import Mathlib.Data.List.DropRight
import Gazetteer.Proofs.FirstRefusal
import Gazetteer.Proofs.PathParts

/-!
# Rows line by line

A line says something or nothing, whatever the other lines are. So the rows of a text are those of
its lines one after another, and a line adds to the others only its place among them: the rows behind
it have higher numbers. Blanks at the ends of a line say nothing.
-/

namespace Gazetteer

/-! ## Pieces put together -/

section
variable {sep : Char} {as bs q : List Char} {qs : List (List Char)}

theorem exists_splitAtEach_cons (sep : Char) (cs : List Char) :
    ∃ q qs, splitAtEach sep cs = q :: qs :=
  List.exists_cons_of_ne_nil (splitAtEach_ne_nil sep cs)

/-- What is put in front without a separator comes to the first piece. -/
theorem splitAtEach_append_of_not_mem (h : sep ∉ as) (hq : splitAtEach sep bs = q :: qs) :
    splitAtEach sep (as ++ bs) = (as ++ q) :: qs := by
  induction as with
  | nil => exact hq
  | cons a as ih =>
    rw [List.mem_cons, not_or] at h
    rw [List.cons_append, splitAtEach, if_neg (Ne.symm h.1), ih h.2]
    rfl

/-- What is put behind a text only meets its last piece. -/
theorem exists_lastPiece (sep : Char) (as : List Char) : ∃ ps p, sep ∉ p ∧
    ∀ bs, splitAtEach sep (as ++ bs) = ps ++ splitAtEach sep (p ++ bs) := by
  induction as using List.reverseRecOn with
  | nil => exact ⟨[], [], List.not_mem_nil, fun bs => rfl⟩
  | append_singleton as c ih =>
    by_cases hc : c = sep
    · refine ⟨splitAtEach sep as, [], List.not_mem_nil, fun bs => ?_⟩
      rw [List.append_assoc, hc, List.singleton_append, splitAtEach_append_cons, List.nil_append]
    · obtain ⟨ps, p, hp, happ⟩ := ih
      refine ⟨ps, p ++ [c], by simp [hp, Ne.symm hc], fun bs => ?_⟩
      rw [List.append_assoc, happ, List.append_assoc]

/-- There is one piece more than separators. -/
theorem length_splitAtEach (sep : Char) (cs : List Char) :
    (splitAtEach sep cs).length = cs.count sep + 1 := by
  induction cs with
  | nil => rfl
  | cons c cs ih =>
    rw [splitAtEach]
    by_cases hc : c = sep
    · rw [if_pos hc, List.length_cons, ih, hc, List.count_cons_self]
    · obtain ⟨p, ps, hp⟩ := exists_splitAtEach_cons sep cs
      rw [hp] at ih
      rw [if_neg hc, hp, List.count_cons_of_ne hc, ← ih]
      rfl

end

/-! ## Blanks at the ends -/

/-- The characters are all blank. -/
def AllBlank (cs : List Char) : Prop := ∀ c ∈ cs, isBlank c = true

section
variable {blanks cs : List Char}

theorem AllBlank.trimStart_append (h : AllBlank blanks) : trimStart (blanks ++ cs) = trimStart cs :=
  List.dropWhile_append_of_pos h

/-- A text of which something is left keeps what is put behind it. -/
theorem trimStart_append_of_ne_nil {ds : List Char} (h : trimStart cs ≠ []) :
    trimStart (cs ++ ds) = trimStart cs ++ ds := by
  rw [trimStart, List.dropWhile_append, if_neg]
  · rfl
  · simpa [trimStart] using h

theorem AllBlank.trim_append (h : AllBlank blanks) : trim (blanks ++ cs) = trim cs := by
  rw [trim, h.trimStart_append, trim]

theorem AllBlank.trimEnd_append (h : AllBlank blanks) : trimEnd (cs ++ blanks) = trimEnd cs := by
  have hreverse : ∀ c ∈ blanks.reverse, isBlank c = true := fun c hc => h c (List.mem_reverse.1 hc)
  rw [trimEnd, List.reverse_append, List.dropWhile_append_of_pos hreverse, trimEnd]

theorem AllBlank.append_trim (h : AllBlank blanks) : trim (cs ++ blanks) = trim cs := by
  by_cases hcs : trimStart cs = []
  · have hall : AllBlank cs := List.dropWhile_eq_nil_iff.1 hcs
    rw [trim, hall.trimStart_append, trim, hcs, trimStart, List.dropWhile_eq_nil_iff.2 h]
  · rw [trim, trimStart_append_of_ne_nil hcs, h.trimEnd_append, trim]

/-- A text is its trimmed form between blanks. -/
theorem exists_eq_blanks_trim (cs : List Char) :
    ∃ before after, AllBlank before ∧ AllBlank after ∧ cs = before ++ (trim cs ++ after) := by
  refine ⟨cs.takeWhile isBlank, (trimStart cs).rtakeWhile isBlank, ?_, ?_, ?_⟩
  · exact fun c hc => List.mem_takeWhile_imp hc
  · exact fun c hc => List.mem_rtakeWhile_imp hc
  · have hend : trim cs ++ (trimStart cs).rtakeWhile isBlank = trimStart cs :=
      List.rdropWhile_append_rtakeWhile
    rw [hend]
    exact List.takeWhile_append_dropWhile.symm

/-- Whether a line is idle is seen at its start. -/
theorem isIdle_trim (cs : List Char) : isIdle (trim cs) = isIdle (trimStart cs) := by
  cases hcs : trimStart cs with
  | nil => rw [trim, hcs]; rfl
  | cons c rest =>
    have hc : isBlank c = false := by
      have hdrop : cs.dropWhile isBlank = c :: rest := hcs
      have hhead := List.head?_dropWhile_not isBlank cs
      rw [hdrop] at hhead
      exact hhead
    obtain ⟨kept, hkept⟩ : trimEnd (c :: rest) <+: c :: rest := List.rdropWhile_prefix isBlank _
    cases htrim : trimEnd (c :: rest) with
    | nil =>
      have hall : ∀ x ∈ c :: rest, isBlank x = true := List.rdropWhile_eq_nil_iff.1 htrim
      rw [hall c (by simp)] at hc
      cases hc
    | cons c' rest' =>
      rw [htrim, List.cons_append, List.cons.injEq] at hkept
      rw [trim, hcs, htrim, hkept.1]
      rfl

end

/-! ## Fields and blanks -/

section
variable {delimiter : Char} {blanks cs p q : List Char}

/-- Fields on two sides of a delimiter. -/
theorem fieldsOf_append_cons (delimiter : Char) (p q : List Char) :
    fieldsOf delimiter (p ++ delimiter :: q) = fieldsOf delimiter p ++ fieldsOf delimiter q := by
  rw [fieldsOf, splitAtEach_append_cons, List.map_append]
  rfl

theorem AllBlank.not_mem (h : AllBlank blanks) (hd : isBlank delimiter = false) :
    delimiter ∉ blanks := by
  intro hmem
  rw [h delimiter hmem] at hd
  cases hd

/-- Blanks at the start of a text come to its first field, and are trimmed. -/
theorem AllBlank.fieldsOf_append (h : AllBlank blanks) (hd : isBlank delimiter = false) :
    fieldsOf delimiter (blanks ++ cs) = fieldsOf delimiter cs := by
  obtain ⟨q, qs, hq⟩ := exists_splitAtEach_cons delimiter cs
  rw [fieldsOf, splitAtEach_append_of_not_mem (h.not_mem hd) hq, fieldsOf, hq, List.map_cons,
    List.map_cons, h.trim_append]

/-- Blanks at the end of a text come to its last field, and are trimmed. -/
theorem AllBlank.append_fieldsOf (h : AllBlank blanks) (hd : isBlank delimiter = false) :
    fieldsOf delimiter (cs ++ blanks) = fieldsOf delimiter cs := by
  obtain ⟨ps, p, hp, happ⟩ := exists_lastPiece delimiter cs
  have hcs := happ []
  rw [List.append_nil, List.append_nil, splitAtEach_of_not_mem hp] at hcs
  have hmem : delimiter ∉ p ++ blanks := by simp [hp, h.not_mem hd]
  rw [fieldsOf, happ, splitAtEach_of_not_mem hmem, fieldsOf, hcs, List.map_append, List.map_append,
    List.map_singleton, List.map_singleton, h.append_trim]

/-- A line need not be trimmed before it is split, if the delimiter is not blank. -/
theorem fieldsOf_trim (hd : isBlank delimiter = false) (cs : List Char) :
    fieldsOf delimiter (trim cs) = fieldsOf delimiter cs := by
  obtain ⟨before, after, hbefore, hafter, hcs⟩ := exists_eq_blanks_trim cs
  conv_rhs => rw [hcs]
  rw [hbefore.fieldsOf_append hd, hafter.append_fieldsOf hd]

end

/-! ## What a line says -/

/-- The fields of a line, if it says something. -/
def lineFields? (delimiter : Char) (line : List Char) : Option (List String) :=
  if isIdle (trim line) then none else some (fieldsOf delimiter (trim line))

/-- The row with another number. -/
def Row.moved (move : Nat → Nat) (r : Row) : Row := ⟨move r.line, r.fields⟩

section
variable {delimiter : Char} {number : Nat} {l : List Char} {ls ls' : List (List Char)}

theorem rowsFrom_cons (delimiter : Char) (number : Nat) (l : List Char) (ls : List (List Char)) :
    rowsFrom delimiter number (l :: ls) =
      (lineFields? delimiter l).toList.map (⟨number, ·⟩) ++ rowsFrom delimiter (number + 1) ls := by
  rw [rowsFrom, lineFields?]
  split <;> rfl

/-- The rows of lines are those of the first of them, then those of the others. -/
theorem rowsFrom_append (delimiter : Char) (number : Nat) (ls ls' : List (List Char)) :
    rowsFrom delimiter number (ls ++ ls') =
      rowsFrom delimiter number ls ++ rowsFrom delimiter (number + ls.length) ls' := by
  induction ls generalizing number with
  | nil => rfl
  | cons l ls ih =>
    rw [List.cons_append, rowsFrom_cons, rowsFrom_cons, ih, List.append_assoc, List.length_cons,
      Nat.add_assoc, Nat.add_comm 1]

/-- Lines that say the same have the same rows. -/
theorem rowsFrom_congr (h : ls.map (lineFields? delimiter) = ls'.map (lineFields? delimiter)) :
    rowsFrom delimiter number ls = rowsFrom delimiter number ls' := by
  induction ls generalizing number ls' with
  | nil => rw [List.map_eq_nil_iff.1 h.symm]
  | cons l ls ih =>
    obtain ⟨l', rest, rfl, hl, hrest⟩ := List.map_eq_cons_iff.1 h.symm
    rw [rowsFrom_cons, rowsFrom_cons, hl, ih hrest.symm]

/-- Lines further down have the same rows with higher numbers. -/
theorem rowsFrom_add (delimiter : Char) (number k : Nat) (ls : List (List Char)) :
    rowsFrom delimiter (number + k) ls = (rowsFrom delimiter number ls).map (.moved (· + k)) := by
  induction ls generalizing number with
  | nil => rfl
  | cons l ls ih =>
    rw [rowsFrom_cons, rowsFrom_cons, List.map_append, ← ih, List.map_map, Nat.add_right_comm]
    rfl

/-- The rows of lines have the numbers of lines. -/
theorem line_bounds_of_mem_rowsFrom {r : Row} (h : r ∈ rowsFrom delimiter number ls) :
    number ≤ r.line ∧ r.line < number + ls.length := by
  obtain ⟨before, l, after, rfl, hline, -⟩ := mem_rowsFrom h
  rw [hline, List.length_append, List.length_cons]
  omega

theorem rowsFrom_dropEmptyLast (delimiter : Char) (number : Nat) (ls : List (List Char)) :
    rowsFrom delimiter number (dropEmptyLast ls) = rowsFrom delimiter number ls := by
  fun_induction dropEmptyLast ls generalizing number with
  | case1 => rfl
  | case2 => rfl
  | case3 l ls _ ih => rw [rowsFrom_cons, rowsFrom_cons, ih]

end

/-! ## The rows of a text -/

/-- The rows of a text, that of the names of the columns among them. -/
def textRows (delimiter : Char) (text : List Char) : List Row :=
  rowsFrom delimiter 1 (splitAtEach '\n' text)

theorem recordRows_eq (columns : List String) (delimiter : Char) (text : String) :
    recordRows columns delimiter text =
      dropColumnNames columns (textRows delimiter text.toList) := by
  rw [recordRows, lines, rowsFrom_dropEmptyLast, textRows]

/-- The rows behind a line break are those of the text behind it, with higher numbers. -/
theorem textRows_append_cons (delimiter : Char) (as bs : List Char) :
    textRows delimiter (as ++ '\n' :: bs) = textRows delimiter as ++
      (textRows delimiter bs).map (.moved (· + (as.count '\n' + 1))) := by
  rw [textRows, splitAtEach_append_cons, rowsFrom_append, length_splitAtEach, rowsFrom_add]
  rfl

/-- The numbers of rows make no difference to which of them is that of the names of the columns. -/
theorem dropColumnNames_map_moved (columns : List String) (move : Nat → Nat) (rows : List Row) :
    dropColumnNames columns (rows.map (.moved move)) =
      (dropColumnNames columns rows).map (.moved move) := by
  cases rows with
  | nil => rfl
  | cons r rs =>
    rw [List.map_cons, dropColumnNames, dropColumnNames]
    have hfields : (r.moved move).fields = r.fields := rfl
    rw [hfields]
    split <;> rfl

end Gazetteer
