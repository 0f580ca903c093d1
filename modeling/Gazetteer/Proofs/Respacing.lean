import Mathlib.Logic.Relation
import Gazetteer.Item.Airport
import Gazetteer.Item.Place
import Gazetteer.Proofs.NearestTrig
import Gazetteer.Proofs.RowsByLine

/-!
# The same records in another layout

Lines that say nothing, carriage returns, and blanks around lines and fields are the layout of a text.
`Respacing` is one change of it, together with where the change moves the lines. The records stay the
same under any such changes, and only the numbers of lines move with the lines: in each text a refusal
names the line that it is about.
-/

namespace Gazetteer

/-! ## Places in a text -/

/-- Behind this part of a text a line starts. -/
inductive StartsLine : List Char → Prop
  | text : StartsLine []
  | line (before : List Char) : StartsLine (before ++ ['\n'])

/-- In front of this part of a text a line ends. -/
inductive EndsLine : List Char → Prop
  | text : EndsLine []
  | line (after : List Char) : EndsLine ('\n' :: after)

/-- A line of a text, with its number counted from one. -/
def IsNumberedLine (text : List Char) (number : Nat) (line : List Char) : Prop :=
  ∃ before after, text = before ++ (line ++ after) ∧ StartsLine before ∧ EndsLine after ∧
    '\n' ∉ line ∧ number = before.count '\n' + 1

/-- A line that says nothing: only blanks, or a comment behind them. -/
inductive SaysNothing : List Char → Prop
  | blank {line : List Char} (h : AllBlank line) (hline : '\n' ∉ line) : SaysNothing line
  | comment {blanks text : List Char} (h : AllBlank blanks) (hline : '\n' ∉ blanks ++ '#' :: text) :
    SaysNothing (blanks ++ '#' :: text)

/-- The text with a carriage return before each line break. -/
def withReturns (text : List Char) : List Char :=
  text.flatMap fun c => if c = '\n' then ['\r', '\n'] else [c]

/-- One line more behind the first lines. -/
def pushedBack (first : Nat) (number : Nat) : Nat := if number ≤ first then number else number + 1

/-- One change of the layout of a text with some delimiter, and where it moves the lines. -/
inductive Respacing (delimiter : Char) : List Char → List Char → (Nat → Nat) → Prop
  /-- A line that says nothing is put in where a line starts. -/
  | line {before l : List Char} (after : List Char) (hbefore : StartsLine before)
    (hl : SaysNothing l) : Respacing delimiter (before ++ after) (before ++ (l ++ '\n' :: after))
      (pushedBack (before.count '\n'))
  /-- A line that says nothing is added behind the last line. -/
  | lastLine {l : List Char} (text : List Char) (hl : SaysNothing l) :
    Respacing delimiter text (text ++ '\n' :: l) id
  /-- A line that says nothing is added behind the last line break. -/
  | lastText {text l : List Char} (htext : StartsLine text) (hl : SaysNothing l) :
    Respacing delimiter text (text ++ l) id
  /-- Each line break gets a carriage return. -/
  | returns (text : List Char) : Respacing delimiter text (withReturns text) id
  /-- Blanks are put in where a line starts. -/
  | start {before blanks : List Char} (after : List Char) (hbefore : StartsLine before)
    (h : AllBlank blanks) (hline : '\n' ∉ blanks) :
    Respacing delimiter (before ++ after) (before ++ (blanks ++ after)) id
  /-- Blanks are put in where a line ends. -/
  | stop {after blanks : List Char} (before : List Char) (hafter : EndsLine after)
    (h : AllBlank blanks) (hline : '\n' ∉ blanks) :
    Respacing delimiter (before ++ after) (before ++ (blanks ++ after)) id
  /-- Blanks are put in before a delimiter. -/
  | beforeDelimiter {blanks : List Char} (before after : List Char) (h : AllBlank blanks)
    (hline : '\n' ∉ blanks) : Respacing delimiter (before ++ delimiter :: after)
      (before ++ (blanks ++ delimiter :: after)) id
  /-- Blanks are put in behind a delimiter. -/
  | behindDelimiter {blanks : List Char} (before after : List Char) (h : AllBlank blanks)
    (hline : '\n' ∉ blanks) : Respacing delimiter (before ++ delimiter :: after)
      (before ++ delimiter :: (blanks ++ after)) id

/-- Texts that differ in their layout: changes of it, made or undone, lead from one to the other. -/
def Respaced (delimiter : Char) : String → String → Prop :=
  Relation.EqvGen fun s t => ∃ move, Respacing delimiter s.toList t.toList move

/-! ## Lines that say nothing, and lines that say the same -/

section
variable {delimiter : Char} {blanks l p q : List Char}

theorem SaysNothing.newline_not_mem (h : SaysNothing l) : '\n' ∉ l := by
  cases h with
  | blank _ hline => exact hline
  | comment _ hline => exact hline

theorem SaysNothing.lineFields?_eq (h : SaysNothing l) : lineFields? delimiter l = none := by
  have hidle : isIdle (trim l) = true := by
    rw [isIdle_trim]
    cases h with
    | blank h _ =>
      rw [trimStart, List.dropWhile_eq_nil_iff.2 h]
      rfl
    | comment h _ =>
      rw [h.trimStart_append]
      rfl
  rw [lineFields?, if_pos hidle]

theorem AllBlank.lineFields?_append (h : AllBlank blanks) :
    lineFields? delimiter (blanks ++ l) = lineFields? delimiter l := by
  rw [lineFields?, h.trim_append, lineFields?]

theorem AllBlank.append_lineFields? (h : AllBlank blanks) :
    lineFields? delimiter (l ++ blanks) = lineFields? delimiter l := by
  rw [lineFields?, h.append_trim, lineFields?]

/-- A line need not be trimmed to see what it says, if the delimiter is not blank. -/
theorem lineFields?_eq (hd : isBlank delimiter = false) (l : List Char) : lineFields? delimiter l =
    if isIdle (trimStart l) then none else some (fieldsOf delimiter l) := by
  rw [lineFields?, isIdle_trim, fieldsOf_trim hd]

/-- Whether a line with a delimiter is idle is seen in front of the delimiter, or at it. -/
theorem isIdle_trimStart_append_cons (hd : isBlank delimiter = false) (p q : List Char) :
    isIdle (trimStart (p ++ delimiter :: q)) = isIdle (trimStart p ++ [delimiter]) := by
  by_cases hp : trimStart p = []
  · have hall : AllBlank p := List.dropWhile_eq_nil_iff.1 hp
    rw [hall.trimStart_append, hp, trimStart, List.dropWhile_cons_of_neg (by simp [hd])]
    rfl
  · obtain ⟨c, rest, hc⟩ := List.exists_cons_of_ne_nil hp
    rw [trimStart_append_of_ne_nil hp, hc]
    rfl

/-- Blanks behind a delimiter come to the field behind it. -/
theorem AllBlank.lineFields?_behind (h : AllBlank blanks) (hd : isBlank delimiter = false)
    (p q : List Char) : lineFields? delimiter (p ++ delimiter :: (blanks ++ q)) =
      lineFields? delimiter (p ++ delimiter :: q) := by
  rw [lineFields?_eq hd, lineFields?_eq hd, isIdle_trimStart_append_cons hd,
    isIdle_trimStart_append_cons hd, fieldsOf_append_cons, fieldsOf_append_cons,
    h.fieldsOf_append hd]

/-- Blanks before a delimiter come to the field in front of it. -/
theorem AllBlank.lineFields?_before (h : AllBlank blanks) (hd : isBlank delimiter = false)
    (p q : List Char) : lineFields? delimiter (p ++ (blanks ++ delimiter :: q)) =
      lineFields? delimiter (p ++ delimiter :: q) := by
  have hidle : isIdle (trimStart (p ++ blanks) ++ [delimiter]) =
      isIdle (trimStart p ++ [delimiter]) := by
    by_cases hp : trimStart p = []
    · have hall : AllBlank p := List.dropWhile_eq_nil_iff.1 hp
      have hblanks : trimStart blanks = [] := List.dropWhile_eq_nil_iff.2 h
      rw [hall.trimStart_append, hblanks, hp]
    · obtain ⟨c, rest, hc⟩ := List.exists_cons_of_ne_nil hp
      rw [trimStart_append_of_ne_nil hp, hc]
      rfl
  rw [← List.append_assoc, lineFields?_eq hd, lineFields?_eq hd, isIdle_trimStart_append_cons hd,
    isIdle_trimStart_append_cons hd, hidle, fieldsOf_append_cons, fieldsOf_append_cons,
    h.append_fieldsOf hd]

end

/-! ## Rows of a text -/

section
variable {delimiter : Char} {blanks before after l m m' q : List Char} {qs : List (List Char)}

theorem SaysNothing.textRows_eq (h : SaysNothing l) : textRows delimiter l = [] := by
  rw [textRows, splitAtEach_of_not_mem h.newline_not_mem, rowsFrom_cons, h.lineFields?_eq]
  rfl

/-- The rows of a text behind which a line starts stay as they are, whatever is put behind it. -/
theorem StartsLine.textRows_append (h : StartsLine before) (after : List Char) :
    textRows delimiter (before ++ after) = textRows delimiter before ++
      (textRows delimiter after).map (.moved (· + before.count '\n')) := by
  cases h with
  | text =>
    have hmoved : Row.moved (· + 0) = id := rfl
    rw [List.count_nil, hmoved, List.map_id]
    rfl
  | line before =>
    have hnone : textRows delimiter [] = [] := rfl
    rw [List.append_assoc, List.singleton_append, textRows_append_cons, textRows_append_cons, hnone,
      List.map_nil, List.append_nil, List.count_append, List.count_singleton_self]

theorem StartsLine.line_le (h : StartsLine before) {r : Row} (hr : r ∈ textRows delimiter before) :
    r.line ≤ before.count '\n' := by
  cases h with
  | text => cases hr
  | line before =>
    have hnone : textRows delimiter [] = [] := rfl
    rw [textRows_append_cons, hnone, List.map_nil, List.append_nil] at hr
    have hline := (line_bounds_of_mem_rowsFrom hr).2
    rw [length_splitAtEach] at hline
    rw [List.count_append, List.count_singleton_self]
    omega

/-- A change inside a line makes no difference if the line says the same. -/
theorem textRows_congr_within (hm : '\n' ∉ m) (hm' : '\n' ∉ m')
    (hq : splitAtEach '\n' after = q :: qs)
    (h : ∀ p, lineFields? delimiter (p ++ (m ++ q)) = lineFields? delimiter (p ++ (m' ++ q))) :
    textRows delimiter (before ++ (m ++ after)) = textRows delimiter (before ++ (m' ++ after)) := by
  obtain ⟨ps, p, hp, happ⟩ := exists_lastPiece '\n' before
  rw [textRows, textRows, happ, happ,
    splitAtEach_append_of_not_mem hp (splitAtEach_append_of_not_mem hm hq),
    splitAtEach_append_of_not_mem hp (splitAtEach_append_of_not_mem hm' hq)]
  apply rowsFrom_congr
  rw [List.map_append, List.map_append, List.map_cons, List.map_cons, h p]

theorem EndsLine.splitAtEach_eq (h : EndsLine after) : ∃ qs, splitAtEach '\n' after = [] :: qs := by
  cases h with
  | text => exact ⟨[], rfl⟩
  | line after => exact ⟨splitAtEach '\n' after, by rw [splitAtEach, if_pos rfl]⟩

theorem AllBlank.textRows_append (h : AllBlank blanks) (hline : '\n' ∉ blanks) :
    textRows delimiter (blanks ++ after) = textRows delimiter after := by
  obtain ⟨q, qs, hq⟩ := exists_splitAtEach_cons '\n' after
  rw [textRows, splitAtEach_append_of_not_mem hline hq, textRows, hq]
  apply rowsFrom_congr
  rw [List.map_cons, List.map_cons, h.lineFields?_append]

/-- A carriage return stands at the end of its line, where it is blank. -/
theorem splitAtEach_withReturns (text : List Char) :
    List.Forall₂ (fun l l' => l' = l ∨ l' = l ++ ['\r']) (splitAtEach '\n' text)
      (splitAtEach '\n' (withReturns text)) := by
  induction text with
  | nil => exact .cons (.inl rfl) .nil
  | cons c text ih =>
    by_cases hc : c = '\n'
    · subst hc
      exact .cons (.inr rfl) ih
    · have hkept : withReturns (c :: text) = c :: withReturns text := by
        rw [withReturns, List.flatMap_cons, if_neg hc]
        rfl
      obtain ⟨q, qs, hq⟩ := exists_splitAtEach_cons '\n' text
      obtain ⟨q', qs', hq'⟩ := exists_splitAtEach_cons '\n' (withReturns text)
      rw [hq, hq', List.forall₂_cons] at ih
      rw [hkept, splitAtEach, splitAtEach, if_neg hc, if_neg hc, hq, hq', List.forall₂_cons]
      exact ⟨ih.1.imp (congrArg (c :: ·)) (congrArg (c :: ·)), ih.2⟩

theorem textRows_withReturns (delimiter : Char) (text : List Char) :
    textRows delimiter (withReturns text) = textRows delimiter text := by
  have hreturn : AllBlank ['\r'] := by simp [AllBlank, isBlank]
  have hsame : List.Forall₂ (· = ·) ((splitAtEach '\n' text).map (lineFields? delimiter))
      ((splitAtEach '\n' (withReturns text)).map (lineFields? delimiter)) := by
    rw [List.forall₂_map_left_iff, List.forall₂_map_right_iff]
    refine (splitAtEach_withReturns text).imp fun l l' h => ?_
    rcases h with rfl | rfl
    · rfl
    · exact hreturn.append_lineFields?.symm
  rw [List.forall₂_eq_eq_eq] at hsame
  exact rowsFrom_congr hsame.symm

/-- A line more moves the lines behind it. -/
theorem StartsLine.textRows_insert (h : StartsLine before) (hl : SaysNothing l) (after : List Char) :
    textRows delimiter (before ++ (l ++ '\n' :: after)) =
      (textRows delimiter (before ++ after)).map (.moved (pushedBack (before.count '\n'))) := by
  have hcount : l.count '\n' = 0 := List.count_eq_zero.2 hl.newline_not_mem
  rw [h.textRows_append, h.textRows_append, textRows_append_cons, hl.textRows_eq, hcount,
    List.nil_append, List.map_append, List.map_map, List.map_map]
  congr 1
  · symm
    refine (List.map_congr_left fun r hr => ?_).trans (List.map_id _)
    rw [Row.moved, pushedBack, if_pos (h.line_le hr), id]
  · refine List.map_congr_left fun r hr => ?_
    have hpos := (line_bounds_of_mem_rowsFrom hr).1
    rw [Function.comp_apply, Function.comp_apply, Row.moved, Row.moved, Row.moved, Row.moved,
      pushedBack, if_neg (by dsimp only; omega)]
    congr 1
    dsimp only
    omega

/-- **A change of layout keeps the rows**, and moves them as it moves the lines. -/
theorem Respacing.textRows_eq {s t : List Char} {move : Nat → Nat} (hd : isBlank delimiter = false)
    (h : Respacing delimiter s t move) :
    textRows delimiter t = (textRows delimiter s).map (.moved move) := by
  have hid (rows : List Row) : rows.map (.moved id) = rows := List.map_id rows
  have hbreak : '\n' ≠ delimiter := by
    rintro rfl
    cases hd
  cases h with
  | line after hbefore hl => exact hbefore.textRows_insert hl after
  | lastLine text hl =>
    rw [textRows_append_cons, hl.textRows_eq, List.map_nil, List.append_nil, hid]
  | lastText htext hl =>
    rw [htext.textRows_append, hl.textRows_eq, List.map_nil, List.append_nil, hid]
  | returns text => rw [textRows_withReturns, hid]
  | start after hbefore h hline =>
    rw [hbefore.textRows_append, h.textRows_append hline, ← hbefore.textRows_append, hid]
  | stop before hafter h hline =>
    obtain ⟨qs, hqs⟩ := hafter.splitAtEach_eq
    have hnone : '\n' ∉ ([] : List Char) := List.not_mem_nil
    rw [hid]
    refine textRows_congr_within hline hnone hqs fun p => ?_
    rw [List.append_nil, List.append_nil, List.append_nil, h.append_lineFields?]
  | @beforeDelimiter blanks before after h hline =>
    obtain ⟨q, qs, hq⟩ := exists_splitAtEach_cons '\n' after
    have hm : '\n' ∉ blanks ++ [delimiter] := by simp [hline, hbreak]
    have hm' : '\n' ∉ [delimiter] := by simp [hbreak]
    have hrows : textRows delimiter (before ++ (blanks ++ [delimiter] ++ after)) =
        textRows delimiter (before ++ ([delimiter] ++ after)) := by
      refine textRows_congr_within hm hm' hq fun p => ?_
      rw [List.append_assoc]
      exact h.lineFields?_before hd p q
    rw [List.append_assoc] at hrows
    rw [hid]
    exact hrows
  | @behindDelimiter blanks before after h hline =>
    obtain ⟨q, qs, hq⟩ := exists_splitAtEach_cons '\n' after
    have hm : '\n' ∉ delimiter :: blanks := by simp [hline, hbreak]
    have hm' : '\n' ∉ [delimiter] := by simp [hbreak]
    rw [hid]
    exact textRows_congr_within hm hm' hq fun p => h.lineFields?_behind hd p q

end

/-! ## Numbers of lines -/

/-- The error with another number of a line. -/
def Error.moved (move : Nat → Nat) : Error → Error
  | .badRow line cause => .badRow (move line) cause
  | e => e

/-- What was read of a row, whatever the number of its line. -/
def unnumbered {α : Type} (x : Except Error α) : Except Error α := x.mapError (.moved fun _ => 0)

theorem unnumbered_mapError_moved {α : Type} (move : Nat → Nat) (x : Except Error α) :
    unnumbered (x.mapError (.moved move)) = unnumbered x := by
  cases x with
  | ok x => rfl
  | error e => cases e <;> rfl

/-- The lines of a text that hold records, with their numbers counted from one. These are the lines
that say something, but not the first of them if it repeats the names of the columns. -/
def recordLines (columns : List String) (delimiter : Char) (text : String) :
    List (List Char × Nat) :=
  match ((lines text.toList).zipIdx 1).filter fun p => !isIdle (trim p.1) with
  | [] => []
  | p :: ps => if isColumnNames columns (fieldsOf delimiter (trim p.1)) then ps else p :: ps

theorem rowsFrom_eq_map (delimiter : Char) (number : Nat) (ls : List (List Char)) :
    rowsFrom delimiter number ls = ((ls.zipIdx number).filter fun p => !isIdle (trim p.1)).map
      fun p => ⟨p.2, fieldsOf delimiter (trim p.1)⟩ := by
  induction ls generalizing number with
  | nil => rfl
  | cons l ls ih =>
    rw [rowsFrom, List.zipIdx_cons, List.filter_cons, ih]
    cases isIdle (trim l) <;> rfl

theorem recordRows_eq_map (columns : List String) (delimiter : Char) (text : String) :
    recordRows columns delimiter text = (recordLines columns delimiter text).map
      fun p => ⟨p.2, fieldsOf delimiter (trim p.1)⟩ := by
  rw [recordRows, rowsFrom_eq_map, recordLines]
  cases ((lines text.toList).zipIdx 1).filter fun p => !isIdle (trim p.1) with
  | nil => rfl
  | cons p ps =>
    rw [List.map_cons, dropColumnNames]
    dsimp only
    split <;> rfl

theorem dropEmptyLast_isPrefix (ls : List (List Char)) : dropEmptyLast ls <+: ls := by
  fun_induction dropEmptyLast ls with
  | case1 => exact List.prefix_refl []
  | case2 => exact List.nil_prefix
  | case3 l ls _ ih => exact (List.prefix_cons_inj l).2 ih

theorem StartsLine.behind {before : List Char} (h : StartsLine before) (l : List Char) :
    StartsLine (l ++ '\n' :: before) := by
  cases h with
  | text => exact .line l
  | line before =>
    have hline := StartsLine.line (l ++ '\n' :: before)
    rwa [List.append_assoc, List.cons_append] at hline

/-- The pieces between the line breaks of a text are its lines, in order. -/
theorem isNumberedLine_of_getElem? {text l : List Char} {i : Nat}
    (h : (splitAtEach '\n' text)[i]? = some l) : IsNumberedLine text (i + 1) l := by
  induction i generalizing text with
  | zero =>
    by_cases hbreak : '\n' ∈ text
    · obtain ⟨first, rest, rfl, hfirst⟩ := List.eq_append_cons_of_mem hbreak
      rw [splitAtEach_append_cons, splitAtEach_of_not_mem hfirst] at h
      cases h
      exact ⟨[], '\n' :: rest, rfl, .text, .line rest, hfirst, rfl⟩
    · rw [splitAtEach_of_not_mem hbreak] at h
      cases h
      exact ⟨[], [], (List.append_nil _).symm, .text, .text, hbreak, rfl⟩
  | succ i ih =>
    by_cases hbreak : '\n' ∈ text
    · obtain ⟨first, rest, rfl, hfirst⟩ := List.eq_append_cons_of_mem hbreak
      rw [splitAtEach_append_cons, splitAtEach_of_not_mem hfirst] at h
      obtain ⟨before, after, rfl, hbefore, hafter, hl, hi⟩ := ih h
      refine ⟨first ++ '\n' :: before, after, by simp, hbefore.behind first, hafter, hl, ?_⟩
      rw [List.count_append, List.count_cons_self, List.count_eq_zero.2 hfirst, hi]
      omega
    · rw [splitAtEach_of_not_mem hbreak] at h
      cases h

/-- A line that holds a record stands in the text with its number. -/
theorem isNumberedLine_of_mem_recordLines {columns : List String} {delimiter : Char} {text : String}
    {p : List Char × Nat} (h : p ∈ recordLines columns delimiter text) :
    IsNumberedLine text.toList p.2 p.1 := by
  have hmem : p ∈ (lines text.toList).zipIdx 1 := by
    rw [recordLines] at h
    refine List.mem_of_mem_filter (p := fun p => !isIdle (trim p.1)) ?_
    cases hall : ((lines text.toList).zipIdx 1).filter fun p => !isIdle (trim p.1) with
    | nil =>
      rw [hall] at h
      exact h
    | cons q qs =>
      rw [hall] at h
      dsimp only at h
      split at h
      · exact List.mem_cons_of_mem q h
      · exact h
  obtain ⟨hpos, hget⟩ := List.mem_zipIdx_iff_le_and_getElem?_sub.1 hmem
  obtain ⟨rest, hrest⟩ := dropEmptyLast_isPrefix (splitAtEach '\n' text.toList)
  have hlt : p.2 - 1 < (lines text.toList).length := (List.getElem?_eq_some_iff.1 hget).1
  have hpiece : (splitAtEach '\n' text.toList)[p.2 - 1]? = some p.1 := by
    rw [← hrest]
    exact (List.getElem?_append_left hlt).trans hget
  have hline := isNumberedLine_of_getElem? hpiece
  rwa [Nat.sub_add_cancel hpos] at hline

/-! ## Records -/

section
variable {α : Type} [Tabular α] {delimiter : Char}

theorem itemOfRow_moved (move : Nat → Nat) (r : Row) :
    itemOfRow α (r.moved move) = (itemOfRow α r).mapError (.moved move) := by
  rw [itemOfRow, itemOfRow, Row.moved]
  cases Tabular.ofFields (α := α) r.fields <;> rfl

theorem Respacing.readItems_eq {s t : String} {move : Nat → Nat} (hd : isBlank delimiter = false)
    (h : Respacing delimiter s.toList t.toList move) :
    readItems α delimiter t = (readItems α delimiter s).map (·.mapError (.moved move)) := by
  rw [readItems, readItems, recordRows_eq, recordRows_eq, h.textRows_eq hd, dropColumnNames_map_moved,
    List.map_map, List.map_map]
  exact List.map_congr_left fun r _ => itemOfRow_moved move r

/-- **The records of a text do not depend on its layout.** A change of the layout keeps every record,
and moves the numbers in the refusals as it moves the lines. Any changes, made or undone, keep the
records but for these numbers. And whatever was changed, the records are those of the lines of the
text that hold records, one by one, each refused with the number of its own line. -/
theorem readItems_respaced (hd : isBlank delimiter = false) :
    (∀ (s t : String) (move : Nat → Nat), Respacing delimiter s.toList t.toList move →
      readItems α delimiter t = (readItems α delimiter s).map (·.mapError (.moved move))) ∧
    (∀ s t : String, Respaced delimiter s t →
      (readItems α delimiter t).map unnumbered = (readItems α delimiter s).map unnumbered) ∧
    ∀ text : String,
      readItems α delimiter text = ((recordLines (Tabular.columns α) delimiter text).map fun p =>
        (Tabular.ofFields (fieldsOf delimiter (trim p.1))).mapError (.badRow p.2)) ∧
      ∀ p ∈ recordLines (Tabular.columns α) delimiter text, IsNumberedLine text.toList p.2 p.1 := by
  refine ⟨fun s t move h => h.readItems_eq hd, fun s t h => ?_, fun text => ⟨?_, fun p hp => ?_⟩⟩
  · induction h with
    | rel s t h =>
      obtain ⟨move, h⟩ := h
      rw [h.readItems_eq hd, List.map_map]
      exact List.map_congr_left fun x _ => unnumbered_mapError_moved move x
    | refl s => rfl
    | symm s t _ ih => exact ih.symm
    | trans s t u _ _ ihst ihtu => exact ihtu.trans ihst
  · rw [readItems, recordRows_eq_map, List.map_map]
    rfl
  · exact isNumberedLine_of_mem_recordLines hp

end

/-- A row that is refused, and the same row behind a comment, with blanks and carriage returns. -/
theorem readItems_respaced_comment :
    letI : Trig := nearestTrig
    isBlank ',' = false ∧
      Respacing ',' "B,1\n".toList "# b\nB,1\n".toList (pushedBack 0) ∧
      readItems Place ',' "# b\nB,1\n" =
        (readItems Place ',' "B,1\n").map (·.mapError (.moved (pushedBack 0))) ∧
      readItems Place ',' "B,1\n" = [.error (.badRow 1 (.fieldCount 6 2))] ∧
      Respaced ',' "B,1\n" "# b\r\nB\t,1\r\n" ∧
      (readItems Place ',' "# b\r\nB\t,1\r\n").map unnumbered =
        (readItems Place ',' "B,1\n").map unnumbered := by
  let _ : Trig := nearestTrig
  have hd : isBlank ',' = false := by decide
  have hcomment : SaysNothing ([] ++ '#' :: [' ', 'b']) := .comment (by simp [AllBlank]) (by decide)
  have hline : Respacing ',' "B,1\n".toList "# b\nB,1\n".toList (pushedBack 0) :=
    .line "B,1\n".toList .text hcomment
  have hreturns : Respacing ',' "# b\nB,1\n".toList "# b\r\nB,1\r\n".toList id :=
    .returns "# b\nB,1\n".toList
  have htab : AllBlank ['\t'] := by simp [AllBlank, isBlank]
  have hblank : Respacing ',' "# b\r\nB,1\r\n".toList "# b\r\nB\t,1\r\n".toList id :=
    .beforeDelimiter "# b\r\nB".toList "1\r\n".toList htab (by decide)
  have hrespaced : Respaced ',' "B,1\n" "# b\r\nB\t,1\r\n" :=
    .trans _ _ _ (.rel _ _ ⟨_, hline⟩) (.trans _ _ _ (.rel _ _ ⟨_, hreturns⟩) (.rel _ _ ⟨_, hblank⟩))
  obtain ⟨hmove, hsame, -⟩ := readItems_respaced (α := Place) hd
  have hrows : recordRows ["name", "lat", "lon", "alt", "kind", "description"] ',' "B,1\n" =
      [⟨1, ["B", "1"]⟩] := by
    decide +kernel
  refine ⟨hd, hline, hmove _ _ _ hline, ?_, hrespaced, hsame _ _ hrespaced⟩
  exact congrArg (List.map (itemOfRow Place)) hrows

end Gazetteer
