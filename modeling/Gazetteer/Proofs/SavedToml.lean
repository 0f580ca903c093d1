import Mathlib.Data.List.TakeWhile
import Gazetteer.Settings.Toml
import Gazetteer.Proofs.WrittenNumbers

/-!
# Settings saved as TOML

A line of saved settings is a bare key, an equals sign and a word. Reading it enters the value of
the word under the key.
-/

namespace Gazetteer

namespace Toml

/-! ## Words -/

/-- Digits without underscores are one piece. -/
theorem digitRun?_of_isDigit {cs : List Char} (h : ∀ c ∈ cs, c.isDigit = true) (hne : cs ≠ []) :
    digitRun? Char.isDigit cs = some cs := by
  have hpieces : digitRun?.splitPieces cs = [cs] := by
    clear hne
    induction cs with
    | nil => rfl
    | cons c cs ih =>
      have hc : c ≠ '_' := by
        rintro rfl
        exact absurd (h '_' (by simp)) (by decide)
      rw [digitRun?.splitPieces, if_neg hc, ih fun c hc => h c (by simp [hc])]
  have hall : cs.all Char.isDigit = true := List.all_eq_true.2 h
  have hsome : cs.isEmpty = false := by simpa using hne
  unfold digitRun?
  dsimp only
  rw [hpieces]
  simp [hall, hsome]

variable {whole fraction word rest : List Char}

/-- A number with a point has no characters but digits and the point. -/
theorem not_mem_pointed (h : Digits whole fraction) {c : Char} (hdigit : c.isDigit = false)
    (hpoint : c ≠ '.') : c ∉ whole ++ '.' :: fraction := by
  intro hc
  rcases List.mem_append.1 hc with hc | hc
  · rw [h.whole_isDigit c hc] at hdigit
    cases hdigit
  · rcases List.mem_cons.1 hc with rfl | hc
    · exact hpoint rfl
    · rw [h.fraction_isDigit c hc] at hdigit
      cases hdigit

theorem splitSign_of_not_mem {cs : List Char} (hminus : '-' ∉ cs) (hplus : '+' ∉ cs) :
    splitSign cs = (false, cs) := by
  unfold splitSign
  split
  · exact absurd (List.mem_cons_self ..) hminus
  · exact absurd (List.mem_cons_self ..) hplus
  · rfl

/-- Digits around a point are read as the number nearest to what they write. -/
theorem real?_pointed (h : Digits whole fraction) (hne : fraction ≠ [])
    (hfin : Binary64.ofDecimal false (digitsValue (whole ++ fraction)) (-fraction.length) ≠
      .infinity) :
    real? false (whole ++ '.' :: fraction) = some (.real
      (.ofDecimal false (digitsValue (whole ++ fraction)) (-fraction.length))) := by
  have hmark : ∀ c ∈ whole ++ '.' :: fraction, (!isExponentMark c) = true := by
    intro c hc
    have he : c ≠ 'e' := fun he => not_mem_pointed h (by decide) (by decide) (he ▸ hc)
    have hE : c ≠ 'E' := fun hE => not_mem_pointed h (by decide) (by decide) (hE ▸ hc)
    simp [isExponentMark, he, hE]
  have hwhole : ∀ c ∈ whole, (c != '.') = true := by
    intro c hc
    rw [bne_iff_ne]
    rintro rfl
    exact absurd (h.whole_isDigit _ hc) (by decide)
  have htake : (whole ++ '.' :: fraction).takeWhile (· != '.') = whole := by
    rw [List.takeWhile_append_of_pos hwhole]
    simp
  have hdrop : (whole ++ '.' :: fraction).dropWhile (· != '.') = '.' :: fraction := by
    rw [List.dropWhile_append_of_pos hwhole]
    simp
  have hlead : ¬ (whole.head? = some '0' ∧ 1 < whole.length) := fun hlead => by
    have := h.length_of_zero hlead.1
    omega
  unfold real? wholePart?
  rw [List.takeWhile_eq_self_iff.2 hmark, List.dropWhile_eq_nil_iff.2 hmark]
  dsimp only
  rw [htake, hdrop]
  simp [digitRun?_of_isDigit h.whole_isDigit h.whole_ne_nil,
    digitRun?_of_isDigit h.fraction_isDigit hne, hlead, hfin]

theorem number?_pointed (h : Digits whole fraction) :
    number? (whole ++ '.' :: fraction) = real? false (whole ++ '.' :: fraction) := by
  have hnot := fun c => not_mem_pointed h (c := c)
  have hpoint : '.' ∈ whole ++ '.' :: fraction := by simp
  generalize whole ++ '.' :: fraction = word at hnot hpoint
  unfold number?
  split
  · exact absurd (by simp) (hnot 'x' (by decide) (by decide))
  · exact absurd (by simp) (hnot 'o' (by decide) (by decide))
  · exact absurd (by simp) (hnot 'b' (by decide) (by decide))
  · rw [splitSign_of_not_mem (hnot '-' (by decide) (by decide)) (hnot '+' (by decide) (by decide))]
    dsimp only
    rw [if_neg, if_neg, if_pos]
    · exact List.any_eq_true.2 ⟨'.', hpoint, by decide⟩
    · rintro rfl
      exact absurd hpoint (by decide)
    · rintro rfl
      exact absurd hpoint (by decide)

/-- A word is no date or time if it has no colon, and no hyphen in its fifth place. -/
theorem bareScalar_of_word (hchars : ∀ c ∈ word, isWordChar c = true)
    (htime : startsTime (word ++ '\n' :: rest) = false)
    (hdate : startsDate (word ++ '\n' :: rest) = false) :
    bareScalar (word ++ '\n' :: rest) =
      if word = "true".toList then some (.bool true, '\n' :: rest)
      else if word = "false".toList then some (.bool false, '\n' :: rest)
      else (number? word).map fun v => (v, '\n' :: rest) := by
  have htake : (word ++ '\n' :: rest).takeWhile isWordChar = word := by
    rw [List.takeWhile_append_of_pos hchars]
    simp [isWordChar]
  have hdrop : (word ++ '\n' :: rest).dropWhile isWordChar = '\n' :: rest := by
    rw [List.dropWhile_append_of_pos hchars, List.dropWhile_cons_of_neg (by decide)]
  unfold bareScalar
  rw [htime, hdate, htake, hdrop]
  rfl

/-- A word whose value a scalar reader gives, whatever line follows it. -/
structure Writes (word : List Char) (v : Scalar) : Prop where
  isWordChar : ∀ c ∈ word, isWordChar c = true
  ne_nil : word ≠ []
  bareScalar : ∀ rest, bareScalar (word ++ '\n' :: rest) = some (v, '\n' :: rest)

theorem writes_flag (b : Bool) : Writes (Settings.tomlFlag b).toList (.bool b) := by
  have hchars : ∀ c ∈ (Settings.tomlFlag b).toList, isWordChar c = true :=
    List.all_eq_true.1 (by cases b <;> decide)
  refine ⟨hchars, by cases b <;> decide, fun rest => ?_⟩
  cases b with
  | false =>
    rw [bareScalar_of_word hchars rfl rfl]
    rfl
  | true =>
    rw [bareScalar_of_word hchars rfl rfl]
    rfl

/-- A word of digits around a point is neither a time nor a date. -/
theorem not_dateTime_pointed (h : Digits whole fraction) (hne : fraction ≠ []) (rest : List Char) :
    startsTime ((whole ++ '.' :: fraction) ++ '\n' :: rest) = false ∧
      startsDate ((whole ++ '.' :: fraction) ++ '\n' :: rest) = false := by
  have hnot := fun c => not_mem_pointed h (c := c)
  have hlength : 3 ≤ (whole ++ '.' :: fraction).length := by
    have hwhole := List.length_pos_of_ne_nil h.whole_ne_nil
    have hfraction := List.length_pos_of_ne_nil hne
    rw [List.length_append, List.length_cons]
    omega
  generalize whole ++ '.' :: fraction = word at hnot hlength
  match word, hlength with
  | a :: b :: c :: ds, _ =>
    have hcolon : c ≠ ':' := fun hc => hnot ':' (by decide) (by decide) (by simp [hc])
    have htime : startsTime ((a :: b :: c :: ds) ++ '\n' :: rest) = false := by
      rw [List.cons_append, List.cons_append, List.cons_append, startsTime]
      simp [hcolon]
    refine ⟨htime, ?_⟩
    match ds with
    | [] =>
      have hbreak : '\n'.isDigit = false := by decide
      cases rest with
      | nil => rfl
      | cons e rest =>
        by_cases he : e = '-'
        · subst he
          simp [startsDate, hbreak]
        · simp [startsDate, he]
    | [d] => simp [startsDate]
    | d :: e :: es =>
      have hhyphen : e ≠ '-' := fun he => hnot '-' (by decide) (by decide) (by simp [he])
      simp [startsDate, hhyphen]

theorem writes_number {x : Binary64} (hx : x.IsPositive) :
    Writes (x.text .toml).toList (.real x) := by
  obtain ⟨hpos, htext⟩ := hx.toList_text .toml
  have hall : NumberStyle.toml.isPositional (BinaryFormat.binary64.shortest NumberStyle.toml.tie
    x.magnitude).leadingExponent = true := rfl
  have hkeeps : NumberStyle.toml.keepsPoint = true := rfl
  rw [hall, if_pos rfl, hkeeps] at htext
  obtain ⟨whole, fraction, hword, hdigits, hne, hvalue⟩ := Decimal.exists_positional hpos
  have hpair := Prod.ext_iff.1 hvalue
  have hread :
      Binary64.ofDecimal false (digitsValue (whole ++ fraction)) (-fraction.length) = x := by
    refine hx.ofDecimal_eq NumberStyle.toml.tie ?_
    rw [← Decimal.pointed_value, ← hpair.1, ← hpair.2]
  have hfin : x ≠ .infinity := by
    rintro rfl
    exact absurd hx.isFinite (by decide)
  have hchars : ∀ c ∈ whole ++ '.' :: fraction, isWordChar c = true := by
    intro c hc
    by_contra hword
    have hdigit : c.isDigit = false := by
      by_contra hdigit
      rw [Bool.not_eq_false] at hdigit
      exact hword (by simp [isWordChar, Char.isAlphanum, hdigit])
    exact not_mem_pointed hdigits hdigit (fun hpoint => hword (by rw [hpoint]; decide)) hc
  rw [htext, hword]
  refine ⟨hchars, by simp, fun rest => ?_⟩
  obtain ⟨htime, hdate⟩ := not_dateTime_pointed hdigits hne rest
  have hpoint : '.' ∈ whole ++ '.' :: fraction := by simp
  have htrue : whole ++ '.' :: fraction ≠ "true".toList := fun h => by
    rw [h] at hpoint
    exact absurd hpoint (by decide)
  have hfalse : whole ++ '.' :: fraction ≠ "false".toList := fun h => by
    rw [h] at hpoint
    exact absurd hpoint (by decide)
  rw [bareScalar_of_word hchars htime hdate, if_neg htrue, if_neg hfalse, number?_pointed hdigits,
    real?_pointed hdigits hne (hread ▸ hfin), hread]
  rfl

/-! ## Lines -/

theorem skipBlanks_cons {c : Char} {cs : List Char} (hspace : c ≠ ' ') (htab : c ≠ '\t') :
    skipBlanks (c :: cs) = c :: cs := by
  rw [skipBlanks, List.dropWhile_cons_of_neg (by simp [hspace, htab])]

theorem skipBlanks_space (cs : List Char) : skipBlanks (' ' :: cs) = skipBlanks cs := rfl

theorem afterLine_break (cs : List Char) : afterLine ('\n' :: cs) = some cs := rfl

variable {key : List Char} {v : Scalar} {doc : Document}

@[simp] theorem Document.find?_nil (path : List Step) : Document.find? [] path = none := rfl

@[simp] theorem Document.find?_set (path path' : List Step) (e : Entry) :
    (doc.set path e).find? path' = if path = path' then some e else doc.find? path' := by
  by_cases h : path = path' <;> simp [Document.set, Document.find?, h]

/-- A word is read where a value is expected. -/
theorem value_word (hw : Writes word v) :
    value (skipBlanks (' ' :: (word ++ '\n' :: rest))) = some (v, '\n' :: rest) := by
  obtain ⟨c, cs, rfl⟩ := List.exists_cons_of_ne_nil hw.ne_nil
  have hc : isWordChar c = true := hw.isWordChar c (by simp)
  have hne (d : Char) (hd : isWordChar d = false) : c ≠ d := by
    rintro rfl
    rw [hc] at hd
    cases hd
  have hread := hw.bareScalar rest
  rw [skipBlanks_space, List.cons_append,
    skipBlanks_cons (hne ' ' (by decide)) (hne '\t' (by decide))]
  rw [List.cons_append] at hread
  unfold value
  rw [nestedValue]
  · exact hread
  · exact fun _ h => hne '[' (by decide) (List.cons.inj h).1
  · exact fun _ h => hne '\x7b' (by decide) (List.cons.inj h).1
  · exact fun _ h => hne '"' (by decide) (List.cons.inj h).1
  · exact fun _ h => hne '\x27' (by decide) (List.cons.inj h).1

/-- A bare key before an equals sign. -/
theorem dottedKey_bare (hkey : ∀ c ∈ key, isBareKeyChar c = true) (hne : key ≠ [])
    (rest : List Char) :
    dottedKey (key ++ ' ' :: '=' :: rest) = some ([String.ofList key], '=' :: rest) := by
  have htake : (key ++ ' ' :: '=' :: rest).takeWhile isBareKeyChar = key := by
    rw [List.takeWhile_append_of_pos hkey, List.takeWhile_cons_of_neg (by decide), List.append_nil]
  have hdrop : (key ++ ' ' :: '=' :: rest).dropWhile isBareKeyChar = ' ' :: '=' :: rest := by
    rw [List.dropWhile_append_of_pos hkey, List.dropWhile_cons_of_neg (by decide)]
  have hsimple : simpleKey (key ++ ' ' :: '=' :: rest) =
      some (String.ofList key, ' ' :: '=' :: rest) := by
    have hsome : key.isEmpty = false := by simpa using hne
    unfold simpleKey
    split
    · rename_i heq
      obtain ⟨c, cs, rfl⟩ := List.exists_cons_of_ne_nil hne
      have hc := hkey c (by simp)
      rw [(List.cons.inj heq).1] at hc
      exact absurd hc (by decide)
    · rename_i heq
      obtain ⟨c, cs, rfl⟩ := List.exists_cons_of_ne_nil hne
      have hc := hkey c (by simp)
      rw [(List.cons.inj heq).1] at hc
      exact absurd hc (by decide)
    · rw [htake, hdrop]
      simp [hsome]
  have hparts : keyParts ((key ++ ' ' :: '=' :: rest).length + 1) (key ++ ' ' :: '=' :: rest) =
      some ([String.ofList key], '=' :: rest) := by
    rw [keyParts, hsimple]
    rfl
  rw [dottedKey, hparts]
  rfl

/-- A bare key and a word are an assignment, if the key is new. -/
theorem assignment_word (hkey : ∀ c ∈ key, isBareKeyChar c = true) (hne : key ≠ [])
    (hw : Writes word v) (hfree : doc.find? [(String.ofList key, none)] = none) :
    assignment doc [] (key ++ ' ' :: '=' :: ' ' :: (word ++ '\n' :: rest)) =
      some (doc.set [(String.ofList key, none)] (.value v), '\n' :: rest) := by
  have hset : doc.assign [] [String.ofList key] v =
      some (doc.set [(String.ofList key, none)] (.value v)) := by
    unfold Document.assign
    simp [Document.enterDotted, hfree]
  unfold assignment
  rw [dottedKey_bare hkey hne]
  simp [char, value_word hw, hset]

/-- A line that starts with the character of a bare key is an assignment. -/
theorem documentFrom_assignment (fuel : ℕ) {c : Char} {cs : List Char} {doc' : Document}
    (hc : isBareKeyChar c = true)
    (hassign : assignment doc [] (c :: cs) = some (doc', '\n' :: rest)) :
    documentFrom (fuel + 1) doc [] (c :: cs) = documentFrom fuel doc' [] rest := by
  have hnot (d : Char) (hd : isBareKeyChar d = false) : c ≠ d := by
    rintro rfl
    rw [hc] at hd
    cases hd
  have hplain : ¬ (c = '#' ∨ c = '\n' ∨ c = '\r') := by
    simp [hnot '#' (by decide), hnot '\n' (by decide), hnot '\r' (by decide)]
  rw [documentFrom, skipBlanks_cons (hnot ' ' (by decide)) (hnot '\t' (by decide))]
  split
  · rename_i heq
    cases heq
  · rename_i heq
    exact absurd (List.cons.inj heq).1 (hnot '[' (by decide))
  · rename_i heq
    obtain ⟨rfl, rfl⟩ := List.cons.inj heq
    rw [if_neg hplain, hassign]
    dsimp only
    rw [afterLine_break]

/-- A line of a key and a word, and the text after it. -/
def line (name : String) (word rest : List Char) : List Char :=
  name.toList ++ ' ' :: '=' :: ' ' :: (word ++ '\n' :: rest)

/-- A line enters its value under its key, which must be new. -/
theorem documentFrom_line (fuel : ℕ) {name : String}
    (hkey : name.toList.all isBareKeyChar = true) (hne : name.toList ≠ []) (hw : Writes word v)
    (hfree : doc.find? [(name, none)] = none) :
    documentFrom (fuel + 1) doc [] (line name word rest) =
      documentFrom fuel (doc.set [(name, none)] (.value v)) [] rest := by
  have hname : String.ofList name.toList = name := String.ofList_toList
  have hall := List.all_eq_true.1 hkey
  unfold line
  generalize name.toList = key at hall hne hname
  subst hname
  obtain ⟨c, cs, rfl⟩ := List.exists_cons_of_ne_nil hne
  exact documentFrom_assignment fuel (hall c (by simp)) (assignment_word hall hne hw hfree)

end Toml

/-! ## Settings -/

namespace Settings

open Toml

/-- The document of saved settings. -/
def tomlDocument (s : Settings) : Toml.Document :=
  (((Document.set [] [("verify_checksum", none)] (.value (.bool s.verifyChecksum))).set
    [("long_range_threshold_m", none)] (.value (.real s.longRangeThreshold))).set
    [("validate_coordinates", none)] (.value (.bool s.validateCoordinates))).set
    [("skip_invalid_records", none)] (.value (.bool s.skipInvalidRecords))

theorem toList_toToml (s : Settings) : s.toToml.toList =
    line "verify_checksum" (tomlFlag s.verifyChecksum).toList
      (line "long_range_threshold_m" (s.longRangeThreshold.text .toml).toList
        (line "validate_coordinates" (tomlFlag s.validateCoordinates).toList
          (line "skip_invalid_records" (tomlFlag s.skipInvalidRecords).toList []))) := by
  have hbreak : "\n".toList = ['\n'] := rfl
  have h₁ : "verify_checksum = ".toList = "verify_checksum".toList ++ [' ', '=', ' '] := by decide
  have h₂ : "long_range_threshold_m = ".toList =
      "long_range_threshold_m".toList ++ [' ', '=', ' '] := by decide
  have h₃ : "validate_coordinates = ".toList =
      "validate_coordinates".toList ++ [' ', '=', ' '] := by decide
  have h₄ : "skip_invalid_records = ".toList =
      "skip_invalid_records".toList ++ [' ', '=', ' '] := by decide
  have hid (t : String) : toString t = t := rfl
  unfold toToml
  simp only [line, String.toList_append, hid, h₁, h₂, h₃, h₄, hbreak]
  simp only [List.append_assoc, List.cons_append, List.nil_append]

theorem document?_toToml {s : Settings} (hx : s.longRangeThreshold.IsPositive) :
    Toml.document? s.toToml = some s.tomlDocument := by
  have hlist := s.toList_toToml
  obtain ⟨n, hn⟩ : ∃ n, s.toToml.toList.length + 1 = n + 1 + 1 + 1 + 1 + 1 := by
    refine ⟨s.toToml.toList.length - 4, ?_⟩
    rw [hlist]
    simp only [line, List.length_append, List.length_cons]
    omega
  unfold Toml.document?
  split
  · rename_i heq
    rw [hlist] at heq
    cases heq
  · dsimp only
    rw [hn, hlist,
      documentFrom_line _ (by decide) (by decide) (writes_flag s.verifyChecksum) (by simp),
      documentFrom_line _ (by decide) (by decide) (writes_number hx) (by simp),
      documentFrom_line _ (by decide) (by decide) (writes_flag s.validateCoordinates) (by simp),
      documentFrom_line _ (by decide) (by decide) (writes_flag s.skipInvalidRecords) (by simp)]
    rfl

/-- **Settings saved as TOML are read back.** -/
theorem ofToml_toToml {s : Settings} (hx : s.longRangeThreshold.IsPositive) :
    ofToml s.toToml = s.checked := by
  have h₁ : s.tomlDocument.root? "verify_checksum" = some (.value (.bool s.verifyChecksum)) := by
    simp [tomlDocument, Document.root?]
  have h₂ : s.tomlDocument.root? "long_range_threshold_m" =
      some (.value (.real s.longRangeThreshold)) := by
    simp [tomlDocument, Document.root?]
  have h₃ : s.tomlDocument.root? "validate_coordinates" =
      some (.value (.bool s.validateCoordinates)) := by
    simp [tomlDocument, Document.root?]
  have h₄ : s.tomlDocument.root? "skip_invalid_records" =
      some (.value (.bool s.skipInvalidRecords)) := by
    simp [tomlDocument, Document.root?]
  unfold ofToml
  rw [document?_toToml hx]
  simp only [shape, List.mapM_cons, List.mapM_nil, tomlField, h₁, h₂, h₃, h₄]
  rfl

end Settings
end Gazetteer
