import Gazetteer.Settings.Basic
import Gazetteer.Proofs.WrittenNumbers

/-!
# Settings saved as JSON

The text of saved settings is split into tokens: names, values and the punctuation between them. Its
number is read from the digits of the shortest decimal, gathered in one significand, and a power of
ten; what the fast arithmetic makes of these two is `scaleDecimal?`.
-/

namespace Gazetteer

/-! ## Tokens -/

/-- A text and the tokens that it is split into. -/
inductive SplitsInto : List Char → List JsonToken → Prop
  | done : SplitsInto [] []
  | blank {c : Char} {cs : List Char} {ts : List JsonToken} :
    isJsonBlank c = true → SplitsInto cs ts → SplitsInto (c :: cs) ts
  | token {c : Char} {cs rest : List Char} {t : JsonToken} {ts : List JsonToken} :
    isJsonBlank c = false → lexToken? c cs = some (t, rest) → rest.length ≤ cs.length →
      SplitsInto rest ts → SplitsInto (c :: cs) (t :: ts)

variable {cs ds rest : List Char} {ts : List JsonToken}

/-- A text that is split into tokens has these tokens, with any fuel from its length on. -/
theorem SplitsInto.jsonTokensFrom (h : SplitsInto cs ts) :
    ∀ fuel, cs.length ≤ fuel → jsonTokensFrom fuel cs = ts := by
  induction h with
  | done =>
    intro fuel _
    cases fuel <;> rfl
  | blank hc _ ih =>
    intro fuel hfuel
    obtain ⟨fuel, rfl⟩ : ∃ n, fuel = n + 1 := ⟨fuel - 1, by simp at hfuel; omega⟩
    rw [Gazetteer.jsonTokensFrom, if_pos hc]
    exact ih fuel (Nat.le_of_succ_le_succ hfuel)
  | token hc hlex hle _ ih =>
    intro fuel hfuel
    obtain ⟨fuel, rfl⟩ : ∃ n, fuel = n + 1 := ⟨fuel - 1, by simp at hfuel; omega⟩
    rw [Gazetteer.jsonTokensFrom, hc, hlex, ← ih fuel (hle.trans (Nat.le_of_succ_le_succ hfuel))]
    rfl

/-! ## Strings -/

/-- A character that stands in a string as it is, and is one unit. -/
def isUnescaped (c : Char) : Bool :=
  c != '"' && c != '\\' && decide (0x20 ≤ c.toNat) && decide (c.toNat < 0xd800)

theorem isUnescaped_iff {c : Char} : isUnescaped c = true ↔
    c ≠ '"' ∧ c ≠ '\\' ∧ 0x20 ≤ c.toNat ∧ c.toNat < 0xd800 := by
  simp [isUnescaped, and_assoc]

theorem escapeChar_of_isUnescaped {c : Char} (h : isUnescaped c = true) :
    Json.escapeChar c = [c] := by
  obtain ⟨hquote, hback, hlow, -⟩ := isUnescaped_iff.1 h
  unfold Json.escapeChar
  split
  case h_1 => exact absurd rfl hquote
  case h_2 => exact absurd rfl hback
  case h_8 => rw [if_neg (by omega)]
  all_goals exact absurd hlow (by decide)

theorem lexString?_append (h : ∀ c ∈ cs, isUnescaped c = true) (rest : List Char) :
    lexString? (cs ++ '"' :: rest) = some (cs.map Char.toNat, rest) := by
  induction cs with
  | nil => rw [List.nil_append, lexString?]; rfl
  | cons c cs ih =>
    obtain ⟨hquote, hback, hlow, -⟩ := isUnescaped_iff.1 (h c (by simp))
    rw [List.cons_append, lexString?, if_neg, ih fun c hc => h c (by simp [hc])]
    · rfl
    · rintro (hc | hc)
      · omega
      · exact hback hc
    · exact hquote
    · exact fun _ _ _ _ _ hc _ => hback hc
    · exact fun _ _ hc _ => hback hc

theorem joinSurrogates?_map (h : ∀ c ∈ cs, isUnescaped c = true) :
    joinSurrogates? (cs.map Char.toNat) = some cs := by
  induction cs with
  | nil => rfl
  | cons c cs ih =>
    have hc := (isUnescaped_iff.1 (h c (by simp))).2.2.2
    have ih := ih fun c hc => h c (by simp [hc])
    cases cs with
    | nil =>
      rw [List.map_cons, List.map_nil, joinSurrogates?, if_neg (by omega), Char.ofNat_toNat]
    | cons d cs =>
      rw [List.map_cons, List.map_cons, joinSurrogates?, if_neg (by omega), if_neg (by omega),
        ← List.map_cons, ih, Char.ofNat_toNat]
      rfl

theorem flatMap_escapeChar (h : ∀ c ∈ cs, isUnescaped c = true) :
    cs.flatMap Json.escapeChar = cs := by
  induction cs with
  | nil => rfl
  | cons c cs ih =>
    rw [List.flatMap_cons, escapeChar_of_isUnescaped (h c (by simp)),
      ih fun c hc => h c (by simp [hc])]
    rfl

/-- A quoted name is one token. -/
theorem SplitsInto.quote {name : String} (h : ∀ c ∈ name.toList, isUnescaped c = true)
    (hrest : SplitsInto rest ts) :
    SplitsInto (Json.quote name ++ rest) (.text (some name) :: ts) := by
  have hquote : Json.quote name ++ rest = '"' :: (name.toList ++ '"' :: rest) := by
    rw [Json.quote, flatMap_escapeChar h]
    simp
  rw [hquote]
  refine .token rfl ?_ ?_ hrest
  · show (lexString? _).map _ = _
    rw [lexString?_append h]
    simp [joinSurrogates?_map h, String.ofList_toList]
  · simp
    omega

/-! ## Numbers -/

/-- A value is followed by a comma or by the end of its line. -/
def EndsValue (rest : List Char) : Prop := rest.head? = some ',' ∨ rest.head? = some '\n'

theorem EndsValue.not_isDigit (h : EndsValue rest) : ∀ c ∈ rest.head?, c.isDigit = false := by
  rcases h with h | h <;> simp [h]

theorem span_isDigit (hds : ∀ c ∈ ds, c.isDigit = true)
    (hrest : ∀ c ∈ rest.head?, c.isDigit = false) :
    (ds ++ rest).takeWhile Char.isDigit = ds ∧ (ds ++ rest).dropWhile Char.isDigit = rest := by
  rw [List.takeWhile_append_of_pos hds, List.dropWhile_append_of_pos hds]
  cases rest with
  | nil => simp
  | cons c rest =>
    have hc : ¬ c.isDigit = true := by simp [hrest c (by simp)]
    rw [List.takeWhile_cons_of_neg hc, List.dropWhile_cons_of_neg hc, List.append_nil]
    exact ⟨rfl, rfl⟩

namespace JsonNumber

/-- The text of an exponent. -/
def exponentChars : Option (Bool × List Char) → List Char
  | none => []
  | some (negative, ds) => 'e' :: (if negative then '-' else '+') :: ds

/-- The text of a fraction. -/
def fractionChars (fraction : List Char) : List Char :=
  if fraction.isEmpty then [] else '.' :: fraction

/-- The text of a number without a sign. -/
def chars (n : JsonNumber) : List Char :=
  n.whole ++ (fractionChars n.fraction ++ exponentChars n.exponent)

/-- A number without a sign, made of digits. -/
structure IsUnsigned (n : JsonNumber) : Prop where
  negative : n.negative = false
  digits : Digits n.whole n.fraction
  exponent_isDigit : ∀ e ∈ n.exponent, e.2 ≠ [] ∧ ∀ c ∈ e.2, c.isDigit = true

variable {n : JsonNumber}

theorem lexExponent?_chars {e : Option (Bool × List Char)}
    (he : ∀ p ∈ e, p.2 ≠ [] ∧ ∀ c ∈ p.2, c.isDigit = true) (hrest : EndsValue rest) :
    lexExponent? (exponentChars e ++ rest) = some (e, rest) := by
  cases e with
  | none =>
    cases rest with
    | nil => rfl
    | cons c rest =>
      rw [exponentChars, List.nil_append, lexExponent?, if_neg]
      rcases hrest with h | h <;> rw [List.head?_cons, Option.some.injEq] at h <;> rw [h] <;> decide
  | some p =>
    obtain ⟨negative, ds⟩ := p
    obtain ⟨hne, hds⟩ := he _ rfl
    dsimp only at hne hds
    obtain ⟨htake, hdrop⟩ := span_isDigit hds hrest.not_isDigit
    have hsign : splitSign ((if negative then '-' else '+') :: (ds ++ rest)) =
        (negative, ds ++ rest) := by
      cases negative <;> rfl
    have hsome : ds.isEmpty = false := by simpa using hne
    rw [exponentChars, List.cons_append, List.cons_append, lexExponent?, if_pos (by decide), hsign]
    dsimp only
    rw [htake, hdrop, hsome]
    rfl

theorem exponentChars_head {e : Option (Bool × List Char)} (hrest : EndsValue rest) :
    ∀ c ∈ (exponentChars e ++ rest).head?, c.isDigit = false ∧ c ≠ '.' := by
  cases e with
  | none =>
    rw [exponentChars, List.nil_append]
    rcases hrest with h | h <;> simp [h]
  | some p =>
    rw [exponentChars, List.cons_append, List.head?_cons]
    rintro c ⟨⟩
    decide

theorem lexFraction?_chars {fraction : List Char} (hds : ∀ c ∈ fraction, c.isDigit = true)
    (hrest : ∀ c ∈ rest.head?, c.isDigit = false ∧ c ≠ '.') :
    lexFraction? (fractionChars fraction ++ rest) = some (fraction, rest) := by
  unfold fractionChars
  split
  · rename_i hempty
    rw [List.isEmpty_iff.1 hempty, List.nil_append]
    unfold lexFraction?
    split
    · exact absurd rfl (hrest '.' rfl).2
    · rfl
  · rename_i hne
    obtain ⟨htake, hdrop⟩ := span_isDigit hds fun c hc => (hrest c hc).1
    rw [List.cons_append, lexFraction?, htake, hdrop, if_neg hne]

theorem fractionChars_head (fraction : List Char)
    (hrest : ∀ c ∈ rest.head?, c.isDigit = false ∧ c ≠ '.') :
    ∀ c ∈ (fractionChars fraction ++ rest).head?, c.isDigit = false := by
  unfold fractionChars
  split
  · exact fun c hc => (hrest c hc).1
  · rintro c ⟨⟩
    decide

/-- The text of a number is read as the number. -/
theorem lexNumber?_chars (h : n.IsUnsigned) (hrest : EndsValue rest) :
    lexNumber? false (n.chars ++ rest) = some (n, rest) := by
  have hhead := exponentChars_head (e := n.exponent) hrest
  obtain ⟨htake, hdrop⟩ := span_isDigit h.digits.whole_isDigit
    (fractionChars_head n.fraction hhead)
  have hwhole : ¬ (n.whole.isEmpty ∨ n.whole.head? = some '0' ∧ 1 < n.whole.length) := by
    rintro (hempty | ⟨hzero, hlong⟩)
    · exact h.digits.whole_ne_nil (List.isEmpty_iff.1 hempty)
    · have := h.digits.length_of_zero hzero
      omega
  rw [chars, List.append_assoc, List.append_assoc]
  unfold lexNumber?
  rw [htake, hdrop]
  dsimp only
  rw [if_neg hwhole, lexFraction?_chars h.digits.fraction_isDigit hhead]
  simp only [Option.bind_eq_bind, Option.bind_some, lexExponent?_chars h.exponent_isDigit hrest]
  rw [← h.negative]
  rfl

/-! ## Values -/

/-- Digits whose number fits are all gathered. -/
theorem gatherDigits_of_le {s : ℕ} (h : s * 10 ^ cs.length + digitsValue cs ≤ maxSignificand) :
    gatherDigits s cs = (s * 10 ^ cs.length + digitsValue cs, cs.length, []) := by
  induction cs generalizing s with
  | nil => simp [gatherDigits, digitsValue]
  | cons c cs ih =>
    rw [digitsValue_cons, List.length_cons, pow_succ] at *
    have hsplit : s * (10 ^ cs.length * 10) + ((c.toNat - 48) * 10 ^ cs.length + digitsValue cs) =
        (s * 10 + (c.toNat - 48)) * 10 ^ cs.length + digitsValue cs := by ring
    rw [hsplit] at h ⊢
    have hgrown : s * 10 + (c.toNat - 48) ≤ maxSignificand := by
      have hpos : 0 < 10 ^ cs.length := by positivity
      calc s * 10 + (c.toNat - 48) ≤ (s * 10 + (c.toNat - 48)) * 10 ^ cs.length :=
            Nat.le_mul_of_pos_right _ hpos
        _ ≤ maxSignificand := (Nat.le_add_right _ _).trans h
    rw [gatherDigits]
    dsimp only
    rw [if_neg (Nat.not_lt.2 hgrown), ih h]

theorem significand_of_le (h : digitsValue (n.whole ++ n.fraction) ≤ maxSignificand) :
    n.significand = (digitsValue (n.whole ++ n.fraction), -(n.fraction.length : ℤ)) := by
  rw [digitsValue_append] at h ⊢
  have hpos : 0 < 10 ^ n.fraction.length := by positivity
  have hwhole : digitsValue n.whole ≤ maxSignificand :=
    (Nat.le_mul_of_pos_right _ hpos).trans ((Nat.le_add_right _ _).trans h)
  unfold significand
  rw [gatherDigits_of_le (s := 0) (by simpa using hwhole)]
  dsimp only
  rw [Nat.zero_mul, Nat.zero_add, gatherDigits_of_le h]
  simp

/-- A number without an exponent has the exponent that its fraction gives it. -/
theorem magnitude?_point {whole fraction : List Char}
    (h : digitsValue (whole ++ fraction) ≤ maxSignificand) :
    (JsonNumber.mk false whole fraction none).magnitude? =
      scaleDecimal? 4 (.ofUInt64 (.ofNat (digitsValue (whole ++ fraction)))) (-fraction.length) := by
  unfold magnitude?
  rw [significand_of_le h]

/-- A written exponent is added to it. -/
theorem magnitude?_exponent {whole fraction : List Char}
    (h : digitsValue (whole ++ fraction) ≤ maxSignificand) {k : ℤ} (hk : k.natAbs < 0x80000000) :
    (JsonNumber.mk false whole fraction (some (decide (k < 0), digitChars k.natAbs))).magnitude? =
      scaleDecimal? 4 (.ofUInt64 (.ofNat (digitsValue (whole ++ fraction))))
        (k - fraction.length) := by
  have hexp : (if decide (k < 0) = true then -(fraction.length : ℤ) - k.natAbs
      else -(fraction.length : ℤ) + k.natAbs) = k - fraction.length := by
    simp only [decide_eq_true_eq]
    split <;> omega
  unfold magnitude?
  rw [significand_of_le h]
  dsimp only
  rw [digitsValue_digitChars, if_pos hk, hexp]

end JsonNumber

namespace Decimal

variable {d : Decimal}

/-- What JSON text of a decimal is read as: the number of its digits, with a zero behind the point
if there are no others, and the power of ten that goes with it. -/
def gathered (d : Decimal) : ℕ × ℤ :=
  if NumberStyle.json.isPositional d.leadingExponent then (d.pointed.1, -(d.pointed.2 : ℤ))
  else (d.digits, d.exponent)

theorem gathered_value (d : Decimal) :
    (d.gathered.1 : ℝ) * 10 ^ d.gathered.2 = d.digits * 10 ^ d.exponent := by
  unfold gathered
  split
  · exact d.pointed_value
  · rfl

theorem isPositional_json {k : ℤ} : NumberStyle.json.isPositional k = true ↔ -5 ≤ k ∧ k < 16 := by
  simp [NumberStyle.isPositional, NumberStyle.json]

/-- The digits fit in a significand. -/
theorem gathered_le (hle : d.digits ≤ 10 ^ 18) (hd : 0 < d.digits) :
    0 < d.gathered.1 ∧ d.gathered.1 ≤ 10 ^ 18 := by
  unfold gathered pointed
  split
  · rename_i hpos
    split
    · rename_i he
      obtain ⟨e, he⟩ := Int.eq_ofNat_of_zero_le he
      have hlead := (isPositional_json.1 hpos).2
      obtain ⟨-, hlt, -⟩ := digitCount_spec hd
      rw [leadingExponent, he] at hlead
      rw [he, Int.toNat_natCast]
      refine ⟨by positivity, ?_⟩
      calc d.digits * 10 ^ (e + 1) ≤ 10 ^ digitCount d.digits * 10 ^ (e + 1) :=
            Nat.mul_le_mul_right _ hlt.le
        _ = 10 ^ (digitCount d.digits + (e + 1)) := (pow_add ..).symm
        _ ≤ 10 ^ 18 := Nat.pow_le_pow_right (by decide) (by omega)
    · exact ⟨hd, hle⟩
  · exact ⟨hd, hle⟩

/-- Positional notation is the text of a number with a fraction. -/
theorem exists_jsonNumber_positional (hd : 0 < d.digits) (hfits : d.pointed.1 ≤ maxSignificand) :
    ∃ n : JsonNumber, n.IsUnsigned ∧ d.positional true = n.chars ∧
      n.magnitude? = scaleDecimal? 4 (.ofUInt64 (.ofNat d.pointed.1)) (-(d.pointed.2 : ℤ)) := by
  obtain ⟨whole, fraction, hword, hdigits, hne, hvalue⟩ := exists_positional hd
  have hsome : fraction.isEmpty = false := by simpa using hne
  rw [← hvalue] at hfits ⊢
  refine ⟨⟨false, whole, fraction, none⟩, ⟨rfl, hdigits, by simp⟩, ?_,
    JsonNumber.magnitude?_point hfits⟩
  rw [hword]
  simp [JsonNumber.chars, JsonNumber.fractionChars, JsonNumber.exponentChars, hsome]

/-- Scientific notation is the text of a number with an exponent. -/
theorem exists_jsonNumber_scientific (hd : 0 < d.digits) (hfits : d.digits ≤ maxSignificand)
    (hexp : d.leadingExponent.natAbs ≤ 401) :
    ∃ n : JsonNumber, n.IsUnsigned ∧ d.scientific "+" = n.chars ∧
      n.magnitude? = scaleDecimal? 4 (.ofUInt64 (.ofNat d.digits)) d.exponent := by
  obtain ⟨k, hk⟩ : ∃ k, d.leadingExponent = k := ⟨_, rfl⟩
  have hall : digitsValue ((digitChars d.digits).take 1 ++ (digitChars d.digits).drop 1) =
      d.digits := by
    rw [List.take_append_drop, digitsValue_digitChars]
  refine ⟨⟨false, (digitChars d.digits).take 1, (digitChars d.digits).drop 1,
    some (decide (k < 0), digitChars k.natAbs)⟩, ⟨rfl, d.digits_scientific, ?_⟩, ?_, ?_⟩
  · rintro e ⟨⟩
    exact ⟨List.ne_nil_of_length_pos (length_digitChars_pos _),
      fun c hc => isDigit_of_mem_digitChars hc⟩
  · have hplus : "+".toList = ['+'] := rfl
    unfold scientific
    rw [hk, hplus]
    by_cases hneg : k < 0 <;>
      simp [JsonNumber.chars, JsonNumber.fractionChars, JsonNumber.exponentChars, hneg]
  · have hcount := (digitCount_spec hd).2.2
    rw [JsonNumber.magnitude?_exponent (hall.le.trans hfits) (by omega), hall, List.length_drop,
      length_digitChars]
    congr 1
    rw [leadingExponent] at hk
    omega

/-- The text of a decimal in JSON is that of a number, which has the value of its gathered
digits. -/
theorem exists_jsonNumber (hle : d.digits ≤ 10 ^ 18) (hd : 0 < d.digits)
    (hexp : d.leadingExponent.natAbs ≤ 401) : ∃ n : JsonNumber, n.IsUnsigned ∧
      (if NumberStyle.json.isPositional d.leadingExponent then
        d.positional NumberStyle.json.keepsPoint
        else d.scientific NumberStyle.json.exponentPlus) = n.chars ∧
      n.magnitude? = scaleDecimal? 4 (.ofUInt64 (.ofNat d.gathered.1)) d.gathered.2 := by
  have hfits : d.gathered.1 ≤ maxSignificand := (gathered_le hle hd).2.trans (by decide)
  unfold gathered at hfits ⊢
  split
  · rename_i hpos
    rw [if_pos hpos] at hfits
    exact exists_jsonNumber_positional hd hfits
  · rename_i hpos
    rw [if_neg hpos] at hfits
    exact exists_jsonNumber_scientific hd hfits hexp

end Decimal

namespace Binary64

/-- The significand and the power of ten that JSON text of a positive number is read as. -/
def gathered (x : Binary64) : ℕ × ℤ :=
  (BinaryFormat.binary64.shortest NumberStyle.json.tie x.magnitude).gathered

/-- The number that JSON text of a positive number is read as. -/
def reread? (x : Binary64) : Option Binary64 :=
  scaleDecimal? 4 (ofUInt64 (.ofNat x.gathered.1)) x.gathered.2

variable {x : Binary64}

/-- The shortest decimal of a positive number lies within the format. -/
theorem IsPositive.natAbs_leadingExponent_le (h : x.IsPositive) (tie : Tie) :
    (BinaryFormat.binary64.shortest tie x.magnitude).leadingExponent.natAbs ≤ 401 := by
  have hread := BinaryFormat.ofDecimal_shortest tie h.magnitude_pos h.lt_infinity
  have hpos := (BinaryFormat.roundUnits_shortest tie h.magnitude_pos).1
  generalize BinaryFormat.binary64.shortest tie x.magnitude = d at hread hpos
  unfold BinaryFormat.ofDecimal at hread
  rw [if_neg hpos.ne'] at hread
  dsimp only at hread
  have hbelow : ¬ 400 < (digitCount d.digits : ℤ) + d.exponent := fun hlarge => by
    rw [if_pos hlarge] at hread
    exact h.lt_infinity.ne hread.symm
  have habove : ¬ (digitCount d.digits : ℤ) + d.exponent < -400 := fun hsmall => by
    rw [if_neg hbelow, if_pos hsmall] at hread
    exact h.magnitude_pos.ne hread
  unfold Decimal.leadingExponent
  omega

end Binary64

/-! ## Members -/

/-- A word that is one token in front of the end of a value. -/
def IsWordOf (word : List Char) (t : JsonToken) : Prop :=
  ∀ rest ts, EndsValue rest → SplitsInto rest ts → SplitsInto (word ++ rest) (t :: ts)

theorem isWordOf_flag (b : Bool) :
    IsWordOf (if b then "true".toList else "false".toList) (.bool b) := by
  intro rest ts _ hrest
  cases b with
  | false =>
    show SplitsInto ('f' :: ("alse".toList ++ rest)) _
    refine .token rfl ?_ ?_ hrest
    · simp [lexToken?, afterWord?]
    · simp
      omega
  | true =>
    show SplitsInto ('t' :: ("rue".toList ++ rest)) _
    refine .token rfl ?_ ?_ hrest
    · simp [lexToken?, afterWord?]
    · simp
      omega

/-- A token that starts with a digit is a number. -/
theorem lexToken?_of_isDigit {c : Char} (h : c.isDigit = true) (cs : List Char) :
    lexToken? c cs = (lexNumber? false (c :: cs)).map fun (n, rest) => (.number n, rest) := by
  unfold lexToken?
  split
  case h_12 => rw [if_pos h]
  all_goals exact absurd h (by decide)

theorem isWordOf_number {n : JsonNumber} (h : n.IsUnsigned) : IsWordOf n.chars (.number n) := by
  intro rest ts hends hrest
  have hlex := JsonNumber.lexNumber?_chars h hends
  obtain ⟨c, whole, hwhole⟩ := List.exists_cons_of_ne_nil h.digits.whole_ne_nil
  have hc : c.isDigit = true := h.digits.whole_isDigit c (by simp [hwhole])
  obtain ⟨cs, hcs⟩ : ∃ cs, n.chars = c :: cs := ⟨_, by rw [JsonNumber.chars, hwhole]; rfl⟩
  rw [hcs, List.cons_append] at hlex ⊢
  have hblank : isJsonBlank c = false := by
    by_contra hblank
    rw [Bool.not_eq_false] at hblank
    simp only [isJsonBlank, Bool.or_eq_true, beq_iff_eq] at hblank
    obtain ((rfl | rfl) | rfl) | rfl := hblank <;> exact absurd hc (by decide)
  refine .token hblank ?_ ?_ hrest
  · rw [lexToken?_of_isDigit hc, hlex]
    rfl
  · simp

/-- A member on a line of its own, and the text after it. -/
def memberLine (name : String) (word rest : List Char) : List Char :=
  '\n' :: ' ' :: ' ' :: (Json.quote name ++ ':' :: ' ' :: (word ++ rest))

theorem SplitsInto.memberLine {name : String} {word : List Char} {t : JsonToken}
    (hname : ∀ c ∈ name.toList, isUnescaped c = true) (hword : IsWordOf word t)
    (hends : EndsValue rest) (hrest : SplitsInto rest ts) :
    SplitsInto (memberLine name word rest) (.text (some name) :: .colon :: t :: ts) := by
  have hvalue : SplitsInto (':' :: ' ' :: (word ++ rest)) (.colon :: t :: ts) :=
    .token rfl rfl le_rfl (.blank rfl (hword rest ts hends hrest))
  exact .blank rfl (.blank rfl (.blank rfl (.quote hname hvalue)))

section
variable {shape : RecordShape} {values : FieldValues} {key : String} {i : ℕ} {kind : FieldKind}
  {t : JsonToken} {v : FieldValue}

/-- The first member of an object enters its field. -/
theorem readMembers_first (fuel : ℕ) (hfind : shape.find? key = some (i, kind))
    (hnew : values[i]?.getD none = none) (hread : ∀ ts, readValue kind (t :: ts) = .ok (v, ts)) :
    readMembers shape (fuel + 1) true values (.text (some key) :: .colon :: t :: ts) =
      readMembers shape fuel false (values.set i (some v)) ts := by
  rw [readMembers.eq_def]
  dsimp only
  rw [hfind]
  dsimp only
  rw [hnew, hread]
  rfl

/-- A further member of an object enters its field. -/
theorem readMembers_next (fuel : ℕ) (hfind : shape.find? key = some (i, kind))
    (hnew : values[i]?.getD none = none) (hread : ∀ ts, readValue kind (t :: ts) = .ok (v, ts)) :
    readMembers shape (fuel + 1) false values (.comma :: .text (some key) :: .colon :: t :: ts) =
      readMembers shape fuel false (values.set i (some v)) ts := by
  rw [readMembers.eq_def]
  dsimp only
  rw [hfind]
  dsimp only
  rw [hnew, hread]
  rfl

end

/-! ## Settings -/

namespace Settings

theorem toList_toJsonText (s : Settings) : s.toJsonText.toList =
    '\x7b' :: memberLine "verify_checksum"
      (if s.verifyChecksum then "true".toList else "false".toList)
      (',' :: memberLine "long_range_threshold_m" (s.longRangeThreshold.text .json).toList
      (',' :: memberLine "validate_coordinates"
        (if s.validateCoordinates then "true".toList else "false".toList)
      (',' :: memberLine "skip_invalid_records"
        (if s.skipInvalidRecords then "true".toList else "false".toList) ['\n', '\x7d']))) := by
  have hindent : List.replicate (0 + 2) ' ' = [' ', ' '] := rfl
  rw [toJsonText, Json.pretty, String.toList_ofList]
  simp only [toJson, JsonFields.jsonFields, Json.prettyChars, Json.prettyFields, memberLine,
    hindent, List.append_assoc, List.cons_append, List.nil_append, List.replicate_zero]

/-- The tokens of saved settings, given the number that is their threshold. -/
theorem jsonTokens_toJsonText (s : Settings) {n : JsonNumber} (hn : n.IsUnsigned)
    (htext : (s.longRangeThreshold.text .json).toList = n.chars) :
    jsonTokens s.toJsonText = [.openBrace,
      .text (some "verify_checksum"), .colon, .bool s.verifyChecksum, .comma,
      .text (some "long_range_threshold_m"), .colon, .number n, .comma,
      .text (some "validate_coordinates"), .colon, .bool s.validateCoordinates, .comma,
      .text (some "skip_invalid_records"), .colon, .bool s.skipInvalidRecords, .closeBrace] := by
  unfold jsonTokens
  dsimp only
  refine SplitsInto.jsonTokensFrom ?_ _ le_rfl
  rw [toList_toJsonText, htext]
  have hcomma (cs : List Char) : EndsValue (',' :: cs) := Or.inl rfl
  have hname {name : String} (h : name.toList.all isUnescaped = true) :
      ∀ c ∈ name.toList, isUnescaped c = true := List.all_eq_true.1 h
  have hlast : SplitsInto ['\n', '\x7d'] [.closeBrace] := .blank rfl (.token rfl rfl le_rfl .done)
  refine .token rfl rfl le_rfl ?_
  refine .memberLine (hname (by decide)) (isWordOf_flag _) (hcomma _) (.token rfl rfl le_rfl ?_)
  refine .memberLine (hname (by decide)) (isWordOf_number hn) (hcomma _) (.token rfl rfl le_rfl ?_)
  refine .memberLine (hname (by decide)) (isWordOf_flag _) (hcomma _) (.token rfl rfl le_rfl ?_)
  exact .memberLine (hname (by decide)) (isWordOf_flag _) (Or.inr rfl) hlast

theorem readRecord_tokens (s : Settings) {n : JsonNumber} {t : Binary64}
    (hn : n.value? = some t) : readRecord shape [.openBrace,
      .text (some "verify_checksum"), .colon, .bool s.verifyChecksum, .comma,
      .text (some "long_range_threshold_m"), .colon, .number n, .comma,
      .text (some "validate_coordinates"), .colon, .bool s.validateCoordinates, .comma,
      .text (some "skip_invalid_records"), .colon, .bool s.skipInvalidRecords, .closeBrace] =
    .ok [some (.flag s.verifyChecksum), some (.real t), some (.flag s.validateCoordinates),
      some (.flag s.skipInvalidRecords)] := by
  have hreal (ts : List JsonToken) : readValue .real (.number n :: ts) = .ok (.real t, ts) := by
    rw [readValue, hn]
  have hflag (b : Bool) (ts : List JsonToken) :
      readValue .flag (.bool b :: ts) = .ok (.flag b, ts) := by
    rw [readValue]
  have hfind₁ : shape.find? "verify_checksum" = some (0, .flag) := by decide
  have hfind₂ : shape.find? "long_range_threshold_m" = some (1, .real) := by decide
  have hfind₃ : shape.find? "validate_coordinates" = some (2, .flag) := by decide
  have hfind₄ : shape.find? "skip_invalid_records" = some (3, .flag) := by decide
  rw [readRecord]
  simp only [List.length_cons, List.length_nil, Nat.zero_add]
  rw [readMembers_first _ hfind₁ rfl (hflag _), readMembers_next _ hfind₂ rfl hreal,
    readMembers_next _ hfind₃ rfl (hflag _), readMembers_next _ hfind₄ rfl (hflag _)]
  rfl

/-- **What settings saved as JSON are read as.** The flags are read back; for the threshold stands
what the fast arithmetic makes of the digits of its shortest decimal. -/
theorem ofJson_toJsonText {s : Settings} (hx : s.longRangeThreshold.IsPositive) {t : Binary64}
    (ht : s.longRangeThreshold.reread? = some t) :
    ofJson s.toJsonText = { s with longRangeThreshold := t }.checked := by
  obtain ⟨hpos, htext⟩ := hx.toList_text .json
  have hle := (BinaryFormat.roundUnits_shortest NumberStyle.json.tie hx.magnitude_pos).2.1
  obtain ⟨n, hn, hword, hvalue⟩ :=
    Decimal.exists_jsonNumber hle hpos (hx.natAbs_leadingExponent_le NumberStyle.json.tie)
  have hread : n.value? = some t := by
    rw [JsonNumber.value?, hvalue]
    rw [Binary64.reread?, Binary64.gathered] at ht
    rw [ht, hn.negative]
    rfl
  unfold ofJson
  rw [jsonTokens_toJsonText s hn (htext.trans hword), readRecord_tokens s hread]
  rfl

end Settings
end Gazetteer
