import Gazetteer.Json.Token

/-!
# TOML scalars

The values of a TOML text that are not made of others: truth values, numbers, dates and times, and
the four kinds of strings. Every reader takes a text and returns what it read with the rest of the
text, or `none` if the text does not start as the grammar demands.
-/

namespace Gazetteer.Toml

/-- A value, as far as it matters to whoever asks for flags and numbers. -/
inductive Scalar where
  | bool (b : Bool)
  | int (n : Int)
  | real (x : Binary64)
  | other
deriving DecidableEq, Inhabited, Repr

/-- A reader of the start of a text. -/
abbrev Reader (α : Type) := List Char → Option (α × List Char)

/-! ## Strings -/

/-- Whether a character may stand in a comment or, unescaped, in a string. -/
def isPlain (c : Char) : Bool := c == '\t' || (0x20 ≤ c.toNat && c.toNat != 0x7f)

/-- The character with a code point; surrogates have none. -/
def scalar? (n : Nat) : Option Char :=
  if h : n.isValidChar then some ⟨n.toUInt32, by
    have : n < 4294967296 := by rcases h with h | h <;> omega
    simpa [UInt32.isValidChar, Nat.mod_eq_of_lt this] using h⟩
  else none

/-- The character of an escape, whose backslash has been read. -/
def escape : Reader Char
  | 'u' :: a :: b :: c :: d :: rest => do
    let c ← scalar? (← hexUnit? a b c d)
    return (c, rest)
  | 'U' :: a :: b :: c :: d :: e :: f :: g :: h :: rest => do
    let c ← scalar? ((← hexUnit? a b c d) * 0x10000 + (← hexUnit? e f g h))
    return (c, rest)
  | '"' :: rest => some ('"', rest)
  | '\\' :: rest => some ('\\', rest)
  | 'b' :: rest => some ('\x08', rest)
  | 'f' :: rest => some ('\x0c', rest)
  | 'n' :: rest => some ('\n', rest)
  | 'r' :: rest => some ('\r', rest)
  | 't' :: rest => some ('\t', rest)
  | _ => none

/-- A string between double quotes, the first of which has been read. -/
def basicString : (fuel : Nat) → Reader (List Char)
  | _ + 1, '"' :: rest => some ([], rest)
  | fuel + 1, '\\' :: rest => do
    let (c, rest) ← escape rest
    let (cs, rest) ← basicString fuel rest
    return (c :: cs, rest)
  | fuel + 1, c :: rest =>
    if isPlain c then do
      let (cs, rest) ← basicString fuel rest
      return (c :: cs, rest)
    else none
  | _, _ => none

/-- A string between single quotes, the first of which has been read. -/
def literalString : Reader (List Char)
  | '\x27' :: rest => some ([], rest)
  | c :: rest =>
    if isPlain c then (literalString rest).map fun (cs, rest) => (c :: cs, rest) else none
  | [] => none

/-- The text after a run of at most two more quotes, which belong to a string that three have
closed. -/
def afterClosing (q : Char) : List Char → List Char
  | a :: b :: rest =>
    if a = q then if b = q then rest else b :: rest else a :: b :: rest
  | [a] => if a = q then [] else [a]
  | [] => []

/-- The text after blanks and line breaks. -/
def skipSpace : List Char → List Char
  | ' ' :: rest => skipSpace rest
  | '\t' :: rest => skipSpace rest
  | '\n' :: rest => skipSpace rest
  | '\r' :: '\n' :: rest => skipSpace rest
  | cs => cs

/-- The text after a backslash at the end of a line and the blanks and line breaks that follow;
`none` if more than blanks stands on the line. -/
def afterContinuation (cs : List Char) : Option (List Char) :=
  match cs.dropWhile fun c => c == ' ' || c == '\t' with
  | '\n' :: rest => some (skipSpace rest)
  | '\r' :: '\n' :: rest => some (skipSpace rest)
  | _ => none

/-- The text after a string over several lines, whose three opening quotes have been read. -/
def afterMultiline (q : Char) : (fuel : Nat) → List Char → Option (List Char)
  | 0, _ => none
  | _ + 1, [] => none
  | fuel + 1, '\r' :: rest =>
    match rest with
    | '\n' :: rest => afterMultiline q fuel rest
    | _ => none
  | fuel + 1, c :: rest =>
    if c = q then
      match rest with
      | a :: b :: rest' =>
        if a = q ∧ b = q then some (afterClosing q rest') else afterMultiline q fuel rest
      | _ => none
    else if c = '\\' ∧ q = '"' then
      match afterContinuation rest with
      | some rest => afterMultiline q fuel rest
      | none =>
        match escape rest with
        | some (_, rest) => afterMultiline q fuel rest
        | none => none
    else if c = '\n' ∨ isPlain c then afterMultiline q fuel rest
    else none

/-! ## Numbers -/

/-- Digits with single underscores between them, to the end of a word. -/
def digitRun? (isDigit : Char → Bool) (cs : List Char) : Option (List Char) :=
  let pieces := splitPieces cs
  if pieces.all fun p => !p.isEmpty && p.all isDigit then some pieces.flatten else none
where
  /-- The pieces between the underscores. -/
  splitPieces : List Char → List (List Char)
    | [] => [[]]
    | c :: cs =>
      if c = '_' then [] :: splitPieces cs
      else match splitPieces cs with
        | [] => [[c]]
        | p :: ps => (c :: p) :: ps

/-- A whole number within 64 bits with sign. -/
def boundedInt? (n : Int) : Option Scalar :=
  if -0x8000000000000000 ≤ n ∧ n < 0x8000000000000000 then some (.int n) else none

/-- A number written in base `base` after its mark. -/
def radixInt? (base : Nat) (isDigit : Char → Bool) (cs : List Char) : Option Scalar := do
  let ds ← digitRun? isDigit cs
  boundedInt? (ds.foldl (fun n c => n * base + (hexValue? c).getD 0) 0 : Nat)

/-- The digits before the point or exponent of a number: no zero leads others. -/
def wholePart? (cs : List Char) : Option (List Char) := do
  let ds ← digitRun? Char.isDigit cs
  if ds.head? = some '0' ∧ 1 < ds.length then none else some ds

/-- An exponent: a sign, which may be missing, and digits. -/
def exponentPart? (cs : List Char) : Option Int := do
  let (negative, rest) := splitSign cs
  let ds ← digitRun? Char.isDigit rest
  return if negative then -(digitsValue ds : Int) else digitsValue ds

/-- A number with a point or an exponent, without its sign. What is too large is refused, unless it
is negative. -/
def real? (negative : Bool) (cs : List Char) : Option Scalar := do
  let mantissa := cs.takeWhile fun c => !isExponentMark c
  let whole ← wholePart? (mantissa.takeWhile (· != '.'))
  let fraction ← match mantissa.dropWhile (· != '.') with
    | [] => some []
    | _ :: ds => digitRun? Char.isDigit ds
  let exponent ← match cs.dropWhile fun c => !isExponentMark c with
    | [] => some 0
    | _ :: ds => exponentPart? ds
  let digits := digitsValue (whole ++ fraction)
  let x := Binary64.ofDecimal negative digits (exponent - fraction.length)
  if x = .infinity then none else some (.real x)

/-- The number that a word writes. -/
def number? (word : List Char) : Option Scalar :=
  match word with
  | '0' :: 'x' :: ds => radixInt? 16 (fun c => (hexValue? c).isSome) ds
  | '0' :: 'o' :: ds => radixInt? 8 (fun c => '0' ≤ c ∧ c ≤ '7') ds
  | '0' :: 'b' :: ds => radixInt? 2 (fun c => c = '0' ∨ c = '1') ds
  | _ =>
    let (negative, body) := splitSign word
    if body = "inf".toList then some (.real (if negative then .negInfinity else .infinity))
    else if body = "nan".toList then some (.real (if negative then -.nan else .nan))
    else if body.any fun c => c == '.' || isExponentMark c then real? negative body
    else do
      let n := digitsValue (← wholePart? body)
      boundedInt? (if negative then -(n : Int) else n)

/-! ## Dates and times -/

/-- A number of exactly `width` digits at the start of a text. -/
def fixedDigits (width : Nat) : Reader Nat := fun cs =>
  let ds := cs.take width
  if ds.length = width ∧ ds.all Char.isDigit then some (digitsValue ds, cs.drop width) else none

/-- A given character at the start of a text. -/
def char (c : Char) : List Char → Option (List Char)
  | d :: rest => if d = c then some rest else none
  | [] => none

def daysInMonth (year month : Nat) : Nat :=
  if month = 2 then
    if year % 4 = 0 ∧ (year % 100 ≠ 0 ∨ year % 400 = 0) then 29 else 28
  else if month = 4 ∨ month = 6 ∨ month = 9 ∨ month = 11 then 30
  else 31

/-- The text after a date. -/
def afterDate (cs : List Char) : Option (List Char) := do
  let (year, rest) ← fixedDigits 4 cs
  let (month, rest) ← fixedDigits 2 (← char '-' rest)
  let (day, rest) ← fixedDigits 2 (← char '-' rest)
  if 1 ≤ month ∧ month ≤ 12 ∧ 1 ≤ day ∧ day ≤ daysInMonth year month then some rest else none

/-- The text after a time of day. -/
def afterTime (cs : List Char) : Option (List Char) := do
  let (hour, rest) ← fixedDigits 2 cs
  let (minute, rest) ← fixedDigits 2 (← char ':' rest)
  let (second, rest) ← fixedDigits 2 (← char ':' rest)
  if hour ≤ 23 ∧ minute ≤ 59 ∧ second ≤ 60 then
    match rest with
    | '.' :: ds => if (ds.head?.getD ' ').isDigit then some (ds.dropWhile Char.isDigit) else none
    | _ => some rest
  else none

/-- The text after an offset from universal time, which may be missing. -/
def afterOffset (cs : List Char) : Option (List Char) :=
  match cs with
  | 'Z' :: rest => some rest
  | 'z' :: rest => some rest
  | c :: rest =>
    if c = '+' ∨ c = '-' then do
      let (hour, rest) ← fixedDigits 2 rest
      let (minute, rest) ← fixedDigits 2 (← char ':' rest)
      if hour ≤ 23 ∧ minute ≤ 59 then some rest else none
    else some cs
  | [] => some []

/-- Whether a text starts with two digits and a colon. -/
def startsTime : List Char → Bool
  | a :: b :: ':' :: _ => a.isDigit && b.isDigit
  | _ => false

/-- Whether a text starts with four digits and a hyphen. -/
def startsDate : List Char → Bool
  | a :: b :: c :: d :: '-' :: _ => a.isDigit && b.isDigit && c.isDigit && d.isDigit
  | _ => false

/-- The text after a date, a time of day, or both. -/
def afterDateTime (cs : List Char) : Option (List Char) := do
  if startsTime cs then afterTime cs
  else
    let rest ← afterDate cs
    match rest with
    | c :: time =>
      if c = 'T' ∨ c = 't' ∨ (c = ' ' ∧ startsTime time) then afterOffset (← afterTime time)
      else some rest
    | [] => some rest

/-- Whether a character can belong to a number or a truth value. -/
def isWordChar (c : Char) : Bool :=
  c.isAlphanum || c == '_' || c == '+' || c == '-' || c == '.' || c == ':'

/-- A scalar that starts without a quote. -/
def bareScalar : Reader Scalar := fun cs =>
  if startsTime cs || startsDate cs then (afterDateTime cs).map fun rest => (.other, rest)
  else
    let word := cs.takeWhile isWordChar
    let rest := cs.dropWhile isWordChar
    if word = "true".toList then some (.bool true, rest)
    else if word = "false".toList then some (.bool false, rest)
    else (number? word).map fun v => (v, rest)

/-- The text after a quoted string of any kind. -/
def quotedScalar : Reader Scalar := fun cs =>
  match cs with
  | '"' :: '"' :: '"' :: rest =>
    (afterMultiline '"' (rest.length + 1) rest).map fun rest => (.other, rest)
  | '\x27' :: '\x27' :: '\x27' :: rest =>
    (afterMultiline '\x27' (rest.length + 1) rest).map fun rest => (.other, rest)
  | '"' :: rest => (basicString (rest.length + 1) rest).map fun (_, rest) => (.other, rest)
  | '\x27' :: rest => (literalString rest).map fun (_, rest) => (.other, rest)
  | _ => none

end Gazetteer.Toml
