import Gazetteer.Number.Reading

/-!
# JSON tokens

A JSON text as a list of tokens. Where the text stops being JSON the list ends with the token
`malformed`, so that a reader which never gets that far is not disturbed by it.
-/

namespace Gazetteer

/-- The parts of a number as they are written. -/
structure JsonNumber where
  negative : Bool
  whole : List Char
  fraction : List Char
  /-- The sign (`true` for a minus) and the digits of the exponent, if there is one. -/
  exponent : Option (Bool × List Char)
deriving DecidableEq, Inhabited, Repr

inductive JsonToken where
  | openBrace
  | closeBrace
  | openBracket
  | closeBracket
  | comma
  | colon
  | null
  | bool (b : Bool)
  | number (n : JsonNumber)
  /-- A string; `none` if it has an escaped surrogate without its partner. -/
  | text (s : Option String)
  | malformed
deriving DecidableEq, Inhabited, Repr

/-! ## Numbers -/

/-- An exponent at the start of a text and what follows it; `none` if it lacks its digits. -/
def lexExponent? : List Char → Option (Option (Bool × List Char) × List Char)
  | c :: cs =>
    if c == 'e' || c == 'E' then
      let (negative, rest) := splitSign cs
      let ds := rest.takeWhile Char.isDigit
      if ds.isEmpty then none else some (some (negative, ds), rest.dropWhile Char.isDigit)
    else some (none, c :: cs)
  | [] => some (none, [])

/-- A fraction at the start of a text and what follows it; `none` if it lacks its digits. -/
def lexFraction? : List Char → Option (List Char × List Char)
  | '.' :: cs =>
    let ds := cs.takeWhile Char.isDigit
    if ds.isEmpty then none else some (ds, cs.dropWhile Char.isDigit)
  | cs => some ([], cs)

/-- A number without its sign and what follows it. A zero is followed by no further digit. -/
def lexNumber? (negative : Bool) (cs : List Char) : Option (JsonNumber × List Char) := do
  let whole := cs.takeWhile Char.isDigit
  if whole.isEmpty ∨ (whole.head? = some '0' ∧ 1 < whole.length) then none
  else
    let (fraction, rest) ← lexFraction? (cs.dropWhile Char.isDigit)
    let (exponent, rest) ← lexExponent? rest
    return (⟨negative, whole, fraction, exponent⟩, rest)

/-! ## Strings -/

def hexValue? (c : Char) : Option Nat :=
  if c.isDigit then some (c.toNat - 48)
  else if 'a' ≤ c ∧ c ≤ 'f' then some (c.toNat - 87)
  else if 'A' ≤ c ∧ c ≤ 'F' then some (c.toNat - 55)
  else none

/-- The number of four hexadecimal digits. -/
def hexUnit? (a b c d : Char) : Option Nat := do
  let a ← hexValue? a
  let b ← hexValue? b
  let c ← hexValue? c
  let d ← hexValue? d
  return ((a * 16 + b) * 16 + c) * 16 + d

/-- The character that a one-letter escape stands for. -/
def shortEscape? : Char → Option Char
  | '"' => some '"'
  | '\\' => some '\\'
  | '/' => some '/'
  | 'b' => some '\x08'
  | 'f' => some '\x0c'
  | 'n' => some '\n'
  | 'r' => some '\r'
  | 't' => some '\t'
  | _ => none

/-- The code units of a string up to its closing quote, and what follows. A character that is not
escaped counts as one unit. -/
def lexString? : List Char → Option (List Nat × List Char)
  | [] => none
  | '"' :: rest => some ([], rest)
  | '\\' :: 'u' :: a :: b :: c :: d :: rest => do
    let unit ← hexUnit? a b c d
    let (units, rest) ← lexString? rest
    return (unit :: units, rest)
  | '\\' :: e :: rest => do
    let c ← shortEscape? e
    let (units, rest) ← lexString? rest
    return (c.toNat :: units, rest)
  | c :: rest =>
    if c.toNat < 0x20 ∨ c = '\\' then none
    else do
      let (units, rest) ← lexString? rest
      return (c.toNat :: units, rest)

/-- Joins the two halves of each character beyond the basic plane; `none` if a half stands alone. -/
def joinSurrogates? : List Nat → Option (List Char)
  | [] => some []
  | [u] => if 0xd800 ≤ u ∧ u ≤ 0xdfff then none else some [Char.ofNat u]
  | u :: v :: rest =>
    if 0xd800 ≤ u ∧ u ≤ 0xdbff then
      if 0xdc00 ≤ v ∧ v ≤ 0xdfff then
        (joinSurrogates? rest).map
          (Char.ofNat (0x10000 + (u - 0xd800) * 0x400 + (v - 0xdc00)) :: ·)
      else none
    else if 0xdc00 ≤ u ∧ u ≤ 0xdfff then none
    else (joinSurrogates? (v :: rest)).map (Char.ofNat u :: ·)

/-! ## Tokens -/

/-- The rest of a text after a word at its start. -/
def afterWord? (word : String) (cs : List Char) : Option (List Char) :=
  if word.toList.isPrefixOf cs then some (cs.drop word.toList.length) else none

def isJsonBlank (c : Char) : Bool := c == ' ' || c == '\n' || c == '\t' || c == '\r'

/-- The token at the start of a text that begins with the given character, and what follows it. -/
def lexToken? (c : Char) (cs : List Char) : Option (JsonToken × List Char) :=
  match c with
  | '\x7b' => some (.openBrace, cs)
  | '\x7d' => some (.closeBrace, cs)
  | '[' => some (.openBracket, cs)
  | ']' => some (.closeBracket, cs)
  | ',' => some (.comma, cs)
  | ':' => some (.colon, cs)
  | 'n' => (afterWord? "ull" cs).map (.null, ·)
  | 't' => (afterWord? "rue" cs).map (.bool true, ·)
  | 'f' => (afterWord? "alse" cs).map (.bool false, ·)
  | '"' => (lexString? cs).map fun (units, rest) =>
    (.text ((joinSurrogates? units).map String.ofList), rest)
  | '-' => (lexNumber? true cs).map fun (n, rest) => (.number n, rest)
  | c =>
    if c.isDigit then (lexNumber? false (c :: cs)).map fun (n, rest) => (.number n, rest) else none

/-- The tokens of a text; each takes at least one character, so the length of the text is fuel
enough. -/
def jsonTokensFrom : (fuel : Nat) → List Char → List JsonToken
  | 0, _ => []
  | _ + 1, [] => []
  | fuel + 1, c :: cs =>
    if isJsonBlank c then jsonTokensFrom fuel cs
    else match lexToken? c cs with
      | some (t, rest) => t :: jsonTokensFrom fuel rest
      | none => [.malformed]

/-- The tokens of a text. -/
def jsonTokens (text : String) : List JsonToken :=
  let cs := text.toList
  jsonTokensFrom cs.length cs

end Gazetteer
