import Gazetteer.Item.Schema
import Gazetteer.Text.Blank

/-!
# Rows of delimited text

Items come from text with one record a line. Blank lines and lines that start with `#` say nothing,
nor does the first other line when it repeats the names of the columns. Lines and fields are
trimmed; a field cannot contain the delimiter.

| here | operation |
| --- | --- |
| `readField`, `readFlag?` | `parse_field`, `parse_bool` |
| `isColumnNames` | `is_header` |
| `Tabular.ofFields` | `from_fields` |
| `readItems` | `parse` |
-/

namespace Gazetteer

/-- A schema whose items can be given as rows of text. -/
class Tabular (α : Type) extends Schema α where
  columns : List String
  /-- The item that the fields of a row describe. -/
  ofFields : List String → Except RowError α

/-! ## Fields -/

/-- Reads a field, naming its column in the refusal. -/
def readField {β : Type} (read? : String → Option β) (text column : String) : Except InputError β :=
  match read? text with
  | some v => .ok v
  | none => .error (.badField column text)

/-- The text with its ASCII letters in lower case. -/
def asciiLower (s : String) : String := s.map Char.toLower

/-- A yes-or-no field. An empty field says no. -/
def readFlag? (text : String) : Option Bool :=
  let word := asciiLower text
  if ["true", "yes", "y", "1"].contains word then some true
  else if ["false", "no", "n", "0", ""].contains word then some false
  else none

/-! ## Lines -/

/-- A line that says something: its number, counted from one, and its trimmed fields. -/
structure Row where
  line : Nat
  fields : List String
deriving DecidableEq, Inhabited, Repr

/-- Whether a trimmed line says nothing. -/
def isIdle (line : List Char) : Bool :=
  match line with
  | [] => true
  | c :: _ => c == '#'

/-- The fields of a trimmed line. -/
def fieldsOf (delimiter : Char) (line : List Char) : List String :=
  (splitAtEach delimiter line).map fun f => String.ofList (trim f)

/-- The rows among lines, the first of which has the given number. -/
def rowsFrom (delimiter : Char) : (number : Nat) → List (List Char) → List Row
  | _, [] => []
  | number, l :: ls =>
    let line := trim l
    if isIdle line then rowsFrom delimiter (number + 1) ls
    else ⟨number, fieldsOf delimiter line⟩ :: rowsFrom delimiter (number + 1) ls

/-- Whether fields repeat the names of the columns, in any mixture of ASCII cases. -/
def isColumnNames (columns fields : List String) : Bool :=
  fields.map asciiLower == columns.map asciiLower

/-- Leaves out the first row if it repeats the names of the columns. -/
def dropColumnNames (columns : List String) : List Row → List Row
  | [] => []
  | r :: rs => if isColumnNames columns r.fields then rs else r :: rs

/-- The rows of a text that hold records. -/
def recordRows (columns : List String) (delimiter : Char) (text : String) : List Row :=
  dropColumnNames columns (rowsFrom delimiter 1 (lines text.toList))

/-- The item of a row, or the refusal with the number of the line. -/
def itemOfRow (α : Type) [Tabular α] (r : Row) : Except Error α :=
  (Tabular.ofFields r.fields).mapError (.badRow r.line)

/-- The items of a text, in order, with a refusal in the place of each row that is no record. -/
def readItems (α : Type) [Tabular α] (delimiter : Char) (text : String) : List (Except Error α) :=
  (recordRows (Tabular.columns α) delimiter text).map (itemOfRow α)

end Gazetteer
