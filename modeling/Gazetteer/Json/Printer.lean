import Gazetteer.Number.Text

/-!
# JSON text

Values as they are written out: on one line, or one entry a line with two blanks of indentation. The
fields of an object keep their order.
-/

namespace Gazetteer

/-- A value to be written as JSON. -/
inductive Json where
  | null
  | bool (b : Bool)
  | int (n : Int)
  | real64 (x : Binary64)
  | real32 (x : Binary32)
  | str (s : String)
  | obj (fields : List (String × Json))

namespace Json

/-- A character as it stands in a JSON string: only the quote, the backslash and the controls are
escaped. -/
def escapeChar (c : Char) : List Char :=
  match c with
  | '"' => ['\\', '"']
  | '\\' => ['\\', '\\']
  | '\n' => ['\\', 'n']
  | '\r' => ['\\', 'r']
  | '\t' => ['\\', 't']
  | '\x08' => ['\\', 'b']
  | '\x0c' => ['\\', 'f']
  | c => if c.toNat < 0x20 then ['\\', 'u'] ++ hexChars 4 c.toNat else [c]

/-- A string with its quotes. -/
def quote (s : String) : List Char := '"' :: s.toList.flatMap escapeChar ++ ['"']

mutual

/-- The text of a value on one line. -/
def compactChars : Json → List Char
  | .null => "null".toList
  | .bool b => if b then "true".toList else "false".toList
  | .int n => (toString n).toList
  | .real64 x => (x.text .json).toList
  | .real32 x => (x.text .jsonSingle).toList
  | .str s => quote s
  | .obj fields => '\x7b' :: compactFields fields ++ ['\x7d']

/-- The text of fields on one line, with commas between them. -/
def compactFields : List (String × Json) → List Char
  | [] => []
  | [(k, v)] => quote k ++ ':' :: compactChars v
  | (k, v) :: rest => quote k ++ ':' :: compactChars v ++ ',' :: compactFields rest

end

mutual

/-- The text of a value over several lines, `indent` blanks in. -/
def prettyChars (indent : Nat) : Json → List Char
  | .obj [] => ['\x7b', '\x7d']
  | .obj fields =>
    '\x7b' :: prettyFields (indent + 2) fields ++ '\n' :: List.replicate indent ' ' ++ ['\x7d']
  | .null => "null".toList
  | .bool b => if b then "true".toList else "false".toList
  | .int n => (toString n).toList
  | .real64 x => (x.text .json).toList
  | .real32 x => (x.text .jsonSingle).toList
  | .str s => quote s

/-- The text of fields, each on a line of its own. -/
def prettyFields (indent : Nat) : List (String × Json) → List Char
  | [] => []
  | [(k, v)] => '\n' :: List.replicate indent ' ' ++ quote k ++ ':' :: ' ' :: prettyChars indent v
  | (k, v) :: rest =>
    '\n' :: List.replicate indent ' ' ++ quote k ++ ':' :: ' ' :: prettyChars indent v ++
      ',' :: prettyFields indent rest

end

def compact (v : Json) : String := String.ofList v.compactChars

def pretty (v : Json) : String := String.ofList (v.prettyChars 0)

end Json

/-- Types whose values have named JSON fields. -/
class JsonFields (α : Type) where
  jsonFields : α → List (String × Json)

/-- The JSON object of a value. -/
def toJson {α : Type} [JsonFields α] (a : α) : Json := .obj (JsonFields.jsonFields a)

end Gazetteer
