import Gazetteer.Toml.Scalar

/-!
# TOML documents

A document is a list of lines: key and value, table header, or nothing. Keys may be dotted, and
headers and dotted keys share the tables that they pass through, within the rules that keep a table
from being given twice. A `Document` records what stands at each path.
-/

namespace Gazetteer.Toml

/-! ## Blanks and comments -/

def skipBlanks (cs : List Char) : List Char := cs.dropWhile fun c => c == ' ' || c == '\t'

/-- The text after a comment, if one starts here; `none` if the comment has a control character. -/
def afterComment (cs : List Char) : Option (List Char) :=
  match cs with
  | '#' :: rest =>
    let rest := rest.dropWhile isPlain
    match rest with
    | [] => some rest
    | '\n' :: _ => some rest
    | '\r' :: '\n' :: _ => some rest
    | _ => none
  | _ => some cs

/-- The text after a line break. -/
def afterBreak? : List Char → Option (List Char)
  | '\n' :: rest => some rest
  | '\r' :: '\n' :: rest => some rest
  | _ => none

/-- The text after the rest of a line that holds nothing more, and its line break. -/
def afterLine (cs : List Char) : Option (List Char) := do
  let rest ← afterComment (skipBlanks cs)
  if rest.isEmpty then some [] else afterBreak? rest

/-- The text after blanks, comments and line breaks, as between the elements of an array. -/
def skipLayout : (fuel : Nat) → List Char → Option (List Char)
  | 0, cs => some cs
  | fuel + 1, cs => do
    let rest ← afterComment (skipBlanks cs)
    match afterBreak? rest with
    | some rest => skipLayout fuel rest
    | none => some rest

/-! ## Keys -/

def isBareKeyChar (c : Char) : Bool := c.isAlphanum || c == '_' || c == '-'

/-- One part of a key. -/
def simpleKey : Reader String := fun cs =>
  match cs with
  | '"' :: rest => (basicString (rest.length + 1) rest).map fun (k, rest) => (String.ofList k, rest)
  | '\x27' :: rest => (literalString rest).map fun (k, rest) => (String.ofList k, rest)
  | _ =>
    let k := cs.takeWhile isBareKeyChar
    if k.isEmpty then none else some (String.ofList k, cs.dropWhile isBareKeyChar)

/-- One more than the number of parts that a key, and of levels that a value, can have. -/
def depthLimit : Nat := 80

/-- The parts of a key, with blanks around the dots between them. -/
def keyParts : (fuel : Nat) → Reader (List String)
  | 0, _ => none
  | fuel + 1, cs => do
    let (k, rest) ← simpleKey cs
    match skipBlanks rest with
    | '.' :: rest =>
      let (ks, rest) ← keyParts fuel (skipBlanks rest)
      return (k :: ks, rest)
    | rest => return ([k], rest)

/-- A key of several parts, and the text after it and the blanks that follow. -/
def dottedKey : Reader (List String) := fun cs =>
  (keyParts (cs.length + 1) cs).filter fun (keys, _) => decide (keys.length < depthLimit)

/-! ## What stands at a path -/

/-- A step of a path: a key, and the number of the element if the key names an array of tables. -/
abbrev Step := String × Option Nat

/-- How a table came about, which decides who may add to it. -/
inductive Origin where
  /-- Passed through by a header of a deeper table. -/
  | implied
  /-- Given by a header. -/
  | header
  /-- Passed through by a dotted key. -/
  | dotted
deriving DecidableEq, Inhabited, Repr

inductive Entry where
  | value (v : Scalar)
  | table (origin : Origin)
  /-- An array of tables, with its number of elements. -/
  | tables (count : Nat)
deriving DecidableEq, Inhabited, Repr

/-- What stands at each path, the latest first. -/
abbrev Document := List (List Step × Entry)

namespace Document

def find? (doc : Document) (path : List Step) : Option Entry :=
  (List.find? (fun entry => entry.1 == path) doc).map (·.2)

def set (doc : Document) (path : List Step) (e : Entry) : Document := (path, e) :: doc

/-- Follows the keys of a header before its last one, from a path on. -/
def enterHeader (doc : Document) (path : List Step) : List String → Option (Document × List Step)
  | [] => some (doc, path)
  | k :: ks =>
    match doc.find? (path ++ [(k, none)]) with
    | none => enterHeader (doc.set (path ++ [(k, none)]) (.table .implied)) (path ++ [(k, none)]) ks
    | some (.table _) => enterHeader doc (path ++ [(k, none)]) ks
    | some (.tables n) => enterHeader doc (path ++ [(k, some (n - 1))]) ks
    | some (.value _) => none

/-- Follows the keys of a dotted key before its last one, from a path on. The last table passed
through has to be one that dotted keys made. -/
def enterDotted (doc : Document) (path : List Step) : List String → Option (Document × List Step)
  | [] => some (doc, path)
  | k :: ks =>
    match doc.find? (path ++ [(k, none)]) with
    | none => enterDotted (doc.set (path ++ [(k, none)]) (.table .dotted)) (path ++ [(k, none)]) ks
    | some (.table .dotted) => enterDotted doc (path ++ [(k, none)]) ks
    | some (.table .implied) =>
      if ks.isEmpty then none else enterDotted doc (path ++ [(k, none)]) ks
    | some (.table .header) => none
    | some (.tables n) =>
      if ks.isEmpty then none else enterDotted doc (path ++ [(k, some (n - 1))]) ks
    | some (.value _) => none

/-- Opens the table of a header; it may have been passed through, but not given before. -/
def openTable (doc : Document) (keys : List String) : Option (Document × List Step) := do
  let (doc, path) ← doc.enterHeader [] keys.dropLast
  let path := path ++ [(keys.getLast?.getD "", none)]
  match doc.find? path with
  | none => some (doc.set path (.table .header), path)
  | some (.table .implied) => some (doc.set path (.table .header), path)
  | _ => none

/-- Opens one more element of an array of tables. -/
def openElement (doc : Document) (keys : List String) : Option (Document × List Step) := do
  let (doc, path) ← doc.enterHeader [] keys.dropLast
  let k := keys.getLast?.getD ""
  match doc.find? (path ++ [(k, none)]) with
  | none => some (doc.set (path ++ [(k, none)]) (.tables 1), path ++ [(k, some 0)])
  | some (.tables n) =>
    some (doc.set (path ++ [(k, none)]) (.tables (n + 1)), path ++ [(k, some n)])
  | _ => none

/-- Gives a value to a key in a table; a key has one value at most. -/
def assign (doc : Document) (table : List Step) (keys : List String) (v : Scalar) :
    Option Document := do
  let (doc, path) ← doc.enterDotted table keys.dropLast
  let path := path ++ [(keys.getLast?.getD "", none)]
  match doc.find? path with
  | none => some (doc.set path (.value v))
  | some _ => none

end Document

/-! ## Values -/

mutual

/-- A value of any type. Arrays and inline tables are only checked; they hold values of less than
`depth` levels. -/
def nestedValue : (depth fuel : Nat) → Reader Scalar
  | _, 0, _ => none
  | depth, fuel + 1, cs =>
    match cs with
    | '[' :: rest =>
      match depth with
      | 0 => none
      | depth + 1 => (elements depth fuel rest).map fun rest => (.other, rest)
    | '\x7b' :: rest =>
      match depth with
      | 0 => none
      | depth + 1 =>
        match skipBlanks rest with
        | '\x7d' :: rest => some (.other, rest)
        | rest => (members depth fuel [] rest).map fun rest => (.other, rest)
    | '"' :: _ => quotedScalar cs
    | '\x27' :: _ => quotedScalar cs
    | _ => bareScalar cs

/-- The text after the elements of an array and its bracket. A comma may follow the last element. -/
def elements : (depth fuel : Nat) → List Char → Option (List Char)
  | _, 0, _ => none
  | depth, fuel + 1, cs =>
    match skipLayout (cs.length + 1) cs with
    | none => none
    | some (']' :: rest) => some rest
    | some rest =>
      match nestedValue depth fuel rest with
      | none => none
      | some (_, rest) =>
        match skipLayout (rest.length + 1) rest with
        | some (',' :: rest) => elements depth fuel rest
        | some (']' :: rest) => some rest
        | _ => none

/-- The text after the members of an inline table and its brace. -/
def members : (depth fuel : Nat) → Document → List Char → Option (List Char)
  | _, 0, _, _ => none
  | depth, fuel + 1, doc, cs =>
    match dottedKey (skipBlanks cs) with
    | some (keys, '=' :: rest) =>
      match nestedValue depth fuel (skipBlanks rest) with
      | none => none
      | some (v, rest) =>
        match doc.assign [] keys v with
        | none => none
        | some doc =>
          match skipBlanks rest with
          | ',' :: rest => members depth fuel doc rest
          | '\x7d' :: rest => some rest
          | _ => none
    | _ => none

end

/-- A value of less than `depthLimit` levels. -/
def value : Reader Scalar := fun cs => nestedValue (depthLimit - 1) (cs.length + 1) cs

/-! ## Lines -/

/-- A key and its value in a table, and the text after them. -/
def assignment (doc : Document) (table : List Step) (cs : List Char) :
    Option (Document × List Char) := do
  let (keys, rest) ← dottedKey cs
  let rest ← char '=' rest
  let (v, rest) ← value (skipBlanks rest)
  let doc ← doc.assign table keys v
  return (doc, rest)

/-- A table header, whose opening bracket has been read, and the text after it. -/
def tableHeader (doc : Document) (cs : List Char) :
    Option ((Document × List Step) × List Char) := do
  match cs with
  | '[' :: rest =>
    let (keys, rest) ← dottedKey (skipBlanks rest)
    let rest ← char ']' (← char ']' rest)
    return (← doc.openElement keys, rest)
  | _ =>
    let (keys, rest) ← dottedKey (skipBlanks cs)
    let rest ← char ']' rest
    return (← doc.openTable keys, rest)

/-- The document of the lines of a text, the current table being given. -/
def documentFrom : (fuel : Nat) → Document → (table : List Step) → List Char → Option Document
  | 0, _, _, _ => none
  | fuel + 1, doc, table, cs =>
    match skipBlanks cs with
    | [] => some doc
    | '[' :: rest =>
      match tableHeader doc rest with
      | none => none
      | some ((doc, table), rest) =>
        match afterLine rest with
        | none => none
        | some rest => documentFrom fuel doc table rest
    | c :: rest =>
      if c = '#' ∨ c = '\n' ∨ c = '\r' then
        match afterLine (c :: rest) with
        | none => none
        | some rest => documentFrom fuel doc table rest
      else
        match assignment doc table (c :: rest) with
        | none => none
        | some (doc, rest) =>
          match afterLine rest with
          | none => none
          | some rest => documentFrom fuel doc table rest

/-- The document of a text, after a byte-order mark if there is one. -/
def document? (text : String) : Option Document :=
  let cs := match text.toList with
    | '\ufeff' :: rest => rest
    | cs => cs
  documentFrom (cs.length + 1) [] [] cs

/-- What stands at a key outside all tables. -/
def Document.root? (doc : Document) (key : String) : Option Entry := doc.find? [(key, none)]

end Gazetteer.Toml
