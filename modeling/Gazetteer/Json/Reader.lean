import Gazetteer.Json.Number

/-!
# Reading records from JSON

A record with named fields, each a truth value or a number, is read from an object, whose other
members are passed over, or from an array with the fields in order. What is wrong first in the text
decides whether the text counts as malformed or as JSON of the wrong kind.
-/

namespace Gazetteer

/-- Why a text is no record. -/
inductive JsonFault where
  /-- The text is not JSON, or has a number out of range. -/
  | malformed
  /-- The text is JSON, but a value has the wrong type, or a field is missing or given twice. -/
  | mismatched
deriving DecidableEq, Inhabited, Repr

/-- What a field holds. -/
inductive FieldKind where
  | flag
  | real
deriving DecidableEq, Inhabited, Repr

inductive FieldValue where
  | flag (b : Bool)
  | real (x : Binary64)
deriving DecidableEq, Inhabited, Repr

/-- The fields of a record in order, and whether each must be given. -/
structure RecordShape where
  fields : List (String × FieldKind)
  required : Bool

/-- How a text fails in which a value of some other type was expected. -/
def misfit : List JsonToken → JsonFault
  | .number n :: _ => if n.value?.isSome then .mismatched else .malformed
  | .text s :: _ => if s.isSome then .mismatched else .malformed
  | .openBrace :: _ => .mismatched
  | .openBracket :: _ => .mismatched
  | .null :: _ => .mismatched
  | .bool _ :: _ => .mismatched
  | _ => .malformed

/-- A value of a kind at the start of the tokens, and the tokens after it. -/
def readValue : FieldKind → List JsonToken → Except JsonFault (FieldValue × List JsonToken)
  | .flag, .bool b :: rest => .ok (.flag b, rest)
  | .real, .number n :: rest =>
    match n.value? with
    | some x => .ok (.real x, rest)
    | none => .error .malformed
  | _, tokens => .error (misfit tokens)

/-! ## Values passed over -/

mutual

/-- The tokens after a value of any type; `none` if there is no value. -/
def skipValue? : (fuel : Nat) → List JsonToken → Option (List JsonToken)
  | _ + 1, .openBracket :: .closeBracket :: rest => some rest
  | fuel + 1, .openBracket :: rest => skipElements? fuel rest
  | _ + 1, .openBrace :: .closeBrace :: rest => some rest
  | fuel + 1, .openBrace :: rest => skipMembers? fuel rest
  | _, .null :: rest => some rest
  | _, .bool _ :: rest => some rest
  | _, .number _ :: rest => some rest
  | _, .text _ :: rest => some rest
  | _, _ => none

/-- The tokens after the elements of an array and its bracket. -/
def skipElements? : (fuel : Nat) → List JsonToken → Option (List JsonToken)
  | 0, _ => none
  | fuel + 1, tokens =>
    match skipValue? fuel tokens with
    | some (.comma :: rest) => skipElements? fuel rest
    | some (.closeBracket :: rest) => some rest
    | _ => none

/-- The tokens after the members of an object and its brace. -/
def skipMembers? : (fuel : Nat) → List JsonToken → Option (List JsonToken)
  | fuel + 1, .text _ :: .colon :: tokens =>
    match skipValue? fuel tokens with
    | some (.comma :: rest) => skipMembers? fuel rest
    | some (.closeBrace :: rest) => some rest
    | _ => none
  | _, _ => none

end

/-! ## Records -/

/-- The values of some fields of a record, `none` where a field was not given. -/
abbrev FieldValues := List (Option FieldValue)

/-- The place of a field and its kind. -/
def RecordShape.find? (shape : RecordShape) (name : String) : Option (Nat × FieldKind) :=
  (shape.fields.zipIdx.find? fun ((n, _), _) => n == name).map fun ((_, kind), i) => (i, kind)

/-- The members of an object up to and with its brace. `first` tells that none was read yet. -/
def readMembers (shape : RecordShape) : (fuel : Nat) → (first : Bool) → FieldValues →
    List JsonToken → Except JsonFault (FieldValues × List JsonToken)
  | 0, _, _, _ => .error .malformed
  | _ + 1, _, values, .closeBrace :: rest => .ok (values, rest)
  | fuel + 1, first, values, tokens =>
    let member : Option (String × List JsonToken) := match first, tokens with
      | true, .text (some key) :: rest => some (key, rest)
      | false, .comma :: .text (some key) :: rest => some (key, rest)
      | _, _ => none
    match member with
    | none => .error .malformed
    | some (key, rest) =>
      match shape.find? key, rest with
      | none, .colon :: rest =>
        match skipValue? rest.length rest with
        | none => .error .malformed
        | some rest => readMembers shape fuel false values rest
      | some (i, kind), rest =>
        if (values[i]?.getD none).isSome then .error .mismatched
        else match rest with
          | .colon :: rest => do
            let (v, rest) ← readValue kind rest
            readMembers shape fuel false (values.set i (some v)) rest
          | _ => .error .malformed
      | none, _ => .error .malformed

/-- The elements of an array that give fields in order, without its bracket. -/
def readElements (required : Bool) : (first : Bool) → List (String × FieldKind) → List JsonToken →
    Except JsonFault (FieldValues × List JsonToken)
  | _, [], tokens => .ok ([], tokens)
  | first, (_, kind) :: fields, tokens => do
    match first, tokens with
    | _, .closeBracket :: _ =>
      if required then .error .mismatched
      else
        let (values, rest) ← readElements required first fields tokens
        return (none :: values, rest)
    | _, [] => .error .malformed
    | false, .comma :: .closeBracket :: _ => .error .malformed
    | false, .comma :: rest =>
      let (v, rest) ← readValue kind rest
      let (values, rest) ← readElements required false fields rest
      return (some v :: values, rest)
    | false, _ => .error .malformed
    | true, _ =>
      let (v, rest) ← readValue kind tokens
      let (values, rest) ← readElements required false fields rest
      return (some v :: values, rest)

/-- The values of the fields of a record, from the tokens of a whole text. -/
def readRecord (shape : RecordShape) : List JsonToken → Except JsonFault FieldValues
  | .openBrace :: rest => do
    let none_ := shape.fields.map fun _ => none
    let (values, rest) ← readMembers shape (rest.length + 1) true none_ rest
    if shape.required && values.any Option.isNone then .error .mismatched
    else if rest.isEmpty then return values
    else .error .malformed
  | .openBracket :: rest => do
    let (values, rest) ← readElements shape.required true shape.fields rest
    match rest with
    | [.closeBracket] => return values
    | _ => .error .malformed
  | tokens => .error (misfit tokens)

/-- The three numbers of a record that has just them, all of them required. -/
def readTriple (a b c text : String) : Except JsonFault (Binary64 × Binary64 × Binary64) := do
  let shape : RecordShape := ⟨[(a, .real), (b, .real), (c, .real)], true⟩
  match ← readRecord shape (jsonTokens text) with
  | [some (.real x), some (.real y), some (.real z)] => return (x, y, z)
  | _ => .error .mismatched

end Gazetteer
