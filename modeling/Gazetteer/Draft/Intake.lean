import Gazetteer.Draft.Basic
import Gazetteer.Event
import Gazetteer.Rows

/-!
# Intake of rows

A draft takes in the rows of a text one by one. A row may be refused because it is no record, or
because the draft cannot take its item. A lenient draft passes over refused rows; a strict one stops
at the first, and keeps what it took before.

| here | operation |
| --- | --- |
| `Draft.takeText` | `parse` |
-/

namespace Gazetteer

/-- A row that was refused. -/
structure Refusal where
  /-- The name of the item, if the row gave one. -/
  name : Option String
  cause : Error
deriving DecidableEq, Repr

/-- A draft after an intake, and the rows it refused, in order. -/
structure Intake (α : Type) where
  draft : Draft α
  refusals : List Refusal

namespace Draft

variable {α : Type} [Schema α]

/-- The item of a row, if the row has one and the draft can take it. -/
def screen (d : Draft α) (row : Except Error α) : Except Error α := do
  let item ← row
  d.check item
  return item

/-- The refusal of a row. -/
def refusal (row : Except Error α) (cause : Error) : Refusal :=
  ⟨row.toOption.map Schema.itemName, cause⟩

/-- Takes in rows, passing over those it refuses. -/
def takeLenient (d : Draft α) : List (Except Error α) → Intake α
  | [] => ⟨d, []⟩
  | row :: rows =>
    match d.screen row with
    | .ok item => (d.push item).takeLenient rows
    | .error e =>
      let rest := d.takeLenient rows
      ⟨rest.draft, refusal row e :: rest.refusals⟩

/-- Takes in rows up to the first one it refuses. -/
def takeStrict (d : Draft α) : List (Except Error α) → Intake α
  | [] => ⟨d, []⟩
  | row :: rows =>
    match d.screen row with
    | .ok item => (d.push item).takeStrict rows
    | .error e => ⟨d, [refusal row e]⟩

/-- Takes in rows as the settings say. -/
def takeRows (d : Draft α) (rows : List (Except Error α)) : Intake α :=
  if d.settings.skipInvalidRecords then d.takeLenient rows else d.takeStrict rows

/-- The events of a refusal: a coordinate that is not a finite number is reported when the item is
refused, and any refusal again when the row is passed over. -/
def refusalEvents (α : Type) [Schema α] (lenient : Bool) (r : Refusal) : List Event :=
  let schema := Schema.schemaName α
  let rejected := match r.name with
    | some name => if r.cause.isNotFinite then [.rejected schema name r.cause] else []
    | none => []
  let skipped := if lenient then [.skipped schema r.cause] else []
  rejected ++ skipped

/-- The number of items taken, unless a strict draft refused a row. -/
def intakeOutcome (before : Draft α) (i : Intake α) : Except Error Nat :=
  match before.settings.skipInvalidRecords, i.refusals with
  | false, r :: _ => .error r.cause
  | _, _ => .ok (i.draft.size - before.size)

/-- The log of an intake. -/
def intakeLog (before : Draft α) (i : Intake α) : Logged Nat :=
  let outcome := intakeOutcome before i
  let refused := i.refusals.flatMap (refusalEvents α before.settings.skipInvalidRecords)
  match outcome with
  | .ok count => ⟨refused ++ [.parsed (Schema.schemaName α) count], outcome⟩
  | .error _ => ⟨refused, outcome⟩

/-- The events of offering one item to a draft. -/
def addEvents (d : Draft α) (item : α) : List Event :=
  match d.check item with
  | .ok () => []
  | .error e => refusalEvents α false (refusal (.ok item) e)

end Draft

/-- Takes in the rows of a text. -/
def Draft.takeText {α : Type} [Tabular α] (d : Draft α) (delimiter : Char) (text : String) :
    Intake α :=
  d.takeRows (readItems α delimiter text)

end Gazetteer
