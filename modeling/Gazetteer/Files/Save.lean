import Gazetteer.Database.Basic
import Gazetteer.Draft.Intake
import Gazetteer.Files.Basic
import Gazetteer.Files.Path
import Gazetteer.Image

/-!
# Databases in files

A database is written beside its final path and then moved there, so that the path never holds a
part of it. A database made from a text file is written only once the whole text was taken in.

| here | operation |
| --- | --- |
| `Draft.save` | `write` |
| `Draft.createBy` | `create_db` |
| `openFile` | `open_with_config` |
-/

namespace Gazetteer

section
variable {m : Type → Type} [Monad m] [FileStore m]

/-- The changes that bring bytes to a path by way of a temporary file. -/
def saveSteps (temporary path : String) (bytes : List UInt8) : List FileStep :=
  [.create temporary, .append temporary bytes, .sync temporary, .rename temporary path]

/-- Brings bytes to a path. When that fails the temporary file is removed, if it can be. -/
def saveBytes (path : String) (bytes : List UInt8) : m (Except Error Unit) := do
  match temporaryPath? path with
  | none => return .error (.invalidInput (.noFileName path))
  | some temporary =>
    match ← performAll (saveSteps temporary path bytes) with
    | .ok () => return .ok ()
    | .error e =>
      let _ ← FileStore.perform (.remove temporary)
      return .error (.io e)

/-- Writes a draft to a path as a database. -/
def Draft.save {α : Type} [Schema α] (d : Draft α) (date : Int64) (path : String) :
    m (Logged Unit) := do
  let packed := packLog α (d.pack date)
  match packed.outcome with
  | .error e => return ⟨packed.events, .error e⟩
  | .ok image =>
    match ← saveBytes path image.bytes with
    | .error e => return ⟨packed.events, .error e⟩
    | .ok () =>
      let wrote := .wrote (Schema.schemaName α) d.size image.bytes.length path
      return ⟨packed.events ++ [wrote], .ok ()⟩

/-- A draft after a text file was taken in and the result written, and the number of its items. -/
structure Creation (α : Type) where
  draft : Draft α
  log : Logged Nat

/-- Takes in the text file `input` by a parser, which gives the draft after a text and its log, and
writes the draft to `output`. -/
def Draft.createBy {α : Type} [Schema α] (d : Draft α) (parser : String → Draft α × Logged Nat)
    (date : Int64) (input output : String) : m (Creation α) := do
  let failed (draft : Draft α) (events : List Event) (e : Error) : Creation α :=
    ⟨draft, ⟨events ++ [.notCreated output input e], .error e⟩⟩
  match ← readText input with
  | .error e => return failed d [] (.io e)
  | .ok text =>
    let (draft, taken) := parser text
    match taken.outcome with
    | .error e => return failed draft taken.events e
    | .ok _ =>
      let saved ← draft.save date output
      match saved.outcome with
      | .error e => return failed draft (taken.events ++ saved.events) e
      | .ok () => return ⟨draft, ⟨taken.events ++ saved.events, .ok draft.size⟩⟩

/-- The parser of rows of delimited fields. -/
def Draft.parseRows {α : Type} [Tabular α] (d : Draft α) (delimiter : Char) (text : String) :
    Draft α × Logged Nat :=
  let intake := d.takeText delimiter text
  (intake.draft, d.intakeLog intake)

/-- Takes in the text file `input` row by row and writes the draft to `output`. -/
def Draft.create {α : Type} [Tabular α] (d : Draft α) (date : Int64) (delimiter : Char)
    (input output : String) : m (Creation α) :=
  d.createBy (d.parseRows delimiter) date input output

/-- Opens the database at a path. -/
def openFile {α : Type} [Schema α] (settings : Settings) (path : String) :
    m (Logged (Database α)) := do
  match ← FileStore.map path with
  | .error e => return ⟨[], .error (.io e)⟩
  | .ok buf =>
    if buf.size < headerSize then return ⟨[], .error (.invalidFormat (.shortFile path))⟩
    let log := Database.openLog (Database.ofBuffer α settings buf)
    match log.outcome with
    | .error _ => return log
    | .ok db =>
      let opened := .opened (Schema.schemaName α) path db.size buf.size
      return ⟨log.events ++ [opened], log.outcome⟩

end
end Gazetteer
