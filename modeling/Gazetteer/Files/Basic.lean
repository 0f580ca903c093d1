import Gazetteer.Bytes.Buffer

/-!
# Files

What the building and the opening of a database ask of the system that keeps the files. The
operations on files are written over any such system: the one that the program runs on, or a model
of one.
-/

namespace Gazetteer

/-- A change to the files, made by one call to the system. -/
inductive FileStep where
  /-- Makes an empty file, in the place of a file that has the path already. -/
  | create (path : String)
  /-- Adds bytes at the end of a file. -/
  | append (path : String) (bytes : List UInt8)
  /-- Waits until what was written to a file is stored. -/
  | sync (path : String)
  /-- Gives a file another path, in the place of a file that has that path already. -/
  | rename (source target : String)
  | remove (path : String)
deriving DecidableEq, Repr

/-- A system that keeps files, as seen from the monad `m`. -/
class FileStore (m : Type → Type) where
  /-- The contents of a file, read from start to end. -/
  read : String → m (Except IoError (List UInt8))
  /-- The contents of a file, mapped into memory. -/
  map : String → m (Except IoError Buffer)
  perform : FileStep → m (Except IoError Unit)

section
variable {m : Type → Type} [Monad m] [FileStore m]

/-- The contents of a file as text. -/
def readText (path : String) : m (Except IoError String) := do
  match ← FileStore.read path with
  | .error e => return .error e
  | .ok bytes =>
    match String.fromUTF8? ⟨bytes.toArray⟩ with
    | some text => return .ok text
    | none => return .error .notText

/-- Makes changes in order, up to the first that fails. -/
def performAll : List FileStep → m (Except IoError Unit)
  | [] => return .ok ()
  | step :: steps => do
    match ← FileStore.perform step with
    | .ok () => performAll steps
    | .error e => return .error e

end

end Gazetteer
