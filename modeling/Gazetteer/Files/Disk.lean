import Gazetteer.Files.Basic
import Gazetteer.Files.Path
import Gazetteer.Text.Blank

/-!
# A disk

A model of a system that keeps files: a tree of directories in memory, given by the place of each
entry. A path is followed part by part, each in the directory that the parts before it lead to. Any
call may be hit by a fault. A call that is hit fails, and changes nothing, except that bytes may
have been added to a file up to some number.
-/

namespace Gazetteer

/-- What has a place on a disk. -/
inductive DiskEntry where
  | file (bytes : List UInt8)
  | directory
deriving DecidableEq, Repr, Inhabited

/-- What goes wrong in a call: the error, and how many bytes are written all the same. -/
structure Fault where
  cause : IoError
  written : Nat
deriving DecidableEq, Repr, Inhabited

/-- The entries of a disk by their places, which are the names on the way from the root. -/
structure Disk where
  entries : List (List String × DiskEntry)
  /-- The place where paths start that do not start at the root. -/
  home : List String
  /-- Which of the calls to come are hit; when it is used up, no more are. -/
  faults : List (Option Fault)
deriving DecidableEq, Repr

namespace Disk

/-- A disk with nothing but its root. -/
def empty : Disk := ⟨[], [], []⟩

/-- What stands at a place. The root is a directory. -/
def entry? (d : Disk) (place : List String) : Option DiskEntry :=
  if place = [] then some .directory else d.entries.lookup place

/-- Puts an entry at a place, instead of the one there. -/
def put (d : Disk) (place : List String) (e : DiskEntry) : Disk :=
  { d with entries := (place, e) :: d.entries.filter fun x => x.1 ≠ place }

/-- Takes away the entry at a place. -/
def erase (d : Disk) (place : List String) : Disk :=
  { d with entries := d.entries.filter fun x => x.1 ≠ place }

/-! ## Following paths -/

/-- The longest name of an entry, in bytes. -/
def maxNameSize : Nat := 255

/-- The longest path, in bytes. -/
def maxPathSize : Nat := 4095

/-- A path as it is followed. -/
structure Route where
  /-- Whether it starts at the root. -/
  absolute : Bool
  /-- The parts between slashes, but for empty ones. -/
  parts : List String
  /-- Whether a slash follows the last part. -/
  slashed : Bool
deriving DecidableEq, Repr

/-- The route of a path that can be one. -/
def route (path : String) : Except IoError Route :=
  let cs := path.toList
  if cs.contains '\x00' then .error .nulInPath
  else if cs.isEmpty then .error .notFound
  else if maxPathSize < path.utf8ByteSize then .error .nameTooLong
  else
    let parts := (splitAtEach '/' cs).map String.ofList
    .ok ⟨cs.head? == some '/', parts.filter fun part => !part.isEmpty, cs.getLast? == some '/'⟩

/-- There has to be a directory at a place. -/
def needDirectory (d : Disk) (place : List String) : Except IoError Unit :=
  match d.entry? place with
  | none => .error .notFound
  | some (.file _) => .error .notADirectory
  | some .directory => .ok ()

/-- One part further from a place. What the part names need not exist. -/
def enter (d : Disk) (here : List String) (part : String) : Except IoError (List String) := do
  d.needDirectory here
  if part = "." then return here
  else if part = ".." then return here.dropLast
  else if maxNameSize < part.utf8ByteSize then throw .nameTooLong
  else return here ++ [part]

/-- The end of a route: the directory in which its last part is looked up, that part if it is a name
and not a way to go, and whether a slash follows it. -/
structure Ending where
  directory : List String
  name : Option String
  slashed : Bool
deriving DecidableEq, Repr

/-- The name that a part is, unless it only says where to go. -/
def properName? (part : String) : Option String :=
  if part = "." ∨ part = ".." then none else some part

/-- Follows a route up to its last part. -/
def ending (d : Disk) (r : Route) : Except IoError Ending := do
  let start := if r.absolute then [] else d.home
  let directory ← r.parts.dropLast.foldlM d.enter start
  d.needDirectory directory
  return ⟨directory, r.parts.getLast?.bind properName?, r.slashed⟩

/-- The place that a route leads to. -/
def place (d : Disk) (r : Route) : Except IoError (List String) :=
  r.parts.foldlM d.enter (if r.absolute then [] else d.home)

/-- What stands at a path, and where. Only a directory may have a slash after it. -/
def find (d : Disk) (path : String) : Except IoError (List String × DiskEntry) := do
  let r ← route path
  let p ← d.place r
  match d.entry? p with
  | none => throw .notFound
  | some .directory => return (p, .directory)
  | some e => if r.slashed then throw .notADirectory else return (p, e)

/-- The file at a path. -/
def findFile (d : Disk) (path : String) : Except IoError (List String × List UInt8) := do
  match ← d.find path with
  | (_, .directory) => throw .isADirectory
  | (p, .file bytes) => return (p, bytes)

/-! ## Changes -/

/-- Makes an empty file. -/
def createFile (d : Disk) (path : String) : Except IoError Disk := do
  let e ← d.ending (← route path)
  match e.name with
  | none => throw .isADirectory
  | some name =>
    if e.slashed then throw .isADirectory
    let p ← d.enter e.directory name
    match d.entry? p with
    | some .directory => throw .isADirectory
    | _ => return d.put p (.file [])

/-- Moves a file to a path, which has to end in a name. -/
def moveFile (d : Disk) (source target : String) : Except IoError Disk := do
  let (p, bytes) ← d.findFile source
  let e ← d.ending (← route target)
  match e.name with
  | none => throw .busy
  | some name =>
    let q ← d.enter e.directory name
    if e.slashed then throw .notADirectory
    match d.entry? q with
    | some .directory => throw .isADirectory
    | _ => return (d.erase p).put q (.file bytes)

/-- A change that no fault hits. -/
def apply (d : Disk) : FileStep → Except IoError Disk
  | .create path => d.createFile path
  | .append path more => do
    let (p, bytes) ← d.findFile path
    return d.put p (.file (bytes ++ more))
  | .sync path => do
    let _ ← d.findFile path
    return d
  | .rename source target => d.moveFile source target
  | .remove path => do
    let (p, _) ← d.findFile path
    return d.erase p

/-- What is left of a change that a fault hits. -/
def spoil (d : Disk) (f : Fault) : FileStep → Disk
  | .append path more =>
    match d.apply (.append path (more.take f.written)) with
    | .ok d' => d'
    | .error _ => d
  | _ => d

/-- The fault of the next call, and the disk after it is counted. -/
def nextFault (d : Disk) : Option Fault × Disk :=
  match d.faults with
  | [] => (none, d)
  | f :: fs => (f, { d with faults := fs })

/-- One call that changes the disk. -/
def perform (step : FileStep) (d : Disk) : Except IoError Unit × Disk :=
  match d.nextFault with
  | (some f, d) => (.error f.cause, d.spoil f step)
  | (none, d) =>
    match d.apply step with
    | .ok d' => (.ok (), d')
    | .error e => (.error e, d)

/-- One call that reads the file at a path. -/
def read (path : String) (d : Disk) : Except IoError (List UInt8) × Disk :=
  match d.nextFault with
  | (some f, d) => (.error f.cause, d)
  | (none, d) => ((d.findFile path).map Prod.snd, d)

/-- One call that maps the file at a path. A directory can be opened but not mapped. -/
def map (path : String) (d : Disk) : Except IoError Buffer × Disk :=
  match d.nextFault with
  | (some f, d) => (.error f.cause, d)
  | (none, d) =>
    match d.find path with
    | .error e => (.error e, d)
    | .ok (_, .directory) => (.error .noDevice, d)
    | .ok (_, .file bytes) => (.ok (Buffer.ofList bytes), d)

/-! ## Directories -/

/-- Makes a directory where there is nothing. -/
def makeDirectory (d : Disk) (path : String) : Except IoError Disk := do
  let e ← d.ending (← route path)
  match e.name with
  | none => throw .alreadyExists
  | some name =>
    let p ← d.enter e.directory name
    if (d.entry? p).isSome then throw .alreadyExists
    return d.put p .directory

/-- Whether a path leads to a directory. -/
def isDirectory (d : Disk) (path : String) : Bool :=
  match d.find path with
  | .ok (_, .directory) => true
  | _ => false

/-- Makes a directory, unless it is there. -/
def ensureDirectory (d : Disk) (path : String) : Except IoError Disk :=
  match d.makeDirectory path with
  | .ok d' => .ok d'
  | .error e => if d.isDirectory path then .ok d else .error e

/-- Makes a directory inside others, of which some may be missing. The innermost comes first in the
list. -/
def ensureAll (d : Disk) : List String → Except IoError Disk
  | [] => .ok d
  | path :: around =>
    match d.ensureDirectory path with
    | .ok d' => .ok d'
    | .error e =>
      if e = .notFound then do (← d.ensureAll around).ensureDirectory path else .error e

/-- Makes a directory and those around it that are missing. -/
def makeDirectories (d : Disk) (path : String) : Except IoError Disk :=
  d.ensureAll (pathsAround (path.length + 1) path)

/-- The size of an entry. -/
def entrySize : DiskEntry → Nat
  | .file bytes => bytes.length
  | .directory => 0

/-- The names and sizes of the entries of a directory, by name. -/
def list (d : Disk) (place : List String) : List (String × Nat) :=
  let inside := d.entries.filterMap fun (p, e) =>
    match p.getLast? with
    | some name => if p.dropLast = place then some (name, entrySize e) else none
    | none => none
  inside.mergeSort fun a b => decide (a.1 ≤ b.1)

end Disk

instance : FileStore (StateM Disk) where
  read := Disk.read
  map := Disk.map
  perform := Disk.perform

end Gazetteer
