import Gazetteer.CommandLine.Grammar
import Gazetteer.Geodesy.Position

/-!
# Requests

What a command line asks for: to build a database, or to answer a question about one. The schema and
the settings file can be named before or after the command; what stands after it counts.
-/

namespace Gazetteer.CommandLine

/-- A question about a database. -/
inductive Question where
  | info
  | get (name : String)
  | nearest (pos : Position)
  | kNearest (pos : Position) (k : Nat)
  | within (pos : Position) (distance : Binary64)
  | dump
deriving DecidableEq, Repr, Inhabited

inductive Command where
  | create (input output : String) (delimiter : Char)
  | ask (path : String) (question : Question)
deriving DecidableEq, Repr, Inhabited

/-- A command with the schema and the settings file that it works with. -/
structure Request where
  kind : ItemKind
  settings : Option String
  command : Command
deriving DecidableEq, Repr, Inhabited

/-! ## Grammars -/

/-- Options that every command has. -/
def sharedOptions : List OptionSpec := [⟨"schema", some 's', .schema⟩, ⟨"config", some 'c', .path⟩]

def altitudeOption : OptionSpec := ⟨"alt", none, .number⟩

/-- The commands, with their operands and their own options. -/
def commands : List (String × List ArgKind × List OptionSpec) := [
  ("create", [.path, .path], [⟨"delimiter", some 'd', .letter⟩]),
  ("info", [.path], []),
  ("get", [.path, .text], []),
  ("nearest", [.path, .coordinate, .coordinate], [altitudeOption]),
  ("knn", [.path, .coordinate, .coordinate, .count], [altitudeOption]),
  ("within", [.path, .coordinate, .coordinate, .number], [altitudeOption]),
  ("dump", [.path], [])]

/-- What precedes the name of a command. -/
def outerGrammar : Grammar := ⟨[], sharedOptions, "help" :: commands.map Prod.fst, true⟩

def innerGrammar (operands : List ArgKind) (options : List OptionSpec) : Grammar :=
  ⟨operands, options ++ sharedOptions, [], false⟩

/-! ## Reading -/

/-- The altitude that options give. -/
def altitude (given : List (String × ArgValue)) : Binary64 :=
  match given.lookup "alt" with
  | some (.number x) => x
  | _ => 0

/-- The delimiter that options give. -/
def delimiter (given : List (String × ArgValue)) : Char :=
  match given.lookup "delimiter" with
  | some (.letter c) => c
  | _ => ','

/-- The command of a name, its operands and its options. -/
def command? (name : String) (operands : List ArgValue) (given : List (String × ArgValue)) :
    Option Command :=
  let alt := altitude given
  match name, operands with
  | "create", [.path input, .path output] => some (.create input output (delimiter given))
  | "info", [.path db] => some (.ask db .info)
  | "get", [.path db, .text name] => some (.ask db (.get name))
  | "nearest", [.path db, .number lat, .number lon] => some (.ask db (.nearest ⟨lat, lon, alt⟩))
  | "knn", [.path db, .number lat, .number lon, .count k] =>
    some (.ask db (.kNearest ⟨lat, lon, alt⟩ k))
  | "within", [.path db, .number lat, .number lon, .number distance] =>
    some (.ask db (.within ⟨lat, lon, alt⟩ distance))
  | "dump", [.path db] => some (.ask db .dump)
  | _, _ => none

/-- The schema that options give. -/
def schemaOf (given : List (String × ArgValue)) : ItemKind :=
  match given.lookup "schema" with
  | some (.schema kind) => kind
  | _ => .place

/-- The settings file that options give. -/
def settingsOf (given : List (String × ArgValue)) : Option String :=
  match given.lookup "config" with
  | some (.path path) => some path
  | _ => none

/-- Reads the arguments after a request for help: at most the name of a command. -/
def readHelp : List String → Stop
  | [] => .help
  | [name] => if outerGrammar.commands.contains name then .help else .misuse
  | _ => .misuse

/-- The request of a command line. -/
def readRequest (args : List String) : Except Stop Request := do
  let outer ← outerGrammar.read args
  match outer.rest with
  | [] => throw .misuse
  | "help" :: rest => throw (readHelp rest)
  | name :: rest =>
    match commands.lookup name with
    | none => throw .misuse
    | some (operands, options) =>
      let inner ← (innerGrammar operands options).read rest
      let given := inner.given ++ outer.given
      match command? name inner.operands inner.given with
      | none => throw .misuse
      | some command => return ⟨schemaOf given, settingsOf given, command⟩

end Gazetteer.CommandLine
