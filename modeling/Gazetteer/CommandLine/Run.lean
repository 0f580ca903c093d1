import Gazetteer.CommandLine.Request
import Gazetteer.Database.Query
import Gazetteer.Database.Summary
import Gazetteer.Files.Save
import Gazetteer.Item.Airport
import Gazetteer.Item.Place

/-!
# Running a command line

A request is carried out over any system that keeps files. The outcome is what goes to the two
output streams and the exit code: zero, one for a failure, two for arguments that make no request.
-/

namespace Gazetteer.CommandLine

/-! ## Failures -/

/-- Why a request fails. -/
inductive Failure where
  | creating (output : String) (cause : Error)
  | asking (cause : Error)
  | readingSettings (path : String) (cause : IoError)
  | parsingSettings (path : String) (fault : SettingsFault)
  | noItem (name : String)
deriving DecidableEq, Repr

namespace Failure

/-- An error and what it comes from. -/
def errorChain (e : Error) : List String :=
  match e with
  | .io cause => [e.message, cause.message]
  | _ => [e.message]

/-- What is wrong with a settings file. -/
def faultText : SettingsFault → String
  | .json .malformed => "malformed JSON"
  | .json .mismatched => "a setting is missing, repeated or of the wrong type"
  | .toml => "malformed TOML"
  | .invalid cause => cause.message

/-- The failure, then its causes down to the last. -/
def chain : Failure → List String
  | .creating output cause => s!"creating {output}" :: errorChain cause
  | .asking cause => errorChain cause
  | .readingSettings path cause => [s!"reading config {path}", cause.message]
  | .parsingSettings path fault => [s!"parsing config {path}", faultText fault]
  | .noItem name => [s!"no item named '{name}'"]

end Failure

/-- A text with its lines joined by a break and an indent. -/
def indentRest (indent : String) (text : String) : String :=
  String.intercalate ("\n" ++ indent) ((splitAtEach '\n' text.toList).map String.ofList)

/-- The number of a cause, right-aligned. -/
def causeNumber (i : Nat) : String :=
  let digits := toString i
  String.ofList (List.replicate (5 - digits.length) ' ') ++ digits ++ ": "

/-- A line for each cause; several causes are numbered from zero. -/
def causeLines (causes : List String) : List String :=
  match causes with
  | [cause] => ["    " ++ indentRest "    " cause]
  | _ => causes.mapIdx fun i cause => causeNumber i ++ indentRest "       " cause

/-- The report of a failure. -/
def report (f : Failure) : String :=
  match f.chain with
  | [] => ""
  | [top] => s!"Error: {top}\n"
  | top :: causes =>
    s!"Error: {top}\n\nCaused by:\n" ++ String.join ((causeLines causes).map (· ++ "\n"))

/-! ## Replies -/

/-- The text of a reply, and the failure that ended it, if one did. -/
structure Reply where
  text : String
  failure : Option Failure
deriving DecidableEq, Repr

namespace Reply

def ofText (text : String) : Reply := ⟨text, none⟩

def ofFailure (f : Failure) : Reply := ⟨"", some f⟩

/-- A reply made from a value, unless there is an error in its place. -/
def ofResult {β : Type} (r : Except Error β) (k : β → Reply) : Reply :=
  match r with
  | .ok b => k b
  | .error e => ofFailure (.asking e)

end Reply

/-- A value as a JSON line. -/
def jsonLine {β : Type} [JsonFields β] (b : β) : String := (toJson b).compact ++ "\n"

/-- Values as JSON lines. -/
def jsonLines {β : Type} [JsonFields β] (bs : List β) : String := String.join (bs.map jsonLine)

/-- A value as a JSON text over several lines. -/
def jsonBlock {β : Type} [JsonFields β] (b : β) : String := (toJson b).pretty ++ "\n"

/-- Items as JSON lines, up to the first damaged one. -/
def dump {α : Type} [JsonFields α] : List (Except Error α) → Reply
  | [] => .ofText ""
  | .error e :: _ => .ofFailure (.asking e)
  | .ok item :: rest =>
    let r := dump rest
    { r with text := jsonLine item ++ r.text }

/-- The reply to a question. -/
def answer {α : Type} [Trig] [Schema α] [JsonFields α] (db : Database α) : Question → Reply
  | .info => .ofResult db.summary fun s => .ofText (jsonBlock s)
  | .get name => .ofResult (db.get? name) fun
    | some item => .ofText (jsonBlock item)
    | none => .ofFailure (.noItem name)
  | .nearest pos => .ofResult (db.nearest? pos) fun n => .ofText (jsonLines n.toList)
  | .kNearest pos k => .ofResult (db.kNearest pos k) fun ns => .ofText (jsonLines ns)
  | .within pos distance => .ofResult (db.within pos distance) fun ns => .ofText (jsonLines ns)
  | .dump => dump db.items

/-! ## Requests -/

/-- What a run leaves: the exit code, the two output streams, and the events on the way. -/
structure Outcome where
  code : UInt8
  out : String
  err : String
  events : List Event
deriving DecidableEq, Repr

/-- The outcome of a reply. -/
def Outcome.ofReply (events : List Event) (r : Reply) : Outcome :=
  match r.failure with
  | none => ⟨0, r.text, "", events⟩
  | some f => ⟨1, r.text, report f, events⟩

section
variable {m : Type → Type} [Monad m] [FileStore m] [Trig]

/-- Carries out a command on items of type `α`. -/
def execute (α : Type) [Tabular α] [JsonFields α] (now : Int64) (settings : Settings) :
    Command → m Outcome
  | .create input output delimiter => do
    let made ← (Draft.empty settings : Draft α).create now delimiter input output
    return .ofReply made.log.events <| match made.log.outcome with
      | .error e => .ofFailure (.creating output e)
      | .ok n => .ofText s!"{n} {Schema.schemaName α} items written to {output}\n"
  | .ask path question => do
    let opened : Logged (Database α) ← openFile settings path
    return .ofReply opened.events (.ofResult opened.outcome fun db => answer db question)

/-- The settings of a request. -/
def loadSettings : Option String → m (Except Failure Settings)
  | none => return .ok {}
  | some path => do
    match ← readText path with
    | .error cause => return .error (.readingSettings path cause)
    | .ok text => return (Settings.ofJson text).mapError (.parsingSettings path)

/-- Carries out a request at a time given in milliseconds since 1970. -/
def perform (now : Int64) (r : Request) : m Outcome := do
  match ← loadSettings r.settings with
  | .error f => return .ofReply [] (.ofFailure f)
  | .ok settings =>
    match r.kind with
    | .place => execute Place now settings r.command
    | .airport => execute Airport now settings r.command

/-- The name and version of the program. -/
def versionText : String := "rgis 0.1.0\n"

/-- How the program is called. -/
def usageText : String :=
  "Usage: rgis [-s place|airport] [-c FILE] COMMAND\n\n" ++
  "Commands:\n" ++
  "  create INPUT OUTPUT [-d CHAR]       build a database from delimited text\n" ++
  "  info DB                             describe a database\n" ++
  "  get DB NAME                         find an item by its name\n" ++
  "  nearest DB LAT LON [--alt M]        find the nearest item\n" ++
  "  knn DB LAT LON N [--alt M]          find the nearest items\n" ++
  "  within DB LAT LON METERS [--alt M]  find the items within a distance\n" ++
  "  dump DB                             list all items\n"

/-- Runs the program on its arguments. -/
def run (now : Int64) (args : List String) : m Outcome :=
  match readRequest args with
  | .error .misuse => return ⟨2, "", usageText, []⟩
  | .error .help => return ⟨0, usageText, "", []⟩
  | .error .version => return ⟨0, versionText, "", []⟩
  | .ok r => perform now r

end
end Gazetteer.CommandLine
