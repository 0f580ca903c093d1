import Gazetteer.Layout

/-!
# Events

What is worth a line in a log. Operations return the events of their work in order; who runs them
decides what to do with the lines.
-/

namespace Gazetteer

/-- How much an event matters. -/
inductive Level where
  | debug
  | info
  | warn
  | error
deriving DecidableEq, Repr, Inhabited

namespace Level

def label : Level → String
  | .debug => "DEBUG"
  | .info => "INFO"
  | .warn => "WARN"
  | .error => "ERROR"

end Level

/-- Something that happened while a database was built or opened. -/
inductive Event where
  /-- An item was refused since a coordinate is not a finite number. -/
  | rejected (schema name : String) (cause : Error)
  /-- A row was passed over. -/
  | skipped (schema : String) (cause : Error)
  /-- A text was taken in to its end. -/
  | parsed (schema : String) (count : Nat)
  | packed (schema : String) (layout : Layout) (depth : Nat)
  | wrote (schema : String) (count bytes : Nat) (path : String)
  | notCreated (output input : String) (cause : Error)
  | checksumMismatch (stored computed : Int32)
  | sections (schema : String) (strings : Nat) (layout : Layout)
  | opened (schema path : String) (count bytes : Nat)
deriving DecidableEq, Repr

namespace Event

def level : Event → Level
  | .rejected .. | .skipped .. | .checksumMismatch .. => .warn
  | .parsed .. | .packed .. | .sections .. => .debug
  | .wrote .. | .opened .. => .info
  | .notCreated .. => .error

def text : Event → String
  | .rejected schema name cause => s!"rejecting {schema} item '{name}': {cause.message}"
  | .skipped schema cause => s!"skipping {schema} record: {cause.message}"
  | .parsed schema count => s!"parsed {count} {schema} items"
  | .packed schema layout depth => s!"{schema} layout: {layout.inspect} depth={depth}"
  | .wrote schema count bytes path => s!"wrote {count} {schema} items ({bytes} bytes) to {path}"
  | .notCreated output input cause => s!"failed to create {output} from {input}: {cause.message}"
  | .checksumMismatch stored computed =>
    s!"checksum mismatch: header {hexWord stored.toUInt32}, computed {hexWord computed.toUInt32}"
  | .sections schema strings layout => s!"{schema} sections: strings={strings} {layout.inspect}"
  | .opened schema path count bytes =>
    s!"opened {schema} database {path} ({count} items, {bytes} bytes)"

/-- The event as a log line. -/
def line (e : Event) : String := s!"{e.level.label} {e.text}"

end Event

/-- The outcome of an operation, with the events on the way. -/
structure Logged (β : Type) where
  events : List Event
  outcome : Except Error β

end Gazetteer
