import Gazetteer.Number.Reading

/-!
# Arguments of a command line

A command takes operands in a fixed order and options anywhere between them. An option is given by
its long name or by a letter, with its value attached or in the next argument, and at most once.
After `--` every argument is an operand. Values are read as soon as they are met, so the first fault
or the first request for help decides.
-/

namespace Gazetteer.CommandLine

/-- The schemas that the command line knows. -/
inductive ItemKind where
  | place
  | airport
deriving DecidableEq, Repr, Inhabited

/-- What an argument can be. -/
inductive ArgKind where
  | schema
  | path
  | text
  | letter
  | count
  | number
  /-- A number that may be negative even where a minus sign would start an option. -/
  | coordinate
deriving DecidableEq, Repr, Inhabited

/-- An argument that was read. -/
inductive ArgValue where
  | schema (kind : ItemKind)
  | path (path : String)
  | text (text : String)
  | letter (c : Char)
  | count (n : Nat)
  | number (x : Binary64)
deriving DecidableEq, Repr, Inhabited

namespace ArgKind

/-- Reads an argument. A path cannot be empty. -/
def read? : ArgKind → String → Option ArgValue
  | .schema, "place" => some (.schema .place)
  | .schema, "airport" => some (.schema .airport)
  | .schema, _ => none
  | .path, s => if s.isEmpty then none else some (.path s)
  | .text, s => some (.text s)
  | .letter, s =>
    match s.toList with
    | [c] => some (.letter c)
    | _ => none
  | .count, s => (readCount? s).map .count
  | .number, s | .coordinate, s => (Binary64.ofText? s).map .number

end ArgKind

/-- An option that takes a value. -/
structure OptionSpec where
  long : String
  short : Option Char
  kind : ArgKind
deriving DecidableEq, Repr, Inhabited

/-- What can follow the name of a command. -/
structure Grammar where
  operands : List ArgKind
  options : List OptionSpec
  /-- Commands that may follow; the arguments from their name on are left to them. -/
  commands : List String
  /-- Whether the version can be asked for. -/
  hasVersion : Bool
deriving DecidableEq, Repr, Inhabited

/-- Why arguments give no values. -/
inductive Stop where
  | misuse
  | help
  | version
deriving DecidableEq, Repr, Inhabited

/-- The arguments read so far. -/
structure Scanned where
  operands : List ArgValue
  /-- Options by their long name. -/
  given : List (String × ArgValue)
  /-- An option that still needs its value. -/
  pending : Option OptionSpec
  /-- The name of a command and the arguments left to it. -/
  rest : List String
deriving DecidableEq, Repr, Inhabited

/-! ## The shape of an argument -/

/-- How an argument looks. -/
inductive Shape where
  | escape
  | long (name : List Char) (value : Option String)
  | letters (cs : List Char)
  | plain
deriving DecidableEq, Repr

/-- The name and the attached value of a long option. -/
def splitValue (cs : List Char) : List Char × Option String :=
  (cs.takeWhile (· ≠ '='),
    match cs.dropWhile (· ≠ '=') with
    | _ :: value => some (String.ofList value)
    | [] => none)

def shapeOf (arg : String) : Shape :=
  match arg.toList with
  | ['-', '-'] => .escape
  | '-' :: '-' :: cs => let (name, value) := splitValue cs; .long name value
  | '-' :: c :: cs => .letters (c :: cs)
  | _ => .plain

/-- Whether characters look like a number without its sign: digits, of which the first may be
followed by one point, and an exponent without a sign. -/
def looksNumeric (cs : List Char) : Bool :=
  let mantissa := cs.takeWhile fun c => !isExponentMark c
  let exponent := cs.dropWhile fun c => !isExponentMark c
  let mantissaFine := match mantissa with
    | [] => exponent.isEmpty
    | c :: rest => c.isDigit && (rest.filter fun c => !c.isDigit).all (· == '.') &&
        decide (rest.count '.' ≤ 1)
  let exponentFine := match exponent with
    | [] => true
    | [_] => false
    | _ :: digits => digits.all Char.isDigit
  mantissaFine && exponentFine

namespace Grammar

variable (g : Grammar)

/-! ## Values -/

/-- Takes the value of an option, which must not have one yet. -/
def give (s : Scanned) (o : OptionSpec) (text : String) : Except Stop Scanned :=
  match o.kind.read? text with
  | none => .error .misuse
  | some v =>
    if (s.given.lookup o.long).isSome then .error .misuse
    else .ok { s with given := (o.long, v) :: s.given, pending := none }

/-- Takes an operand. -/
def operand (s : Scanned) (text : String) : Except Stop Scanned := do
  if s.pending.isSome then throw .misuse
  match g.operands[s.operands.length]?.bind (·.read? text) with
  | some v => return { s with operands := s.operands ++ [v] }
  | none => throw .misuse

/-- Takes an option, with its value if that is attached. -/
def option (s : Scanned) (o : OptionSpec) (value : Option String) : Except Stop Scanned := do
  if s.pending.isSome then throw .misuse
  match value with
  | some text => give s o text
  | none => return { s with pending := some o }

/-- Stops at a request, unless an option lacks its value. -/
def request (s : Scanned) (stop : Stop) : Stop := if s.pending.isSome then .misuse else stop

/-! ## Options -/

/-- Takes a long option. -/
def longOption (s : Scanned) (name : List Char) (value : Option String) : Except Stop Scanned :=
  match g.options.find? fun o => o.long.toList == name, value with
  | some o, value => option s o value
  | none, some _ => .error .misuse
  | none, none =>
    if name == "help".toList then .error (request s .help)
    else if g.hasVersion && name == "version".toList then .error (request s .version)
    else .error .misuse

/-- Takes letters. The value of an option may follow its letter, with or without an equals sign. -/
def letterOption (s : Scanned) : List Char → Except Stop Scanned
  | [] => .ok s
  | c :: cs =>
    match g.options.find? fun o => o.short == some c, cs with
    | some o, [] => option s o none
    | some o, '=' :: value => option s o (some (String.ofList value))
    | some o, value => option s o (some (String.ofList value))
    | none, _ =>
      if c == 'h' then .error (request s .help)
      else if g.hasVersion && c == 'V' then .error (request s .version)
      else .error .misuse

/-- Whether the next operand may be a number with a minus sign. -/
def expectsCoordinate (s : Scanned) : Bool := g.operands[s.operands.length]? == some .coordinate

/-- Takes an argument as the value of the pending option, or else as an operand. -/
def value (s : Scanned) (text : String) : Except Stop Scanned :=
  match s.pending with
  | some o => give s o text
  | none => g.operand s text

/-! ## All arguments -/

/-- Takes the operands after `--`. -/
def scanOperands : Scanned → List String → Except Stop Scanned
  | s, [] => if s.pending.isSome then .error .misuse else .ok s
  | s, arg :: args => do scanOperands (← g.operand s arg) args

/-- Takes arguments in order. -/
def scan : Scanned → List String → Except Stop Scanned
  | s, [] => if s.pending.isSome then .error .misuse else .ok s
  | s, arg :: args =>
    match shapeOf arg with
    | .escape => g.scanOperands s args
    | .long name value => do scan (← g.longOption s name value) args
    | .letters cs => do
      if g.expectsCoordinate s && looksNumeric cs then scan (← g.value s arg) args
      else scan (← g.letterOption s cs) args
    | .plain => do
      if s.pending.isNone && g.commands.contains arg then return { s with rest := arg :: args }
      else scan (← g.value s arg) args

/-- The arguments of a command, all operands being there. -/
def read (args : List String) : Except Stop Scanned := do
  let s ← g.scan ⟨[], [], none, []⟩ args
  if s.operands.length = g.operands.length then return s else throw .misuse

end Grammar
end Gazetteer.CommandLine
