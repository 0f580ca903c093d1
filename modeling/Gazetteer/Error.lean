import Gazetteer.Geodesy.Position
import Gazetteer.Text.Quoted
import Gazetteer.Text.Utf8

/-!
# Errors

What can go wrong, by cause. Every cause has one wording, given by `Error.message`.
-/

namespace Gazetteer

/-- The three numbers of a geodetic position. -/
inductive Coordinate where
  | latitude
  | longitude
  | altitude
deriving DecidableEq, Repr, Inhabited

namespace Coordinate

def label : Coordinate → String
  | .latitude => "Latitude"
  | .longitude => "Longitude"
  | .altitude => "Altitude"

end Coordinate

/-- A failed operation on files. -/
inductive IoError where
  /-- The system refused, with its error number and text. -/
  | system (code : Nat) (text : String)
  /-- A file that was to be read as text is not UTF-8. -/
  | notText
  /-- A path with a NUL, which no file can have. -/
  | nulInPath
deriving DecidableEq, Repr, Inhabited

namespace IoError

def notFound : IoError := .system 2 "No such file or directory"
def busy : IoError := .system 16 "Device or resource busy"
def alreadyExists : IoError := .system 17 "File exists"
def noDevice : IoError := .system 19 "No such device"
def notADirectory : IoError := .system 20 "Not a directory"
def isADirectory : IoError := .system 21 "Is a directory"
def nameTooLong : IoError := .system 36 "File name too long"

def message : IoError → String
  | .system code text => s!"{text} (os error {code})"
  | .notText => "stream did not contain valid UTF-8"
  | .nulInPath => "file name contained an unexpected NUL byte"

end IoError

/-- Input that is refused. -/
inductive InputError where
  | notFinite (coordinate : Coordinate) (value : Binary64)
  | outOfRange (coordinate : Coordinate) (value : Binary64)
  | emptyName
  | nameWithNul (name : String)
  | ecefNotFinite (ecef : Ecef)
  | queryNotFinite (position : Position)
  | distanceNaN
  | badField (column text : String)
  | unknownString (text : String)
  | recordSize (schema name : String) (written expected : Nat)
  | noFileName (path : String)
deriving DecidableEq, Repr, Inhabited

namespace InputError

/-- The range of a coordinate, as shown in a message. -/
def range : Coordinate → String
  | .latitude => "[-90.0, 90.0]"
  | .longitude => "[-180.0, 180.0]"
  | .altitude => "[-11000, 1000000] meters"

def message : InputError → String
  | .notFinite c v => s!"{c.label} must be finite, got: {v.text .message}"
  | .outOfRange c v => s!"{c.label} out of range {range c}: {v.text .message}"
  | .emptyName => "Item name must not be empty"
  | .nameWithNul name => s!"Item name contains NUL byte: {quoted name}"
  | .ecefNotFinite e => s!"ECEF position must be finite, got: {e.inspect}"
  | .queryNotFinite p => s!"query position must be finite: {p.inspect}"
  | .distanceNaN => "query distance is NaN"
  | .badField column text => s!"invalid {column} '{text}'"
  | .unknownString text => s!"string {quoted text} missing from string table"
  | .recordSize schema name written expected =>
    s!"{schema} record for '{name}' is {written} bytes, expected {expected}"
  | .noFileName path => s!"output path {path} has no file name"

end InputError

/-- Bytes that are no database. -/
inductive FormatError where
  | shortHeader (size : Nat)
  | badMagic (magic : Int32)
  | lengthMismatch (stored : Int32) (size : Nat)
  | checksumMismatch (stored computed : Int32)
  | negativeStringCount (count : Int32)
  | negativeStringLength (length : Int32) (index : Nat)
  | unterminatedString (index : Nat)
  | notUtf8 (index : Nat) (fault : Utf8Fault)
  | negativeItemCount (count : Int32)
  | itemSize (stored : Int32) (schema : String) (expected : Nat)
  | tableGeometry (length rehash : Int32)
  | sectionsEnd (stop size : Nat)
  | shortFile (path : String)
deriving DecidableEq, Repr, Inhabited

namespace FormatError

def message : FormatError → String
  | .shortHeader size => s!"buffer of {size} bytes is shorter than the header"
  | .badMagic magic => s!"bad magic {hexWord magic.toUInt32}"
  | .lengthMismatch stored size =>
    s!"header length {stored.toInt} does not match buffer length {size}"
  | .checksumMismatch _ _ => "checksum mismatch"
  | .negativeStringCount count => s!"negative string count {count.toInt}"
  | .negativeStringLength length index => s!"negative length {length.toInt} for string {index}"
  | .unterminatedString index => s!"string {index} is not terminated"
  | .notUtf8 index fault => s!"string {index} is not UTF-8: {fault.message}"
  | .negativeItemCount count => s!"negative item count {count.toInt}"
  | .itemSize stored schema expected =>
    s!"item size {stored.toInt} does not match {schema} record size {expected}"
  | .tableGeometry length rehash =>
    s!"invalid key map parameters length={length.toInt} rehash={rehash.toInt}"
  | .sectionsEnd stop size => s!"sections end at {stop} but buffer has {size} bytes"
  | .shortFile path => s!"{path} is too short to be a database"

end FormatError

/-- Sizes beyond what the file format can hold. -/
inductive SizeError where
  | int32 (what : String) (value : Nat)
  | itemCount (count : Nat)
  | tableFull
deriving DecidableEq, Repr, Inhabited

namespace SizeError

def message : SizeError → String
  | .int32 what value => s!"{what} {value} exceeds the 32-bit offset range"
  | .itemCount count => s!"{count} items exceed the key map capacity"
  | .tableFull => "key map is full"

end SizeError

/-- Damage met while reading a database. -/
inductive Damage where
  | outsideBuffer (length offset size : Nat)
  | negativeOffset (value : Int32) (offset : Nat)
  | stringIndex (index : Int32)
  | unendingProbe (hash : Int32) (slots : Nat)
  | nodeWithoutItem (node : Nat)
  | tooDeep (nodes levels : Nat)
  | itemNotFinite (offset : Nat)
  | tooManyNodes
deriving DecidableEq, Repr, Inhabited

namespace Damage

def message : Damage → String
  | .outsideBuffer length offset size =>
    s!"read of {length} bytes at offset {offset} outside buffer of {size} bytes"
  | .negativeOffset value offset => s!"negative offset {value.toInt} at {offset}"
  | .stringIndex index => s!"string index {index.toInt} out of range"
  | .unendingProbe hash slots =>
    s!"key map probe for hash {hexWord hash.toUInt32} did not terminate after {slots} slots"
  | .nodeWithoutItem node => s!"kd node {node} has no item"
  | .tooDeep nodes levels => s!"kd-tree of {nodes} nodes deeper than {levels} levels"
  | .itemNotFinite offset => s!"item {offset} has non-finite ECEF coordinates"
  | .tooManyNodes => "kd-tree reaches more nodes than it holds"

end Damage

/-- A row of a delimited text that is no record. -/
inductive RowError where
  | fieldCount (expected found : Nat)
  | field (cause : InputError)
deriving DecidableEq, Repr, Inhabited

namespace RowError

def message : RowError → String
  | .fieldCount expected found => s!"expected {expected} fields, found {found}"
  | .field cause => s!"invalid input: {cause.message}"

end RowError

/-- Settings that cannot be used. -/
inductive SettingsError where
  | thresholdNotFinite
  | thresholdNotPositive
deriving DecidableEq, Repr, Inhabited

namespace SettingsError

def message : SettingsError → String
  | .thresholdNotFinite => "Long range threshold must be finite"
  | .thresholdNotPositive => "Long range threshold must be positive"

end SettingsError

/-- Operations that have no result at all: the caller broke what they rest on. -/
inductive Abort where
  /-- A probe of a table without slots, or with a rehash of zero. -/
  | emptyTable
  /-- A box whose lower bound on some axis is not below its upper bound. -/
  | contradictoryBox
  /-- A header to be filled in that is not there. -/
  | noHeader
  /-- A node or item index outside the tree it belongs to. -/
  | outsideTree
deriving DecidableEq, Repr, Inhabited

/-- Everything that can go wrong. -/
inductive Error where
  | io (cause : IoError)
  | invalidInput (cause : InputError)
  | invalidFormat (cause : FormatError)
  | schemaMismatch (expected found : String)
  | duplicateName (name : String)
  | noItems
  | tooLarge (cause : SizeError)
  | corrupted (cause : Damage)
  | badRow (line : Nat) (cause : RowError)
  | settings (cause : SettingsError)
  | aborted (cause : Abort)
deriving DecidableEq, Repr, Inhabited

namespace Error

def message : Error → String
  | .io cause => s!"I/O error: {cause.message}"
  | .invalidInput cause => s!"invalid input: {cause.message}"
  | .invalidFormat cause => s!"invalid database format: {cause.message}"
  | .schemaMismatch expected found => s!"schema mismatch: expected '{expected}', found '{found}'"
  | .duplicateName name => s!"duplicate item name '{name}'"
  | .noItems => "no items to write"
  | .tooLarge cause => s!"database too large: {cause.message}"
  | .corrupted cause => s!"database corrupted: {cause.message}"
  | .badRow line cause => s!"parse error at line {line}: {cause.message}"
  | .settings cause => s!"invalid configuration: {cause.message}"
  | .aborted _ => "operation aborted"

/-- Whether an item was refused because a coordinate is not a finite number. -/
def isNotFinite : Error → Bool
  | .invalidInput (.notFinite _ _) => true
  | .invalidInput (.ecefNotFinite _) => true
  | _ => false

end Error
end Gazetteer
