import Gazetteer.CommandLine.Run
import Gazetteer.Geodesy.Native
import Std.Time.DateTime.Timestamp

/-!
# The program

Connects the command line to the files, the clock and the streams of the machine.
-/

namespace Gazetteer

/-- The number that the system gives an error. It may come as it is or negated. -/
def systemCode (n : UInt32) : Nat := n.toInt32.toInt.natAbs

/-- An error of the system with its number, under its usual wording. -/
def systemError (code : UInt32) (details : String) : IoError :=
  match systemCode code with
  | 1 => .system 1 "Operation not permitted"
  | 2 => .notFound
  | 13 => .system 13 "Permission denied"
  | 16 => .busy
  | 17 => .alreadyExists
  | 18 => .system 18 "Invalid cross-device link"
  | 20 => .notADirectory
  | 21 => .isADirectory
  | 24 => .system 24 "Too many open files"
  | 28 => .system 28 "No space left on device"
  | 30 => .system 30 "Read-only file system"
  | 36 => .nameTooLong
  | 40 => .system 40 "Too many levels of symbolic links"
  | n => .system n details

/-- The error of a failed call. -/
def ioErrorOf (e : IO.Error) : IoError :=
  match e with
  | .alreadyExists _ c d | .interrupted _ c d | .noFileOrDirectory _ c d | .invalidArgument _ c d
  | .permissionDenied _ c d | .resourceExhausted _ c d | .inappropriateType _ c d
  | .noSuchThing _ c d => systemError c d
  | .otherError c d | .resourceBusy c d | .resourceVanished c d | .unsupportedOperation c d
  | .hardwareFault c d | .unsatisfiedConstraints c d | .illegalOperation c d | .protocolError c d
  | .timeExpired c d => systemError c d
  | .unexpectedEof => .system 0 "unexpected end of file"
  | .userError text => .system 0 text

/-- Makes a call and returns its error, if it has one. -/
def attempt {β : Type} (call : IO β) : IO (Except IoError β) := do
  try
    return .ok (← call)
  catch e =>
    return .error (ioErrorOf e)

/-- Makes a change to the files of the machine. No call of the standard library waits until a file is
stored, so `.sync` only opens the file once more and flushes that handle: it fails where the file
cannot be opened, and the system may still hold the content back. -/
def performNative : FileStep → IO Unit
  | .create path => IO.FS.writeBinFile path .empty
  | .append path bytes => IO.FS.withFile path .append fun h => h.write (Buffer.ofList bytes)
  | .sync path => IO.FS.withFile path .append fun h => h.flush
  | .rename source target => IO.FS.rename source target
  | .remove path => IO.FS.removeFile path

instance : FileStore IO where
  read path := attempt do return Buffer.bytes (← IO.FS.readBinFile path)
  map path := do
    match ← attempt (IO.FS.readBinFile path) with
    | .error e => return .error (if e = .isADirectory then .noDevice else e)
    | .ok buf => return .ok buf
  perform step := attempt (performNative step)

/-- The time in milliseconds since 1970. -/
def currentMillis : IO Int64 := do
  let now ← Std.Time.Timestamp.now
  return Int64.ofInt now.toMillisecondsSinceUnixEpoch.val

end Gazetteer

open Gazetteer in
def main (args : List String) : IO UInt32 := do
  let outcome ← CommandLine.run (← currentMillis) args
  for e in outcome.events do
    if e.level ≠ .debug then IO.eprintln e.line
  IO.print outcome.out
  IO.eprint outcome.err
  return outcome.code.toUInt32
