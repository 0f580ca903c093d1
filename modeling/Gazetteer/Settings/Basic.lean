import Gazetteer.Error
import Gazetteer.Json.Printer
import Gazetteer.Json.Reader

/-!
# Settings

Four values steer the building and reading of a database. They can be kept as JSON or TOML; a value
that a text leaves out has its default. Only the threshold can be out of order.

| here | operation |
| --- | --- |
| `Settings.check` | `validate` |
| `Settings.ofJson`, `Settings.toJsonText` | `from_json`, `to_json` |
-/

namespace Gazetteer

structure Settings where
  /-- Compare the check value of a database when it is opened. -/
  verifyChecksum : Bool := true
  /-- The separation in metres above which distances are measured along the great circle. -/
  longRangeThreshold : Binary64 := 100000
  /-- Refuse items whose coordinates are off the globe. -/
  validateCoordinates : Bool := true
  /-- Pass over bad rows of a text instead of giving up at the first one. -/
  skipInvalidRecords : Bool := true
deriving DecidableEq, Repr

instance : Inhabited Settings := ⟨{}⟩

namespace Settings

/-- The threshold has to be a positive finite number. -/
def check (s : Settings) : Except SettingsError Unit :=
  if !s.longRangeThreshold.isFinite then .error .thresholdNotFinite
  else if s.longRangeThreshold ≤ 0 then .error .thresholdNotPositive
  else .ok ()

/-- Whether two settings agree, thresholds being compared as numbers. -/
def same (a b : Settings) : Bool :=
  a.verifyChecksum == b.verifyChecksum && a.longRangeThreshold.numEq b.longRangeThreshold &&
    a.validateCoordinates == b.validateCoordinates && a.skipInvalidRecords == b.skipInvalidRecords

/-! ## Fields -/

/-- The fields by name, in the order in which they are written. -/
def shape : RecordShape where
  fields := [("verify_checksum", .flag), ("long_range_threshold_m", .real),
    ("validate_coordinates", .flag), ("skip_invalid_records", .flag)]
  required := false

/-- The flag that a field holds, or the default. -/
def flagOr (default : Bool) : Option FieldValue → Bool
  | some (.flag b) => b
  | _ => default

/-- The number that a field holds, or the default. -/
def realOr (default : Binary64) : Option FieldValue → Binary64
  | some (.real x) => x
  | _ => default

/-- The settings with the given values of the fields of `shape`. -/
def ofValues (values : FieldValues) : Settings :=
  let d : Settings := {}
  let v := fun (i : Nat) => values[i]?.getD none
  { verifyChecksum := flagOr d.verifyChecksum (v 0)
    longRangeThreshold := realOr d.longRangeThreshold (v 1)
    validateCoordinates := flagOr d.validateCoordinates (v 2)
    skipInvalidRecords := flagOr d.skipInvalidRecords (v 3) }

end Settings

instance : JsonFields Settings :=
  ⟨fun s => [("verify_checksum", .bool s.verifyChecksum),
    ("long_range_threshold_m", .real64 s.longRangeThreshold),
    ("validate_coordinates", .bool s.validateCoordinates),
    ("skip_invalid_records", .bool s.skipInvalidRecords)]⟩

/-- Why a text gives no settings. -/
inductive SettingsFault where
  | json (fault : JsonFault)
  | toml
  | invalid (cause : SettingsError)
deriving DecidableEq, Inhabited, Repr

namespace Settings

/-- Settings that are in order. -/
def checked (s : Settings) : Except SettingsFault Settings :=
  match s.check with
  | .ok () => .ok s
  | .error cause => .error (.invalid cause)

/-- The settings of a JSON text. -/
def ofJson (text : String) : Except SettingsFault Settings :=
  match readRecord shape (jsonTokens text) with
  | .error fault => .error (.json fault)
  | .ok values => (ofValues values).checked

/-- The settings as a JSON text, one field a line. -/
def toJsonText (s : Settings) : String := (toJson s).pretty

end Settings
end Gazetteer
