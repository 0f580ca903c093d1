import Gazetteer.Settings.Basic
import Gazetteer.Toml.Document

/-!
# Settings as TOML

Settings are four keys outside all tables. Other keys are passed over, but the whole text has to be
a TOML document. A threshold may be written as a whole number.

| here | operation |
| --- | --- |
| `Settings.ofToml`, `Settings.toToml` | `from_toml`, `to_toml` |
-/

namespace Gazetteer

namespace Settings

/-- The value of a field in a document; an error if what stands there has another type. -/
def tomlField (doc : Toml.Document) (name : String) (kind : FieldKind) :
    Except SettingsFault (Option FieldValue) :=
  match kind, doc.root? name with
  | _, none => .ok none
  | .flag, some (.value (.bool b)) => .ok (some (.flag b))
  | .real, some (.value (.real x)) => .ok (some (.real x))
  | .real, some (.value (.int n)) => .ok (some (.real (.ofDecimal (decide (n < 0)) n.natAbs 0)))
  | _, some _ => .error .toml

/-- The settings of a TOML text. -/
def ofToml (text : String) : Except SettingsFault Settings :=
  match Toml.document? text with
  | none => .error .toml
  | some doc => do
    let values ← shape.fields.mapM fun (name, kind) => tomlField doc name kind
    (ofValues values).checked

/-- A truth value as TOML writes it. -/
def tomlFlag (b : Bool) : String := if b then "true" else "false"

/-- The settings as a TOML text, one key a line. -/
def toToml (s : Settings) : String :=
  s!"verify_checksum = {tomlFlag s.verifyChecksum}\n" ++
  s!"long_range_threshold_m = {s.longRangeThreshold.text .toml}\n" ++
  s!"validate_coordinates = {tomlFlag s.validateCoordinates}\n" ++
  s!"skip_invalid_records = {tomlFlag s.skipInvalidRecords}\n"

end Settings
end Gazetteer
