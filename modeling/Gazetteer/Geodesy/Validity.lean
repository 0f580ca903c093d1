import Gazetteer.Error

/-!
# Valid names and coordinates

The conditions that a record has to meet before it is taken: its coordinates are numbers, they lie
on the globe, and its name is a non-empty text without a NUL.

| here | operation |
| --- | --- |
| `Position.check` | `validate_position` |
| `Position.checkFinite`, `Ecef.checkFinite` | `validate_finite`, `finite_ecef` |
| `checkName` | `validate_name` |
-/

namespace Gazetteer

def minAltitude : Binary64 := -11000
def maxAltitude : Binary64 := 1000000

/-- `ok` if the condition holds, otherwise the refusal of some input. -/
def unlessInput (holds : Bool) (cause : InputError) : Except Error Unit :=
  if holds then .ok () else .error (.invalidInput cause)

/-- Whether a number lies between two ends, both included. -/
def Binary64.within (x lo hi : Binary64) : Bool := decide (lo ≤ x) && decide (x ≤ hi)

namespace Position

/-- Refuses a coordinate that is not a finite number; the first such coordinate is named. -/
def checkFinite (p : Position) : Except Error Unit := do
  unlessInput p.lat.isFinite (.notFinite .latitude p.lat)
  unlessInput p.lon.isFinite (.notFinite .longitude p.lon)
  unlessInput p.alt.isFinite (.notFinite .altitude p.alt)

/-- Refuses a position off the globe; the first coordinate at fault is named. -/
def check (p : Position) : Except Error Unit := do
  p.checkFinite
  unlessInput (p.lat.within (-90) 90) (.outOfRange .latitude p.lat)
  unlessInput (p.lon.within (-180) 180) (.outOfRange .longitude p.lon)
  unlessInput (p.alt.within minAltitude maxAltitude) (.outOfRange .altitude p.alt)

end Position

/-- Refuses an earth-centred position that is not finite. -/
def Ecef.checkFinite (p : Ecef) : Except Error Unit := unlessInput p.isFinite (.ecefNotFinite p)

/-- Refuses an empty name and a name with a NUL. -/
def checkName (name : String) : Except Error Unit := do
  unlessInput (!name.isEmpty) .emptyName
  unlessInput (!name.toList.contains '\x00') (.nameWithNul name)

end Gazetteer
