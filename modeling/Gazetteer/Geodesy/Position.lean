import Gazetteer.Number.Reading

/-!
# Positions

A place has two descriptions: geodetic (latitude and longitude in degrees, altitude in metres above
the ellipsoid) and earth-centred cartesian (metres along three axes fixed to the earth).

| here | operation |
| --- | --- |
| `Ecef.coord`, `Ecef.setCoord` | `axis`, `set_axis` |
| `Ecef.distanceSquared`, `Ecef.distance` | `distance_squared`, `distance` |
-/

namespace Gazetteer

/-- A geodetic position. -/
structure Position where
  lat : Binary64
  lon : Binary64
  alt : Binary64
deriving DecidableEq, Inhabited, Repr

/-- An earth-centred, earth-fixed cartesian position. -/
structure Ecef where
  x : Binary64
  y : Binary64
  z : Binary64
deriving DecidableEq, Inhabited, Repr

/-- The cartesian axes, in the order in which the levels of a spatial tree cycle through them. -/
inductive Axis where
  | x
  | y
  | z
deriving DecidableEq, Repr, Inhabited

namespace Axis

/-- The axis that a level of a spatial tree splits on. -/
def ofDepth (depth : Nat) : Axis :=
  match depth % 3 with
  | 0 => .x
  | 1 => .y
  | _ => .z

end Axis

namespace Position

def isFinite (p : Position) : Bool := p.lat.isFinite && p.lon.isFinite && p.alt.isFinite

/-- The position on the ellipsoid with the coordinates of a map, longitude first. -/
def ofMap (lon lat : Binary64) : Position := ⟨lat, lon, 0⟩

/-- The coordinates on a map, longitude first. -/
def toMap (p : Position) : Binary64 × Binary64 := (p.lon, p.lat)

/-- The fields by name, as shown in a message. -/
def inspect (p : Position) : String :=
  let t := fun (v : Binary64) => v.text .inspection
  s!"GeoPos \x7b lat: {t p.lat}, lon: {t p.lon}, alt: {t p.alt} \x7d"

end Position

namespace Ecef

def isFinite (p : Ecef) : Bool := p.x.isFinite && p.y.isFinite && p.z.isFinite

def coord (p : Ecef) : Axis → Binary64
  | .x => p.x
  | .y => p.y
  | .z => p.z

def setCoord (p : Ecef) (axis : Axis) (v : Binary64) : Ecef :=
  match axis with
  | .x => { p with x := v }
  | .y => { p with y := v }
  | .z => { p with z := v }

/-- The square of the length of the straight line between two points. -/
def distanceSquared (a b : Ecef) : Binary64 :=
  let dx := a.x - b.x
  let dy := a.y - b.y
  let dz := a.z - b.z
  dx * dx + dy * dy + dz * dz

/-- The length of the straight line between two points. -/
def distance (a b : Ecef) : Binary64 := (a.distanceSquared b).sqrt

/-- The fields by name, as shown in a message. -/
def inspect (p : Ecef) : String :=
  let t := fun (v : Binary64) => v.text .inspection
  s!"Ecef \x7b x: {t p.x}, y: {t p.y}, z: {t p.z} \x7d"

theorem coord_setCoord_self (p : Ecef) (axis : Axis) (v : Binary64) :
    (p.setCoord axis v).coord axis = v := by
  cases axis <;> rfl

theorem coord_setCoord_ne (p : Ecef) {a b : Axis} (v : Binary64) (h : b ≠ a) :
    (p.setCoord a v).coord b = p.coord b := by
  cases a <;> cases b <;> first | rfl | exact absurd rfl h

end Ecef
end Gazetteer
