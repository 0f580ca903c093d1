import Gazetteer.Geodesy.Position

/-!
# The WGS84 ellipsoid

Conversion between geodetic and earth-centred positions. The trigonometric functions are a
parameter, the class `Trig`: what holds of the conversions holds for every choice of them.

| here | operation |
| --- | --- |
| `Position.toEcef` | `wgs84_to_ecef` |
| `Ecef.toPosition` | `ecef_to_wgs84` |
| `Position.isDegenerate` | `is_degenerate` |
-/

namespace Gazetteer

/-- The elementary functions that geodesy is computed with, angles in radians. -/
class Trig where
  sin : Binary64 → Binary64
  cos : Binary64 → Binary64
  asin : Binary64 → Binary64
  acos : Binary64 → Binary64
  /-- The angle of the point with the given ordinate and abscissa. -/
  atan2 : Binary64 → Binary64 → Binary64

/-! ## Constants -/

def pi : Binary64 := 3.141592653589793

def toRadians (x : Binary64) : Binary64 := x * (pi / 180)

def toDegrees (x : Binary64) : Binary64 := x * (180 / pi)

namespace Ellipsoid

/-- The semi-major axis in metres. -/
def semiMajorAxis : Binary64 := 6378137

/-- The square of the first eccentricity. -/
def eccentricitySquared : Binary64 := 6.694379990141317e-3

/-- Points nearer to the centre than this have no meaningful geodetic position. -/
def minRadius : Binary64 := 100000

/-- The altitude that marks a point without a geodetic position. -/
def degenerateAltitude : Binary64 := -1.0e7

/-- Stands for the position of a point too near to the centre, or of a point that is not finite. -/
def degenerate : Position := ⟨0, 0, degenerateAltitude⟩

/-! Constants of the closed form of the geodetic position. -/

def a1 : Binary64 := semiMajorAxis * eccentricitySquared
def a2 : Binary64 := a1 * a1
def a3 : Binary64 := a1 * eccentricitySquared / 2
def a4 : Binary64 := 2.5 * a2
def a5 : Binary64 := a1 + a3
def a6 : Binary64 := 1 - eccentricitySquared

end Ellipsoid

open Ellipsoid

section
variable [Trig]

/-- The earth-centred position of a geodetic one. -/
def Position.toEcef (p : Position) : Ecef :=
  let lat := toRadians p.lat
  let lon := toRadians p.lon
  let sinLat := Trig.sin lat
  let cosLat := Trig.cos lat
  let n := semiMajorAxis / (1 - eccentricitySquared * sinLat * sinLat).sqrt
  ⟨(n + p.alt) * cosLat * Trig.cos lon,
   (n + p.alt) * cosLat * Trig.sin lon,
   (n * (1 - eccentricitySquared) + p.alt) * sinLat⟩

/-- First estimate of the latitude of a point, with its sine, its cosine and the square of the sine.
The sine is the better base near the equator and the cosine near the poles. -/
def latitudeEstimate (zp w r s2 c2 : Binary64) : Binary64 × Binary64 × Binary64 × Binary64 :=
  let u := a2 / r
  let v := a3 - a4 / r
  if 0.3 < c2 then
    let s := (zp / r) * (1 + c2 * (a1 + u + s2 * v) / r)
    let ss := s * s
    (Trig.asin s, s, (1 - ss).sqrt, ss)
  else
    let c := (w / r) * (1 - s2 * (a5 - u - c2 * v) / r)
    let ss := 1 - c * c
    (Trig.acos c, ss.sqrt, c, ss)

/-- The geodetic position of an earth-centred one: a closed-form estimate and one correction. -/
def Ecef.toPosition (p : Ecef) : Position :=
  let zp := p.z.abs
  let w2 := p.x * p.x + p.y * p.y
  let w := w2.sqrt
  let r2 := w2 + p.z * p.z
  let r := r2.sqrt
  if !r.isFinite || decide (r < minRadius) then degenerate
  else
    let lon := Trig.atan2 p.y p.x
    let (lat, s, c, ss) := latitudeEstimate zp w r (p.z * p.z / r2) (w2 / r2)
    let g := 1 - eccentricitySquared * ss
    let rg := semiMajorAxis / g.sqrt
    let rf := a6 * rg
    let u := w - rg * c
    let v := zp - rf * s
    let f := c * u + s * v
    let m := c * v - s * u
    let q := m / (rf / g + f)
    let lat := lat + q
    ⟨toDegrees (if p.z < 0 then -lat else lat), toDegrees lon, f + m * q / 2⟩

end

/-- Whether a position is the mark of a point without one. -/
def Position.isDegenerate (p : Position) : Bool := p.alt.numEq degenerateAltitude

end Gazetteer
