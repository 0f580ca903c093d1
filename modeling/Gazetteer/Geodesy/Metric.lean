import Gazetteer.Geodesy.Ellipsoid

/-!
# Distances

A short separation is measured along the straight line through the earth, the *chord*. A long one is
converted to the arc of the great circle that the chord subtends. Where short ends and long begins
is the threshold of the metric.

| here | operation |
| --- | --- |
| `correctedDistance` | `corrected_distance` |
| `Metric.distance` | `distance`, `compute_dist` |
-/

namespace Gazetteer

/-- Mean diameter of the earth in metres. -/
def earthDiameter : Binary64 := 2 * 6371000

/-- The distance for a straight separation of `chord` metres: the chord itself up to the threshold,
the arc above it. A chord longer than the diameter counts as the diameter. -/
def correctedDistance [Trig] (chord threshold : Binary64) : Binary64 :=
  if chord ≤ threshold then chord
  else earthDiameter * Trig.asin ((chord / earthDiameter).least 1)

/-- A way to measure distances, given by the separation from which arcs are used. -/
structure Metric where
  threshold : Binary64
deriving DecidableEq, Inhabited, Repr

/-- Metres between two points. -/
def Metric.distance [Trig] (m : Metric) (a b : Ecef) : Binary64 :=
  correctedDistance (a.distance b) m.threshold

end Gazetteer
