import Gazetteer.Geodesy.Ellipsoid

/-!
# Native trigonometry

The elementary functions of the machine's mathematics library.
-/

namespace Gazetteer

/-- A function on machine floats as a function on words. -/
def onFloat (f : Float → Float) (x : Binary64) : Binary64 := .ofFloat (f x.toFloat)

instance : Trig where
  sin := onFloat Float.sin
  cos := onFloat Float.cos
  asin := onFloat Float.asin
  acos := onFloat Float.acos
  atan2 y x := .ofFloat (Float.atan2 y.toFloat x.toFloat)

end Gazetteer
