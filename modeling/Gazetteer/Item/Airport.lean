import Gazetteer.Rows

/-!
# Airports

An airport is named by its identifier. Its altitude is the field elevation, which is kept in feet.
-/

namespace Gazetteer

/-- An airport. -/
structure Airport where
  base : ItemBase
  city : String
  country : String
  elevationFt : Binary32
  runways : Int32
  towered : Bool
deriving DecidableEq, Inhabited, Repr

namespace Airport

def metersPerFoot : Binary64 := 0.3048

/-- An airport at a latitude and longitude. -/
def ofPosition [Trig] (name : String) (lat lon : Binary64) (elevationFt : Binary32)
    (city country : String) (runways : Int32) (towered : Bool) : Airport :=
  ⟨.ofPosition name ⟨lat, lon, elevationFt.widen * metersPerFoot⟩, city, country, elevationFt,
    runways, towered⟩

/-- The airport of a record. -/
def ofPayload (base : ItemBase) (bytes : List UInt8) (table : StringTable) :
    Except Error Airport := do
  let city ← table.resolve (int32At bytes 0)
  let country ← table.resolve (int32At bytes 4)
  return {
    base, city, country
    elevationFt := real32OfBytes ((bytes.drop 8).take 4)
    runways := int32At bytes 12
    towered := int32At bytes 16 ≠ 0 }

instance : Schema Airport where
  schemaName := "airport"
  payloadSize := 20
  base := base
  strings a := [a.city, a.country]
  payload a := [.text a.city, .text a.country, .real32 a.elevationFt, .int32 a.runways,
    .int32 (if a.towered then 1 else 0)]
  ofPayload := ofPayload

/-- The airport that the fields of a row describe. -/
def ofFields [Trig] : List String → Except RowError Airport
  | [name, lat, lon, elevation, city, country, runways, towered] => Except.mapError .field do
    let lat ← readField Binary64.ofText? lat "lat"
    let lon ← readField Binary64.ofText? lon "lon"
    let elevation ← readField Binary32.ofText? elevation "elevation_ft"
    let runways ← readField readInt32? runways "runways"
    let towered ← readField readFlag? towered "towered"
    return ofPosition name lat lon elevation city country runways towered
  | fields => .error (.fieldCount 8 fields.length)

instance [Trig] : Tabular Airport where
  columns := ["id", "lat", "lon", "elevation_ft", "city", "country", "runways", "towered"]
  ofFields := ofFields

instance : JsonFields Airport :=
  ⟨fun a => JsonFields.jsonFields a.base ++
    [("city", .str a.city), ("country", .str a.country), ("elevation_ft", .real32 a.elevationFt),
      ("runways", .int a.runways.toInt), ("towered", .bool a.towered)]⟩

end Airport
end Gazetteer
