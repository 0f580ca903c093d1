import Gazetteer.Rows

/-!
# Places

The general schema: a named position with a category and a description.
-/

namespace Gazetteer

/-- A named location. -/
structure Place where
  base : ItemBase
  kind : String
  description : String
deriving DecidableEq, Inhabited, Repr

namespace Place

/-- A place at a position. -/
def ofPosition [Trig] (name : String) (pos : Position) (kind description : String) : Place :=
  ⟨.ofPosition name pos, kind, description⟩

/-- The place of a record. -/
def ofPayload (base : ItemBase) (bytes : List UInt8) (table : StringTable) :
    Except Error Place := do
  let kind ← table.resolve (int32At bytes 0)
  let description ← table.resolve (int32At bytes 4)
  return ⟨base, kind, description⟩

instance : Schema Place where
  schemaName := "place"
  payloadSize := 8
  base := base
  strings p := [p.kind, p.description]
  payload p := [.text p.kind, .text p.description]
  ofPayload := ofPayload

/-- The place that the fields of a row describe. -/
def ofFields [Trig] : List String → Except RowError Place
  | [name, lat, lon, alt, kind, description] => Except.mapError .field do
    let lat ← readField Binary64.ofText? lat "lat"
    let lon ← readField Binary64.ofText? lon "lon"
    let alt ← readField Binary64.ofText? alt "alt"
    return ofPosition name ⟨lat, lon, alt⟩ kind description
  | fields => .error (.fieldCount 6 fields.length)

instance [Trig] : Tabular Place where
  columns := ["name", "lat", "lon", "alt", "kind", "description"]
  ofFields := ofFields

instance : JsonFields Place :=
  ⟨fun p => JsonFields.jsonFields p.base ++
    [("kind", .str p.kind), ("description", .str p.description)]⟩

end Place
end Gazetteer
