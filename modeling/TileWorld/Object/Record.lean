import TileWorld.Json.Decoder
import TileWorld.Object.Basic

/-! Objects on the wire: everything but the wandering of agents, with the kind as a name that may be
unknown. -/

namespace TileWorld

structure Record where
  id : String
  x : Float32
  y : Float32
  color : Color
  obstacle : Bool
  speed : Float32
  kind : String
  layers : List String
  path : List Point
  cursor : Nat
  decay : Option Float
  persistent : Bool
  deriving Inhabited

namespace Point

/-- A waypoint on the wire. -/
def toJson (p : Point) : Json := .object [("X", .ofSingle p.x), ("Y", .ofSingle p.y)]

def ofJson? (j : Json) : Option Point := do
  match ← j.record? ["X", "Y"] with
  | [x, y] => return ⟨← Json.required Json.single? x, ← Json.required Json.single? y⟩
  | _ => none

end Point

namespace Record

def fieldNames : List String :=
  ["objId", "x", "y", "colorR", "colorG", "colorB", "colorA", "isObstacle", "speed",
    "networkObjectType", "objectLayerIds", "path", "pathIndex", "decayTime", "isPersistent"]

/-- The fields in ascending order; a decay time is left out when there is none. -/
def toJson (r : Record) : Json :=
  .object <|
    [("colorA", .int r.color.alpha.toNat), ("colorB", .int r.color.blue.toNat),
      ("colorG", .int r.color.green.toNat), ("colorR", .int r.color.red.toNat)] ++
    (r.decay.map fun t => ("decayTime", Json.ofReal t)).toList ++
    [("isObstacle", .bool r.obstacle), ("isPersistent", .bool r.persistent),
      ("networkObjectType", .string r.kind), ("objId", .string r.id),
      ("objectLayerIds", .array (r.layers.map .string)),
      ("path", .array (r.path.map Point.toJson)), ("pathIndex", .int r.cursor),
      ("speed", .ofSingle r.speed), ("x", .ofSingle r.x), ("y", .ofSingle r.y)]

open Json in
def ofJson? (j : Json) : Option Record := do
  match ← j.record? fieldNames with
  | [id, x, y, red, green, blue, alpha, obstacle, speed, kind, layers, path, cursor, decay,
      persistent] =>
    return {
      id := ← required string? id
      x := ← required single? x
      y := ← required single? y
      color := ⟨← withDefault byte? 255 red, ← withDefault byte? 255 green,
        ← withDefault byte? 255 blue, ← withDefault byte? 255 alpha⟩
      obstacle := ← withDefault bool? false obstacle
      speed := ← withDefault single? 0 speed
      kind := ← required string? kind
      layers := ← withDefault (list? string?) [] layers
      path := ← withDefault (list? Point.ofJson?) [] path
      cursor := ← withDefault count? 0 cursor
      decay := ← optional real? decay
      persistent := ← required bool? persistent }
  | _ => none

end Record

namespace Object

def toRecord (o : Object) : Record where
  id := o.id
  x := o.position.x
  y := o.position.y
  color := o.color
  obstacle := o.obstacle
  speed := o.speed
  kind := o.kind.name
  layers := o.layers
  path := o.path
  cursor := o.cursor
  decay := o.decay
  persistent := o.persistent

/-- The object that a record tells of. Without layers it gets those of its kind, and a path whose
waypoints are all reached is cleared. -/
def ofRecord (r : Record) : Except ObjectError Object := do
  let some kind := Kind.ofName? r.kind | throw (.unknownKind r.kind)
  if r.obstacle && !r.persistent then throw (.fleetingObstacle r.id)
  if r.path.length < r.cursor then throw (.cursorOutOfRange r.cursor r.path.length)
  if !(r.x.isFinite && r.y.isFinite) then throw (.notFinite r.id)
  let o : Object := {
    id := r.id
    position := ⟨r.x, r.y⟩
    color := r.color
    kind := kind
    speed := r.speed
    layers := if r.layers.isEmpty then kind.defaultLayers else r.layers
    decay := r.decay
    wander := none
    path := r.path
    cursor := r.cursor
    obstacle := r.obstacle
    persistent := r.persistent }
  return if o.isPathComplete then o.clearPath else o

/-- Everything that the program tells about an object. -/
def toJson (o : Object) : Json := o.toRecord.toJson

end Object

end TileWorld
