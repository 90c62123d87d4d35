import TileWorld.Geometry
import TileWorld.Object.Kind

/-! Objects of a world. Obstacles are persistent; markers are not and decay. -/

namespace TileWorld

/-- How an agent wanders: within a radius of its home, resting between two paths. -/
structure Wander where
  home : Point
  radius : Float32
  cooldown : Float
  lastPath : Float
  deriving Inhabited

/-- Whether the rest after the last path is over. -/
def Wander.rested (w : Wander) (now : Float) : Bool := w.cooldown ≤ now - w.lastPath

structure Object where
  id : String
  position : Point
  color : Color
  kind : Kind
  speed : Float32
  layers : List String
  decay : Option Float
  wander : Option Wander
  path : List Point
  cursor : Nat
  obstacle : Bool
  persistent : Bool
  deriving Inhabited

inductive ObjectError where
  | fleetingObstacle (id : String)
  | unknownKind (name : String)
  | cursorOutOfRange (cursor length : Nat)
  | notFinite (id : String)
  deriving DecidableEq, Repr

namespace Object

/-- An object with every default of its kind. Walls are obstacles; all but markers persist. -/
def ofKind (kind : Kind) (id : String) (position : Point) : Object where
  id := id
  position := position
  color := kind.defaultColor
  kind := kind
  speed := kind.defaultSpeed
  layers := kind.defaultLayers
  decay := none
  wander := none
  path := []
  cursor := 0
  obstacle := kind == .wall
  persistent := !kind.isMarker

def wall : String → Point → Object := ofKind .wall

def player : String → Point → Object := ofKind .player

def agent (id : String) (position : Point) (wander : Wander) : Object :=
  { ofKind .questGiver id position with wander := some wander }

def ephemeral (kind : Kind) (id : String) (position : Point) (decay : Float) :
    Except ObjectError Object :=
  let o := ofKind kind id position
  if o.obstacle then .error (.fleetingObstacle id)
  else .ok { o with persistent := false, decay := some decay }

def hasActivePath (o : Object) : Bool := o.cursor < o.path.length

/-- Whether all waypoints of a path are reached and the path is not yet cleared. -/
def isPathComplete (o : Object) : Bool := !o.path.isEmpty && o.cursor == o.path.length

def setPath (o : Object) (path : List Point) : Object := { o with path, cursor := 0 }

@[simp]
theorem id_setPath (o : Object) (path : List Point) : (o.setPath path).id = o.id := rfl

def clearPath (o : Object) : Object := o.setPath []

/-- Whether the decay time of an object that does not persist has come. -/
def isExpired (o : Object) (now : Float) : Bool :=
  !o.persistent && o.decay.any (· ≤ now)

/-- A waypoint is reached when it is at most this much farther away than one step. -/
def snapTolerance : Float32 := 1e-3

/-- Moves towards the next waypoint for `dt` seconds and gives the displacement. A waypoint within
reach is snapped to; what is left of the step does not carry over to the next one. -/
def advance (o : Object) (dt : Float32) : Object × Point :=
  match o.path[o.cursor]? with
  | none => (o, ⟨0, 0⟩)
  | some target =>
    let dx := target.x - o.position.x
    let dy := target.y - o.position.y
    let distance := (dx * dx + dy * dy).sqrt
    let step := o.speed * dt
    if distance ≤ step + snapTolerance then
      ({ o with position := target, cursor := o.cursor + 1 }, ⟨dx, dy⟩)
    else
      let mx := dx / distance * step
      let my := dy / distance * step
      ({ o with position := ⟨o.position.x + mx, o.position.y + my⟩ }, ⟨mx, my⟩)

end Object

end TileWorld
