import TileWorld.Message.Basic
import TileWorld.World.Reconcile

/-! The client's replica follows the messages of a server, moves its objects in between, and
predicts markers that only the renderer cares about. -/

namespace TileWorld

def clickDecay : Float := 0.8

def pathDecay : Float := 2.5

structure Replica where
  world : World
  player : Option String
  channel : Option String
  /-- How many markers were made so far; each has a number of its own. -/
  markers : Nat

namespace Replica

def empty : Replica := ⟨.empty .standard, none, none, 0⟩

def localPlayer (r : Replica) : Option Object := r.player.bind r.world.find?

def markerId (kind : String) (number : Nat) : String := "gfx-" ++ kind ++ "-" ++ toString number

/-- Adds a marker under a new number. -/
def addMarker (r : Replica) (kind : Kind) (word : String) (p : Point) (decay : Float) : Replica :=
  let number := r.markers + 1
  match Object.ephemeral kind (markerId word number) p decay with
  | .ok marker => { r with world := r.world.insert marker, markers := number }
  | .error _ => { r with markers := number }

def addPathMarkers (r : Replica) (path : List Point) (now : Float) : Replica :=
  path.foldl (fun r p => r.addMarker .pathPoint "path" p (now + pathDecay)) r

/-- Follows one message; the notices are for the renderer. -/
def apply (r : Replica) (m : ServerMessage) (now : Float) : List Notice × Replica :=
  match m with
  | .state objects channel =>
    let (notices, world) := r.world.reconcile objects
    (notices, { r with world, channel := channel.or r.channel })
  | .assigned player => ([], { r with player := some player })
  | .route mover path =>
    if r.world.contains mover then
      let world := r.world.modify mover (fun o => o.setPath path) fun o => o.id_setPath path
      let followed := { r with world }
      ([], if r.player = some mover then followed.addPathMarkers path now else followed)
    else ([], r)
  | .removed id layer => ([⟨id, layer⟩], r)
  | .message _ | .chat _ => ([], r)

/-- `apply` as the program does it, which ends where a maze cannot be rebuilt. -/
def tryApply (r : Replica) (m : ServerMessage) (now : Float) : Option (List Notice × Replica) :=
  match m with
  | .state objects _ => (r.world.tryReconcile objects).map fun _ => r.apply m now
  | _ => some (r.apply m now)

/-- Asks to go somewhere, and marks the nearest place inside the world. -/
def requestMove (r : Replica) (target : Point) (now : Float) : ClientMessage × Replica :=
  (.move target,
    r.addMarker .clickPointer "click" (r.world.dims.clamp target) (now + clickDecay))

/-- One frame: moves the objects and retires decayed ones. -/
def update (r : Replica) (dt : Float32) (now : Float) : List Motion × List Notice × Replica :=
  let (motions, world) := r.world.integrate dt now
  let (notices, world) := world.sweep now
  (motions, notices, { r with world })

/-- `update` as the program does it, which ends where a maze cannot be rebuilt. -/
def tryUpdate (r : Replica) (dt : Float32) (now : Float) :
    Option (List Motion × List Notice × Replica) :=
  ((r.world.integrate dt now).2.trySweep now).map fun _ => r.update dt now

end Replica

end TileWorld
