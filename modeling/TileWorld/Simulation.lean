import TileWorld.Channel.Population
import TileWorld.Duration
import TileWorld.Maze.Route
import TileWorld.Message.Basic
import TileWorld.World.Basic

/-! The local simulation answers requests and ticks of a clock with the messages that a remote
server would send. -/

namespace TileWorld

structure SimulationSettings where
  tickPeriod : Duration
  /-- How many targets an agent tries before it rests again. -/
  targetAttempts : Nat
  spawn : SpawnSettings

def SimulationSettings.standard : SimulationSettings := ⟨.ofMillis 50, 16, .standard⟩

def maxTickStep : Float32 := 0.05

structure Simulation where
  world : World
  settings : SimulationSettings
  channel : String
  player : Option String
  words : Words

namespace Simulation

def new (settings : SimulationSettings) (words : Words) : Simulation :=
  ⟨.empty .standard, settings, defaultChannel, none, words⟩

/-- The persistent objects, under the name of the channel. -/
def stateMessage (s : Simulation) : ServerMessage := .state s.world.snapshot (some s.channel)

/-- Replaces the whole world by the first objects of the channel. -/
def repopulate (s : Simulation) (player : String) : Simulation :=
  let (population, words) :=
    Channel.populate s.world.dims s.settings.spawn s.channel player s.words
  let (_, cleared) := s.world.retain fun _ => false
  { s with world := (population.objects.foldl World.insert cleared).rebuildMaze, words }

/-- Enters a channel with a new player, whom `token` tells from all others. -/
def bootstrap (s : Simulation) (channel token : String) : List ServerMessage × Simulation :=
  let player := "player-" ++ token
  let s := { s with channel, player := some player }.repopulate player
  ([.assigned player, s.stateMessage], s)

def fullTurn : Float32 := 6.28318530717958647692528676655900577

/-- A point in a random direction from an agent's home, at most as far away as it wanders. -/
def drawTarget (d : Dims) (wander : Wander) (words : Words) : Point × Words :=
  let (turn, words) := words.unit
  let (share, words) := words.unit
  let angle := turn * fullTurn
  let radius := share * wander.radius
  (d.clamp ⟨wander.home.x + radius * angle.cos, wander.home.y + radius * angle.sin⟩, words)

/-- Draws targets until one is walkable. A target that cannot be reached is not replaced. -/
def routeToTarget (w : World) (start : Cell) (wander : Wander) :
    Nat → Words → Option (List Point) × Words
  | 0, words => (none, words)
  | attempts + 1, words =>
    let (target, words) := drawTarget w.dims wander words
    match (w.dims.cell? target).filter w.maze.isWalkable with
    | some goal => ((w.maze.findPath start goal).map w.dims.waypoints, words)
    | none => routeToTarget w start wander attempts words

/-- A path to a random target; none, and nothing drawn, for an agent outside the maze. -/
def planWander (w : World) (position : Point) (wander : Wander) (attempts : Nat) (words : Words) :
    Option (List Point) × Words :=
  match w.dims.cell? position with
  | none => (none, words)
  | some start => routeToTarget w start wander attempts words

/-- An agent that has rested and has nowhere to go. -/
structure Idle where
  id : String
  position : Point
  wander : Wander

def idle? (now : Float) (o : Object) : Option Idle := do
  let wander ← o.wander
  if !o.hasActivePath && wander.rested now then return ⟨o.id, o.position, wander⟩ else none

def idleAgents (w : World) (now : Float) : List Idle := w.objects.values.filterMap (idle? now)

/-- Sends one idle agent on its way, or to rest once more. -/
def dispatch (now : Float) (s : Simulation) (agent : Idle) : Option ServerMessage × Simulation :=
  let (path, words) :=
    planWander s.world agent.position agent.wander s.settings.targetAttempts s.words
  match path with
  | some path =>
    let world := s.world.modify agent.id (fun o => o.setPath path) fun o => o.id_setPath path
    (some (.route agent.id path), { s with world, words })
  | none =>
    let rest (o : Object) := { o with wander := o.wander.map fun w => { w with lastPath := now } }
    let world := s.world.modify agent.id rest fun _ => rfl
    (none, { s with world, words })

def dispatchAll (now : Float) : Simulation → List Idle → List ServerMessage × Simulation
  | s, [] => ([], s)
  | s, agent :: rest =>
    let (message, s) := s.dispatch now agent
    let (messages, s) := dispatchAll now s rest
    (message.toList ++ messages, s)

/-- One tick: motion, idle agents, decay, and a snapshot. -/
def tick (s : Simulation) (now : Float) (dt : Float32) : List ServerMessage × Simulation :=
  let (_, moved) := s.world.integrate dt now
  let (routes, s) := { s with world := moved }.dispatchAll now (idleAgents moved now)
  let (notices, swept) := s.world.sweep now
  let s := { s with world := swept }
  (routes ++ notices.map (fun n => .removed n.id n.layer) ++ [s.stateMessage], s)

/-- The cells from an object's position to a target, which is moved into the world first. -/
def routeTo? (w : World) (position target : Point) : Option (List Point) := do
  let start ← w.dims.cell? position
  let goal ← w.dims.cell? (w.dims.clamp target)
  (w.maze.findPath start goal).map w.dims.waypoints

def movePlayer (s : Simulation) (player : String) (target : Point) :
    List ServerMessage × Simulation :=
  match (s.world.find? player).bind fun o => routeTo? s.world o.position target with
  | some path =>
    let world := s.world.modify player (fun o => o.setPath path) fun o => o.id_setPath path
    ([.route player path], { s with world })
  | none => ([], s)

/-- Adds an item that is missing, or takes away one that is there. -/
def toggle (item : String) (active : Bool) (layers : List String) : List String :=
  match active, layers.contains item with
  | true, false => layers ++ [item]
  | false, true => layers.filter (· != item)
  | _, _ => layers

def activateItem (s : Simulation) (player item : String) (active : Bool) :
    List ServerMessage × Simulation :=
  if s.world.contains player then
    let equip (o : Object) := { o with layers := toggle item active o.layers }
    let s := { s with world := s.world.modify player equip fun _ => rfl }
    ([s.stateMessage], s)
  else ([], s)

def echo (player room text : String) : ServerMessage :=
  .chat (.object [("playerId", .string player), ("roomId", .string room), ("text", .string text)])

def handle (s : Simulation) (m : ClientMessage) : List ServerMessage × Simulation :=
  match s.player with
  | none => ([], s)
  | some player =>
    match m with
    | .move target => s.movePlayer player target
    | .chat room text => ([echo player room text], s)
    | .activate item active => s.activateItem player item active
    | .changeChannel channel =>
      let s := { s with channel }.repopulate player
      ([s.stateMessage], s)

end Simulation

end TileWorld
