import TileWorld.Channel.Layout
import TileWorld.Maze.Basic
import TileWorld.Object.Basic
import TileWorld.Random.Words

/-! The first objects of a channel: the walls of its mounds, a player and agents. Starts are checked
against the maze of the walls alone. -/

namespace TileWorld

/-- How a free cell is looked for near a blocked one. -/
structure SpawnSettings where
  /-- In maze cells, in both directions. -/
  radius : Nat
  attempts : Nat
  deriving DecidableEq, Repr

def SpawnSettings.standard : SpawnSettings := ⟨6, 24⟩

/-- How far agents wander from their home. -/
def wanderRadius : Float32 := 256

/-- How long agents rest between two paths, in seconds. -/
def pathCooldown : Float := 3

structure Population where
  walls : List Object
  player : Object
  agents : List Object

def Population.objects (p : Population) : List Object := p.walls ++ p.player :: p.agents

namespace Channel

def wallId (s : Square) : String := "wall-" ++ toString s.col ++ "-" ++ toString s.row

def agentId (n : Nat) : String := "bot-quest-provider-" ++ toString n

/-- Points with the same bits in both coordinates. -/
def samePlace (p q : Point) : Bool := p.x.toBits == q.x.toBits && p.y.toBits == q.y.toBits

/-- The walls of squares inside the grid, one per place; of squares with one corner the first
stays. The walls made so far come in reverse. -/
def wallsOn (d : Dims) : List Object → List Square → List Object
  | made, [] => made.reverse
  | made, s :: rest =>
    let corner := d.squareCorner s
    if s.col < d.gridCols ∧ s.row < d.gridRows ∧ !made.any (samePlace corner ·.position) then
      wallsOn d (.wall (wallId s) corner :: made) rest
    else wallsOn d made rest

def walls (d : Dims) (channel : String) : List Object :=
  wallsOn d [] ((Layout.ofChannel channel).mounds.flatMap Mound.squares)

/-- The coordinate `offset` steps from `n`, both read as signed words of 64 bits: one that passes
the end of the words comes out at their other end, as it does without checks for overflow. -/
def signedShift (n : Nat) (offset : Int) : Int := (n + offset).bmod (2 ^ 64)

/-- The same with checks for overflow, none where they end the program. -/
def signedShift? (n : Nat) (offset : Int) : Option Int :=
  Number.int64? (Int.bmod n (2 ^ 64) + offset)

/-- Tries cells at random offsets from a preferred one, none if all attempts miss. An attempt that
leaves the maze on the low side is spent like any other. -/
def sampleSpawn (m : Maze) (preferred : Cell) (radius : Nat) : Nat → Words → Option Cell × Words
  | 0, s => (none, s)
  | attempts + 1, s =>
    let (down, s) := s.offset radius
    let (right, s) := s.offset radius
    let row := signedShift preferred.row down
    let col := signedShift preferred.col right
    if row < 0 ∨ col < 0 then sampleSpawn m preferred radius attempts s
    else
      let cell : Cell := ⟨row.toNat, col.toNat⟩
      if m.isWalkable cell then (some cell, s)
      else sampleSpawn m preferred radius attempts s

/-- The preferred cell if it is walkable, else a walkable cell near it. -/
def findSpawn (m : Maze) (preferred : Cell) (settings : SpawnSettings) (s : Words) :
    Option Cell × Words :=
  if m.isWalkable preferred then (some preferred, s)
  else sampleSpawn m preferred settings.radius settings.attempts s

/-- `sampleSpawn` with checks for overflow. The radius has to be a signed word, too. -/
def sampleSpawn? (m : Maze) (preferred : Cell) (radius : Nat) :
    Nat → Words → Option (Option Cell × Words)
  | 0, s => some (none, s)
  | attempts + 1, s => do
    let _ ← Number.int64? radius
    let (down, s) := s.offset radius
    let row ← signedShift? preferred.row down
    let (right, s) := s.offset radius
    let col ← signedShift? preferred.col right
    if row < 0 ∨ col < 0 then sampleSpawn? m preferred radius attempts s
    else
      let cell : Cell := ⟨row.toNat, col.toNat⟩
      if m.isWalkable cell then return (some cell, s)
      else sampleSpawn? m preferred radius attempts s

/-- `findSpawn` with checks for overflow, none where they end the program. -/
def findSpawn? (m : Maze) (preferred : Cell) (settings : SpawnSettings) (s : Words) :
    Option (Option Cell × Words) :=
  if m.isWalkable preferred then some (some preferred, s)
  else sampleSpawn? m preferred settings.radius settings.attempts s

/-- Where an agent starts: a walkable cell near its square, or else the square itself, which may
then lie on an obstacle. -/
def placeAgent (d : Dims) (settings : SpawnSettings) (m : Maze) (preferred : Square) (s : Words) :
    Point × Words :=
  let wanted := d.clamp (d.squareCorner preferred)
  match d.cell? wanted with
  | none => (wanted, s)
  | some cell =>
    match findSpawn m cell settings s with
    | (some found, s) => (d.cellCorner found, s)
    | (none, s) => (wanted, s)

/-- Whether the corner of a square inside the grid is walkable. -/
def isFreeSquare (d : Dims) (m : Maze) (s : Square) : Bool :=
  decide (s.col < d.gridCols ∧ s.row < d.gridRows) && (d.cell? (d.squareCorner s)).any m.isWalkable

/-- Draws one of the start squares; a blocked one gives way to the fallback. -/
def placePlayer (d : Dims) (m : Maze) (starts : List Square) (s : Words) : Point × Words :=
  let (n, s) := s.below starts.length
  let drawn := (starts[n]?).getD fallbackStart
  (d.squareCorner (if isFreeSquare d m drawn then drawn else fallbackStart), s)

/-- Places the agents one after the other; the first gets the number `n`. -/
def placeAgents (d : Dims) (settings : SpawnSettings) (m : Maze) :
    Nat → List Square → Words → List Object × Words
  | _, [], s => ([], s)
  | n, preferred :: rest, s =>
    let (home, s) := placeAgent d settings m preferred s
    let (agents, s) := placeAgents d settings m (n + 1) rest s
    (.agent (agentId n) home ⟨home, wanderRadius, pathCooldown, 0⟩ :: agents, s)

def populate (d : Dims) (settings : SpawnSettings) (channel player : String) (s : Words) :
    Population × Words :=
  let walls := walls d channel
  let m := Maze.ofObstacles d (walls.map (·.position))
  let layout := Layout.ofChannel channel
  let (start, s) := placePlayer d m layout.playerStarts s
  let (agents, s) := placeAgents d settings m 0 layout.agentStarts s
  (⟨walls, .player player start, agents⟩, s)

end Channel

end TileWorld
