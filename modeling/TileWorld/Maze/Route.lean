import TileWorld.Maze.Basic
import TileWorld.Maze.Frontier

/-! Best-first search over the four neighbours of a cell, with unit steps and the distance without
obstacles as the estimate of what remains. -/

namespace TileWorld

/-- The walkable neighbours of a cell, in the order in which the search tries them. -/
def Maze.neighbours (m : Maze) (c : Cell) : List Cell :=
  let north : List Cell := if c.row = 0 then [] else [⟨c.row - 1, c.col⟩]
  let eastAndSouth : List Cell := [⟨c.row, c.col + 1⟩, ⟨c.row + 1, c.col⟩]
  let west : List Cell := if c.col = 0 then [] else [⟨c.row, c.col - 1⟩]
  (north ++ eastAndSouth ++ west).filter m.isWalkable

/-- How a search first reached a cell along the cheapest route seen so far. -/
structure Visit where
  cost : Nat
  parent : Option Cell
  deriving DecidableEq, Repr

/-- A cell to be expanded, with the cost that it had when it entered the frontier. -/
structure Node where
  cost : Nat
  cell : Cell
  deriving DecidableEq, Repr

structure Search where
  frontier : Frontier Node
  /-- One place per tile of the maze. -/
  visits : Array (Option Visit)

namespace Search

variable (m : Maze) (goal : Cell)

def visit? (s : Search) (c : Cell) : Option Visit := (s.visits[m.index c]?).join

/-- Records a cheaper route to a cell and lets the cell wait for its turn. -/
def enter (s : Search) (c : Cell) (v : Visit) : Search :=
  { frontier := s.frontier.push (v.cost + c.manhattan goal) ⟨v.cost, c⟩
    visits := s.visits.setIfInBounds (m.index c) (some v) }

def start (c : Cell) : Search :=
  enter m goal ⟨.empty, Array.replicate (m.rows * m.cols) none⟩ c ⟨0, none⟩

/-- Enters a neighbour of an expanded node unless a route as cheap is known already. -/
def relax (node : Node) (s : Search) (next : Cell) : Search :=
  let cost := node.cost + 1
  match s.visit? m next with
  | some v => if v.cost ≤ cost then s else s.enter m goal next ⟨cost, some node.cell⟩
  | none => s.enter m goal next ⟨cost, some node.cell⟩

/-- Expands a node, unless a cheaper route to its cell was found while it waited. -/
def expand (s : Search) (node : Node) : Search :=
  match s.visit? m node.cell with
  | some v =>
    if v.cost = node.cost then (m.neighbours node.cell).foldl (relax m goal node) s else s
  | none => s

/-- Takes nodes from the frontier until the goal is among them, at most `bound` of them. The final
state of the search, none if the frontier runs empty first. -/
def run : Nat → Search → Option Search
  | 0, _ => none
  | bound + 1, s =>
    match s.frontier.pop? with
    | none => none
    | some (node, frontier) =>
      let s := { s with frontier }
      if node.cell = goal then some s else run bound (s.expand m goal node)

/-- The cells from the start to `c`, followed by `path`, along the recorded parents. -/
def trace (s : Search) : Nat → Cell → List Cell → List Cell
  | 0, c, path => c :: path
  | bound + 1, c, path =>
    match (s.visit? m c).bind (·.parent) with
    | none => c :: path
    | some parent => s.trace bound parent (c :: path)

end Search

namespace Maze

/-- Every expansion enters at most four nodes and no cell is expanded twice. -/
def searchBound (m : Maze) : Nat := 4 * (m.rows * m.cols) + 2

/-- A shortest route from `start` to `goal`, both included, through walkable cells. The start may
be blocked, so that an object standing on an obstacle can walk off it. -/
def findPath (m : Maze) (start goal : Cell) : Option (List Cell) :=
  if !m.inBounds start || !m.isWalkable goal then none
  else if start = goal then some [start]
  else
    (Search.run m goal m.searchBound (Search.start m goal start)).map fun s =>
      s.trace m (m.rows * m.cols) goal []

end Maze

/-- The corners of the cells of a route, in world space. -/
def Dims.waypoints (d : Dims) (cells : List Cell) : List Point := cells.map d.cellCorner

end TileWorld
