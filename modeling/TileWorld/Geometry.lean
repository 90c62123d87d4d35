import TileWorld.Number.Binary

/-! World space has its origin in the top left corner. Two lattices lie over it, the object grid and
the finer maze; all lengths are single-precision numbers. -/

namespace TileWorld

/-- A point of world space, or a displacement in it. -/
structure Point where
  x : Float32
  y : Float32
  deriving Inhabited

namespace Point

/-- Equality of numbers, for which the two zeros are equal and nothing equals a NaN. -/
def same (p q : Point) : Bool := p.x == q.x && p.y == q.y

def isFinite (p : Point) : Bool := p.x.isFinite && p.y.isFinite

end Point

/-- A cell of the maze. -/
structure Cell where
  row : Nat
  col : Nat
  deriving DecidableEq, Repr, Inhabited

namespace Cell

/-- The number of steps between two cells when nothing is in the way. -/
def manhattan (a b : Cell) : Nat :=
  (max a.row b.row - min a.row b.row) + (max a.col b.col - min a.col b.col)

end Cell

/-- A square of the object grid. -/
structure Square where
  col : Nat
  row : Nat
  deriving DecidableEq, Repr, Inhabited

/-- The sizes of the world and of its two lattices. -/
structure Dims where
  width : Float32
  height : Float32
  cellSize : Float32
  mazeCellSize : Float32
  deriving Inhabited

namespace Dims

def standard : Dims := ⟨2048, 2048, 32, 16⟩

def gridCols (d : Dims) : Nat := Number.count (d.width / d.cellSize)

def gridRows (d : Dims) : Nat := Number.count (d.height / d.cellSize)

def mazeCols (d : Dims) : Nat := Number.count (d.width / d.mazeCellSize)

def mazeRows (d : Dims) : Nat := Number.count (d.height / d.mazeCellSize)

/-- Which of `count` intervals of length `size`, laid side by side from zero, holds a value. -/
def index? (value size : Float32) (count : Nat) : Option Nat :=
  if !value.isFinite || value < 0 then none
  else
    let i := Number.count (value / size)
    if i < count then some i else none

theorem lt_of_index?_eq_some {value size : Float32} {count i : Nat}
    (h : index? value size count = some i) : i < count := by
  unfold index? at h
  grind

/-- The grid square that holds a point, none outside the grid. -/
def square? (d : Dims) (p : Point) : Option Square := do
  let col ← index? p.x d.cellSize d.gridCols
  let row ← index? p.y d.cellSize d.gridRows
  return ⟨col, row⟩

def squareCorner (d : Dims) (s : Square) : Point :=
  ⟨Number.ofCount s.col * d.cellSize, Number.ofCount s.row * d.cellSize⟩

/-- The maze cell that holds a point, none outside the maze. -/
def cell? (d : Dims) (p : Point) : Option Cell := do
  let col ← index? p.x d.mazeCellSize d.mazeCols
  let row ← index? p.y d.mazeCellSize d.mazeRows
  return ⟨row, col⟩

def cellCorner (d : Dims) (c : Cell) : Point :=
  ⟨Number.ofCount c.col * d.mazeCellSize, Number.ofCount c.row * d.mazeCellSize⟩

/-- The value nearest to `x` between zero and `limit`; a NaN stays as it is. -/
def clampUpTo (limit x : Float32) : Float32 :=
  if x < 0 then 0 else if limit < x then limit else x

/-- How far from the origin an object of one cell can stand inside a length. -/
def room (length cellSize : Float32) : Float32 :=
  let rest := length - cellSize
  if 0 < rest then rest else 0

/-- Moves a point so that an object standing there lies inside the world. -/
def clamp (d : Dims) (p : Point) : Point :=
  ⟨clampUpTo (room d.width d.cellSize) p.x, clampUpTo (room d.height d.cellSize) p.y⟩

/-- The lattice intervals of length `unit` touched by `[start, start + extent)`, clipped to the
first `count`, as a first index and the index behind the last. Bounds are 64-bit integers, and the
steps down from the one behind an interval to the last one in it are checked: none if one fails. -/
def span? (start extent unit : Float32) (count : Nat) : Option (Nat × Nat) := do
  let first := Number.floorInt64 (start / unit)
  let last ← Number.int64? (Number.ceilInt64 ((start + extent) / unit) - 1)
  let final ← Number.int64? (Int.bmod count (2 ^ 64) - 1)
  return ((max first 0).toNat, (min last final + 1).toNat)

def cells (cols rows : Nat × Nat) : List Cell :=
  (List.range' rows.1 (rows.2 - rows.1)).flatMap fun row =>
    (List.range' cols.1 (cols.2 - cols.1)).map fun col => ⟨row, col⟩

/-- The maze cells covered by an object, row by row, clipped to the maze. None stands for the end of
the program, which is built with checks for overflow. -/
def footprint? (d : Dims) (p : Point) : Option (List Cell) := do
  let cols ← span? p.x d.cellSize d.mazeCellSize d.mazeCols
  let rows ← span? p.y d.cellSize d.mazeCellSize d.mazeRows
  return cells cols rows

/-- The footprint where there is one. What rebuilds a maze has to ask for the others first. -/
def footprint (d : Dims) (p : Point) : List Cell := (d.footprint? p).getD []

end Dims

end TileWorld
