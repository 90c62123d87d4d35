import TileWorld.Geometry

/-! A rectangle of cells, each free or blocked. The cells outside it are never walkable. -/

namespace TileWorld

structure Maze where
  rows : Nat
  cols : Nat
  /-- Row by row, whether a cell is blocked. -/
  tiles : Array Bool
  size_tiles : tiles.size = rows * cols

namespace Maze

def free (rows cols : Nat) : Maze :=
  ⟨rows, cols, Array.replicate (rows * cols) false, Array.size_replicate⟩

instance : Inhabited Maze := ⟨free 0 0⟩

def ofDims (d : Dims) : Maze := free d.mazeRows d.mazeCols

def inBounds (m : Maze) (c : Cell) : Bool := c.row < m.rows && c.col < m.cols

/-- The place of a cell among the tiles. -/
def index (m : Maze) (c : Cell) : Nat := c.row * m.cols + c.col

/-- Whether a cell is blocked, none outside the maze. -/
def blocked? (m : Maze) (c : Cell) : Option Bool :=
  if m.inBounds c then m.tiles[m.index c]? else none

def isWalkable (m : Maze) (c : Cell) : Bool := m.blocked? c == some false

/-- Blocks or frees a cell; a cell outside the maze changes nothing. -/
def set (m : Maze) (c : Cell) (blocked : Bool) : Maze :=
  if m.inBounds c then
    { m with
      tiles := m.tiles.setIfInBounds (m.index c) blocked
      size_tiles := by simpa using m.size_tiles }
  else m

def block (m : Maze) (cells : List Cell) : Maze :=
  cells.foldl (fun m c => m.set c true) m

def ofObstacles (d : Dims) (positions : List Point) : Maze :=
  positions.foldl (fun m p => m.block (d.footprint p)) (ofDims d)

def blockedCount (m : Maze) : Nat := m.tiles.count true

@[simp]
theorem rows_set (m : Maze) (c : Cell) (b : Bool) : (m.set c b).rows = m.rows := by
  unfold set; split <;> rfl

@[simp]
theorem cols_set (m : Maze) (c : Cell) (b : Bool) : (m.set c b).cols = m.cols := by
  unfold set; split <;> rfl

theorem inBounds_iff {m : Maze} {c : Cell} :
    m.inBounds c = true ↔ c.row < m.rows ∧ c.col < m.cols := by
  simp [inBounds]

@[simp]
theorem inBounds_set (m : Maze) (c d : Cell) (b : Bool) :
    (m.set c b).inBounds d = m.inBounds d := by
  simp [inBounds]

theorem index_lt {m : Maze} {c : Cell} (h : m.inBounds c = true) : m.index c < m.tiles.size := by
  obtain ⟨hrow, hcol⟩ := inBounds_iff.1 h
  rw [m.size_tiles, index]
  have := Nat.mul_le_mul_right m.cols (Nat.succ_le_of_lt hrow)
  rw [Nat.succ_mul] at this
  omega

/-- Different cells have different places. -/
theorem index_inj {m : Maze} {c d : Cell} (hc : m.inBounds c = true) (hd : m.inBounds d = true)
    (h : m.index c = m.index d) : c = d := by
  obtain ⟨crow, ccol⟩ := c
  obtain ⟨drow, dcol⟩ := d
  have hc := (inBounds_iff.1 hc).2
  have hd := (inBounds_iff.1 hd).2
  simp only [index] at h hc hd
  have hcol : ccol = dcol := by
    have := congrArg (· % m.cols) h
    simpa [Nat.mul_add_mod_of_lt, Nat.mod_eq_of_lt, hc, hd, Nat.mul_comm] using this
  have hrow : crow = drow :=
    Nat.eq_of_mul_eq_mul_right (Nat.zero_lt_of_lt hc) (by omega)
  rw [hcol, hrow]

theorem blocked?_set (m : Maze) (c d : Cell) (b : Bool) :
    (m.set c b).blocked? d = if d = c ∧ m.inBounds c then some b else m.blocked? d := by
  unfold blocked?
  rw [inBounds_set]
  by_cases hc : m.inBounds c
  · by_cases hd : m.inBounds d
    · have hi : (m.set c b).index d = m.index d := by simp [index]
      have ht : (m.set c b).tiles = m.tiles.setIfInBounds (m.index c) b := by simp [set, hc]
      rw [hi, ht]
      by_cases h : d = c
      · subst h
        simp [hc, index_lt hc]
      · have hne : m.index c ≠ m.index d := fun he => h (index_inj hc hd he).symm
        simp [hd, h, hne]
    · have h : d ≠ c := fun he => hd (he ▸ hc)
      simp [hd, h]
  · simp [hc, set]

@[simp]
theorem blocked?_free (rows cols : Nat) (c : Cell) :
    (free rows cols).blocked? c = if c.row < rows ∧ c.col < cols then some false else none := by
  unfold blocked?
  by_cases h : (free rows cols).inBounds c
  · have hi := index_lt h
    have hb := inBounds_iff.1 h
    simp only [free] at hi hb ⊢
    simp_all [inBounds]
  · have hb := mt inBounds_iff.2 h
    simp_all [free]

end Maze

end TileWorld
