import TileWorld.Maze.Basic

/-! What every cell of a maze holds after any list of footprints was blocked. -/

namespace TileWorld.Maze

/-! ## Blocking cells -/

@[simp]
theorem rows_block (m : Maze) (cells : List Cell) : (m.block cells).rows = m.rows := by
  rw [block]
  induction cells generalizing m with
  | nil => rfl
  | cons c cells ih => rw [List.foldl_cons, ih, rows_set]

@[simp]
theorem cols_block (m : Maze) (cells : List Cell) : (m.block cells).cols = m.cols := by
  rw [block]
  induction cells generalizing m with
  | nil => rfl
  | cons c cells ih => rw [List.foldl_cons, ih, cols_set]

theorem blocked?_of_inBounds {m : Maze} {c : Cell} (h : m.inBounds c = true) :
    ∃ b, m.blocked? c = some b := by
  simp only [blocked?, h, if_true]
  exact ⟨_, Array.getElem?_eq_getElem (index_lt h)⟩

theorem blocked?_of_not_inBounds {m : Maze} {c : Cell} (h : ¬ m.inBounds c = true) :
    m.blocked? c = none := by
  simp [blocked?, h]

theorem inBounds_of_isWalkable {m : Maze} {c : Cell} (h : m.isWalkable c = true) :
    m.inBounds c = true := by
  by_cases hc : m.inBounds c = true
  · exact hc
  · simp [isWalkable, blocked?_of_not_inBounds hc] at h

private theorem blocked?_set_true (m : Maze) (c d : Cell) :
    (m.set c true).blocked? d = (m.blocked? d).map (· || decide (d = c)) := by
  rw [blocked?_set]
  by_cases hd : m.inBounds d = true
  · obtain ⟨b, hb⟩ := blocked?_of_inBounds hd
    by_cases h : d = c
    · subst h
      simp [hd, hb]
    · simp [h, hb]
  · have h : ¬ (d = c ∧ m.inBounds c = true) := by
      rintro ⟨rfl, hc⟩
      exact hd hc
    simp [h, blocked?_of_not_inBounds hd]

/-- Blocking a list of cells blocks its members and leaves all other cells as they are. -/
theorem blocked?_block (m : Maze) (cells : List Cell) (c : Cell) :
    (m.block cells).blocked? c = (m.blocked? c).map (· || decide (c ∈ cells)) := by
  rw [block]
  induction cells generalizing m with
  | nil => simp
  | cons d cells ih =>
      rw [List.foldl_cons, ih, blocked?_set_true, Option.map_map]
      congr 1
      funext b
      simp [Bool.or_assoc]

/-! ## Blocking footprints -/

/-- Footprint after footprint is blocked as one list of cells. -/
theorem foldl_block_footprint (d : Dims) (m : Maze) (positions : List Point) :
    positions.foldl (fun m p => m.block (d.footprint p)) m =
      m.block (positions.flatMap d.footprint) := by
  rw [block, List.foldl_flatMap]
  rfl

theorem ofObstacles_eq_block (d : Dims) (positions : List Point) :
    ofObstacles d positions = (ofDims d).block (positions.flatMap d.footprint) :=
  foldl_block_footprint d (ofDims d) positions

@[simp]
theorem rows_ofObstacles (d : Dims) (positions : List Point) :
    (ofObstacles d positions).rows = d.mazeRows := by
  rw [ofObstacles_eq_block, rows_block]
  rfl

@[simp]
theorem cols_ofObstacles (d : Dims) (positions : List Point) :
    (ofObstacles d positions).cols = d.mazeCols := by
  rw [ofObstacles_eq_block, cols_block]
  rfl

/-- A cell of the maze is blocked exactly if the footprint of an obstacle covers it. -/
theorem blocked?_ofObstacles (d : Dims) (positions : List Point) (c : Cell) :
    (ofObstacles d positions).blocked? c =
      if c.row < d.mazeRows ∧ c.col < d.mazeCols then
        some (decide (∃ p ∈ positions, c ∈ d.footprint p))
      else none := by
  rw [ofObstacles_eq_block, blocked?_block, ofDims, blocked?_free]
  split <;> simp

end TileWorld.Maze
