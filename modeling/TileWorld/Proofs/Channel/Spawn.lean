import TileWorld.Proofs.Channel.Population
import TileWorld.Proofs.Maze.Raster

/-! # Where a channel begins -/

namespace TileWorld

/-! ## Corners -/

namespace Dims

theorem mazeRows_standard : standard.mazeRows = 128 := rfl

theorem mazeCols_standard : standard.mazeCols = 128 := rfl

theorem gridCols_standard : standard.gridCols = 64 := rfl

theorem gridRows_standard : standard.gridRows = 64 := rfl

private theorem isFinite_mul_cellSize :
    ∀ n : Fin 64, (Number.ofCount n * standard.cellSize).isFinite = true := by
  decide +kernel

private theorem isFinite_mul_mazeCellSize :
    ∀ n : Fin 128, (Number.ofCount n * standard.mazeCellSize).isFinite = true := by
  decide +kernel

theorem isFinite_squareCorner {s : Square} (hcol : s.col < 64) (hrow : s.row < 64) :
    (standard.squareCorner s).isFinite = true := by
  rw [Point.isFinite, Bool.and_eq_true]
  exact ⟨isFinite_mul_cellSize ⟨s.col, hcol⟩, isFinite_mul_cellSize ⟨s.row, hrow⟩⟩

theorem isFinite_cellCorner {c : Cell} (hrow : c.row < 128) (hcol : c.col < 128) :
    (standard.cellCorner c).isFinite = true := by
  rw [Point.isFinite, Bool.and_eq_true]
  exact ⟨isFinite_mul_mazeCellSize ⟨c.col, hcol⟩, isFinite_mul_mazeCellSize ⟨c.row, hrow⟩⟩

theorem isFinite_clampUpTo {limit x : Float32} (hlimit : limit.isFinite = true)
    (hx : x.isFinite = true) : (clampUpTo limit x).isFinite = true := by
  rw [clampUpTo]
  split
  · rfl
  · split
    · exact hlimit
    · exact hx

theorem isFinite_clamp {p : Point} (hp : p.isFinite = true) :
    (standard.clamp p).isFinite = true := by
  have hwidth : (room standard.width standard.cellSize).isFinite = true := rfl
  have hheight : (room standard.height standard.cellSize).isFinite = true := rfl
  rw [Point.isFinite, Bool.and_eq_true] at hp ⊢
  exact ⟨isFinite_clampUpTo hwidth hp.1, isFinite_clampUpTo hheight hp.2⟩

end Dims

namespace Channel

variable {settings : SpawnSettings} {m : Maze} {channel player : String} {words : Words}
  {o : Object}

/-! ## Layouts -/

theorem lt_of_mem_mounds {s : Square}
    (hs : s ∈ (Layout.ofChannel channel).mounds.flatMap Mound.squares) :
    s.col < 64 ∧ s.row < 64 := by
  revert s
  unfold Layout.ofChannel
  split <;> decide +kernel

theorem lt_of_mem_agentStarts {s : Square} (hs : s ∈ (Layout.ofChannel channel).agentStarts) :
    s.col < 64 ∧ s.row < 64 := by
  revert s
  unfold Layout.ofChannel
  split <;> decide

/-! ## Placing -/

theorem isFinite_placePlayer (starts : List Square) (words : Words) :
    (placePlayer .standard m starts words).1.isFinite = true := by
  rw [placePlayer]
  dsimp only
  split
  · rename_i hfree
    rw [isFreeSquare, Bool.and_eq_true, decide_eq_true_iff, Dims.gridCols_standard,
      Dims.gridRows_standard] at hfree
    exact Dims.isFinite_squareCorner hfree.1.1 hfree.1.2
  · exact Dims.isFinite_squareCorner (by decide) (by decide)

/-- One attempt. A draw allows for so many refusals that it must not be evaluated, which the general
equation of a recursion would do. -/
theorem sampleSpawn_succ (preferred : Cell) (radius attempts : Nat) (words : Words) :
    sampleSpawn m preferred radius (attempts + 1) words =
      (let (down, words) := words.offset radius
      let (right, words) := words.offset radius
      let row := signedShift preferred.row down
      let col := signedShift preferred.col right
      if row < 0 ∨ col < 0 then sampleSpawn m preferred radius attempts words
      else
        let cell : Cell := ⟨row.toNat, col.toNat⟩
        if m.isWalkable cell then (some cell, words)
        else sampleSpawn m preferred radius attempts words) :=
  rfl

theorem isWalkable_of_sampleSpawn {preferred cell : Cell} {radius attempts : Nat}
    (h : (sampleSpawn m preferred radius attempts words).1 = some cell) :
    m.isWalkable cell = true := by
  induction attempts generalizing words with
  | zero => cases h
  | succ attempts ih =>
      rw [sampleSpawn_succ] at h
      generalize words.offset radius = first at h
      obtain ⟨down, words⟩ := first
      dsimp only at h
      generalize words.offset radius = second at h
      obtain ⟨right, words⟩ := second
      dsimp only at h
      split at h
      · exact ih h
      · split at h
        · rename_i hwalkable
          exact Option.some_inj.mp h ▸ hwalkable
        · exact ih h

theorem isWalkable_of_findSpawn {preferred cell : Cell}
    (h : (findSpawn m preferred settings words).1 = some cell) : m.isWalkable cell = true := by
  rw [findSpawn] at h
  split at h
  · rename_i hwalkable
    cases h
    exact hwalkable
  · exact isWalkable_of_sampleSpawn h

theorem isFinite_placeAgent (hrows : m.rows = 128) (hcols : m.cols = 128) {preferred : Square}
    (hcol : preferred.col < 64) (hrow : preferred.row < 64) :
    (placeAgent .standard settings m preferred words).1.isFinite = true := by
  have hwanted := Dims.isFinite_clamp (Dims.isFinite_squareCorner hcol hrow)
  rw [placeAgent]
  split
  · exact hwanted
  · split
    · rename_i found rest hfound
      have hwalkable : m.isWalkable found = true := isWalkable_of_findSpawn (by rw [hfound])
      have hin := Maze.inBounds_iff.mp (Maze.inBounds_of_isWalkable hwalkable)
      exact Dims.isFinite_cellCorner (hrows ▸ hin.1) (hcols ▸ hin.2)
    · exact hwanted

theorem isFinite_of_mem_placeAgents (hrows : m.rows = 128) (hcols : m.cols = 128) {n : Nat}
    {starts : List Square} (hstarts : ∀ s ∈ starts, s.col < 64 ∧ s.row < 64)
    (h : o ∈ (placeAgents .standard settings m n starts words).1) :
    o.position.isFinite = true := by
  induction starts generalizing n words with
  | nil => cases h
  | cons s starts ih =>
      obtain ⟨hcol, hrow⟩ := hstarts s List.mem_cons_self
      rcases List.mem_cons.mp h with rfl | hrest
      · exact isFinite_placeAgent hrows hcols hcol hrow
      · exact ih (fun t ht => hstarts t (List.mem_cons_of_mem s ht)) hrest

/-- Everything that enters a channel stands at a finite point. -/
theorem isFinite_of_mem_populate
    (h : o ∈ (populate .standard settings channel player words).1.objects) :
    o.position.isFinite = true := by
  rcases List.mem_append.mp h with hwall | hrest
  · rw [walls_populate] at hwall
    obtain ⟨s, hs, rfl⟩ := exists_square_of_mem_walls hwall
    obtain ⟨hcol, hrow⟩ := lt_of_mem_mounds hs
    exact Dims.isFinite_squareCorner hcol hrow
  · rcases List.mem_cons.mp hrest with rfl | hagent
    · exact isFinite_placePlayer _ _
    · refine isFinite_of_mem_placeAgents ?_ ?_ (fun s hs => lt_of_mem_agentStarts hs) hagent
      · rw [Maze.rows_ofObstacles, Dims.mazeRows_standard]
      · rw [Maze.cols_ofObstacles, Dims.mazeCols_standard]

end Channel

end TileWorld
