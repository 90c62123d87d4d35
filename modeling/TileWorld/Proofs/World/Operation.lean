import TileWorld.Proofs.Geometry
import TileWorld.Proofs.Maze.Raster
import TileWorld.Proofs.Object.Motion
import TileWorld.Proofs.World.Frame
import TileWorld.World.Reconcile

/-! All that can happen to a world, one operation at a time, and the worlds to which operations lead
from an empty one. -/

namespace TileWorld

/-- One operation on a world. A change of an object keeps its id. -/
inductive World.Operation where
  | insert (o : Object)
  | remove (id : String)
  | modify (id : String) (change : Object → Object) (keepsId : ∀ o, (change o).id = o.id)
  | retain (keep : Object → Bool)
  | reconcile (entries : Table Json)
  | sweep (now : Float)
  | rebuildGrid
  | rebuildMaze
  | integrate (dt : Float32) (now : Float)

namespace World

/-- The world after one operation. -/
def perform (w : World) : Operation → World
  | .insert o => w.insert o
  | .remove id => w.remove id
  | .modify id change keepsId => w.modify id change keepsId
  | .retain keep => (w.retain keep).2
  | .reconcile entries => (w.reconcile entries).2
  | .sweep now => (w.sweep now).2
  | .rebuildGrid => w.rebuildGrid
  | .rebuildMaze => w.rebuildMaze
  | .integrate dt now => (w.integrate dt now).2

/-- The worlds of one geometry to which operations lead from an empty one. -/
inductive Reachable (d : Dims) : World → Prop where
  | empty : Reachable d (.empty d)
  | perform {w : World} (op : Operation) : Reachable d w → Reachable d (w.perform op)

/-- An object with this id is in the table and stands in the square. -/
def Located (w : World) (id : String) (s : Square) : Prop :=
  ∃ o, w.find? id = some o ∧ w.dims.square? o.position = some s

/-- The grid and the maze have the extent that the geometry gives them. -/
structure Shaped (d : Dims) (w : World) : Prop where
  dims : w.dims = d
  cols : w.grid.cols = d.gridCols
  rows : w.grid.rows = d.gridRows
  mazeRows : w.maze.rows = d.mazeRows
  mazeCols : w.maze.cols = d.mazeCols

variable {d : Dims} {w : World}

/-! ## Extents -/

theorem shaped_empty (d : Dims) : Shaped d (.empty d) :=
  ⟨rfl, rfl, rfl, rfl, rfl⟩

theorem Shaped.withObjects (h : Shaped d w) {objects : Table Object} (keyed : objects.Keyed) :
    Shaped d { w with objects, keyed } :=
  ⟨h.dims, h.cols, h.rows, h.mazeRows, h.mazeCols⟩

theorem Shaped.withGrid (h : Shaped d w) {g : Grid} (hc : g.cols = w.grid.cols)
    (hr : g.rows = w.grid.rows) : Shaped d { w with grid := g } :=
  ⟨h.dims, hc.trans h.cols, hr.trans h.rows, h.mazeRows, h.mazeCols⟩

theorem Shaped.vacate (h : Shaped d w) (id : String) (p : Point) : Shaped d (w.vacate id p) := by
  rw [World.vacate]
  split
  · refine h.withGrid ?_ ?_ <;> rw [Grid.vacate] <;> split <;> simp
  · exact h

theorem Shaped.file (h : Shaped d w) (id : String) (p : Point) : Shaped d (w.file id p) := by
  rw [World.file]
  split
  · refine h.withGrid ?_ ?_ <;> simp [Grid.file]
  · exact h

theorem Shaped.unfile (h : Shaped d w) (id : String) : Shaped d (w.unfile id) := by
  rw [World.unfile]
  split
  · exact h.vacate _ _
  · exact h

theorem Shaped.insert (h : Shaped d w) (o : Object) : Shaped d (w.insert o) :=
  ((h.unfile _).file _ _).withObjects _

theorem Shaped.erase (h : Shaped d w) (id : String) : Shaped d (w.erase id) := h.withObjects _

theorem Shaped.alter (h : Shaped d w) (id : String) {change : Object → Object}
    (keepsId : ∀ o, (change o).id = o.id) : Shaped d (w.alter id change keepsId) :=
  h.withObjects _

theorem Shaped.remove (h : Shaped d w) (id : String) : Shaped d (w.remove id) := by
  rw [World.remove]
  split
  · exact h
  · exact (h.erase _).vacate _ _

theorem Shaped.modify (h : Shaped d w) (id : String) {change : Object → Object}
    (keepsId : ∀ o, (change o).id = o.id) : Shaped d (w.modify id change keepsId) := by
  rw [World.modify]
  split
  · exact h
  · dsimp only
    split
    · exact h.alter _ _
    · exact ((h.alter _ _).vacate _ _).file _ _

theorem Shaped.retain (h : Shaped d w) (keep : Object → Bool) : Shaped d (w.retain keep).2 :=
  List.foldlRecOn _ _ h fun _ hv _ _ => hv.remove _

theorem Shaped.freshGrid (h : Shaped d w) : Shaped d { w with grid := .ofDims w.dims } := by
  refine ⟨h.dims, ?_, ?_, h.mazeRows, h.mazeCols⟩ <;> rw [h.dims] <;> rfl

theorem Shaped.rebuildGrid (h : Shaped d w) : Shaped d w.rebuildGrid :=
  List.foldlRecOn _ _ h.freshGrid fun _ hv _ _ => hv.file _ _

theorem Shaped.rebuildMaze (h : Shaped d w) : Shaped d w.rebuildMaze := by
  have hr := Maze.rows_ofObstacles w.dims w.obstaclePositions
  have hc := Maze.cols_ofObstacles w.dims w.obstaclePositions
  exact ⟨h.dims, h.cols, h.rows, hr.trans (by rw [h.dims]), hc.trans (by rw [h.dims])⟩

theorem Shaped.integrate (h : Shaped d w) (dt : Float32) (now : Float) :
    Shaped d (w.integrate dt now).2 := by
  rw [World.integrate]
  dsimp only
  split
  · exact h.withObjects _
  · exact (h.withObjects _).rebuildGrid

theorem Shaped.sweep (h : Shaped d w) (now : Float) : Shaped d (w.sweep now).2 := by
  rw [World.sweep]
  dsimp only
  split
  · exact h
  · exact (h.retain _).rebuildMaze

theorem Shaped.perform (h : Shaped d w) (op : Operation) : Shaped d (w.perform op) := by
  cases op with
  | insert o => exact h.insert o
  | remove id => exact h.remove id
  | modify id _ keepsId => exact h.modify id keepsId
  | retain keep => exact h.retain keep
  | reconcile entries => exact (h.withObjects _).rebuildGrid.rebuildMaze
  | sweep now => exact h.sweep now
  | rebuildGrid => exact h.rebuildGrid
  | rebuildMaze => exact h.rebuildMaze
  | integrate dt now => exact h.integrate dt now

theorem Reachable.shaped (h : Reachable d w) : Shaped d w := by
  induction h with
  | empty => exact shaped_empty d
  | perform op _ ih => exact ih.perform op

theorem Shaped.inBounds (h : Shaped d w) {p : Point} {s : Square}
    (hs : w.dims.square? p = some s) : w.grid.inBounds s = true := by
  rw [h.dims] at hs
  rw [Grid.inBounds_iff, h.cols, h.rows]
  exact Dims.lt_of_square?_eq_some hs

end World

end TileWorld
