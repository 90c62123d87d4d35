import TileWorld.Proofs.Maze.Walk
import TileWorld.Proofs.Object.Motion
import TileWorld.Proofs.World.Frame

/-! Worlds in which the maze is that of the obstacles and every path leads along a walk in it. -/

namespace TileWorld

namespace World

variable {w v : World} {f : String → Object → Object}

/-- No path, or one that leads along a walk in the maze. -/
def OnWalk (w : World) (path : List Point) : Prop :=
  path = [] ∨ ∃ cells, w.maze.IsWalk cells ∧ path = w.dims.waypoints cells

/-- No obstacle has this id. -/
def Mobile (w : World) (id : String) : Prop :=
  ∀ o, w.find? id = some o → o.obstacle = false

structure Routed (w : World) : Prop where
  maze : w.maze = .ofObstacles w.dims w.obstaclePositions
  onWalk : ∀ id o, w.find? id = some o → w.OnWalk o.path
  persistent : ∀ id o, w.find? id = some o → o.persistent = true
  /-- Obstacles neither follow a path nor wander. -/
  still : ∀ id o, w.find? id = some o → o.obstacle = true → o.path = [] ∧ o.wander = none

/-- The objects of `w` have been changed by `f` where they are: obstacles stay what they are, and
whatever path is set leads along a walk. -/
structure Rerouted (w v : World) (f : String → Object → Object) : Prop where
  dims : v.dims = w.dims
  maze : v.maze = w.maze
  objects : v.objects = w.objects.mapValues f
  obstacle : ∀ id o, w.find? id = some o → (f id o).obstacle = o.obstacle
  persistent : ∀ id o, w.find? id = some o → (f id o).persistent = o.persistent
  spared : ∀ id o, w.find? id = some o → o.obstacle = true → f id o = o
  onWalk : ∀ id o, w.find? id = some o → w.OnWalk (f id o).path

/-! ## What rerouting keeps -/

theorem Rerouted.find? (h : Rerouted w v f) (id : String) :
    v.find? id = (w.find? id).map (f id) := by
  rw [World.find?, h.objects, Table.find?_mapValues]
  rfl

theorem Rerouted.mobile (h : Rerouted w v f) {id : String} (hid : w.Mobile id) : v.Mobile id := by
  intro x hx
  rw [h.find?] at hx
  obtain ⟨o, ho, rfl⟩ := Option.map_eq_some_iff.mp hx
  rw [h.obstacle id o ho]
  exact hid o ho

theorem Rerouted.routed (h : Rerouted w v f) (hw : w.Routed) : v.Routed := by
  have hpositions : v.obstaclePositions = w.obstaclePositions :=
    obstaclePositions_mapValues h.objects h.obstacle h.spared
  refine ⟨?_, ?_, ?_, ?_⟩
  · rw [h.maze, h.dims, hpositions, hw.maze]
  · intro id x hx
    rw [h.find?] at hx
    obtain ⟨o, ho, rfl⟩ := Option.map_eq_some_iff.mp hx
    rw [OnWalk, h.maze, h.dims]
    exact h.onWalk id o ho
  · intro id x hx
    rw [h.find?] at hx
    obtain ⟨o, ho, rfl⟩ := Option.map_eq_some_iff.mp hx
    rw [h.persistent id o ho]
    exact hw.persistent id o ho
  · intro id x hx hobstacle
    rw [h.find?] at hx
    obtain ⟨o, ho, rfl⟩ := Option.map_eq_some_iff.mp hx
    rw [h.obstacle id o ho] at hobstacle
    rw [h.spared id o ho hobstacle]
    exact hw.still id o ho hobstacle

/-! ## What reroutes -/

theorem Routed.integrate (hw : w.Routed) (dt : Float32) (now : Float) :
    Rerouted w (w.integrate dt now).2 fun _ o => (o.step dt now).1 where
  dims := dims_integrate w dt now
  maze := maze_integrate w dt now
  objects := objects_integrate w dt now
  obstacle _ o _ := o.obstacle_step dt now
  persistent _ o _ := o.persistent_step dt now
  spared id o ho hobstacle := Object.step_of_path_eq_nil (hw.still id o ho hobstacle).1 dt now
  onWalk id o ho := by
    rcases o.path_step dt now with hpath | hpath
    · rw [hpath]
      exact hw.onWalk id o ho
    · exact .inl hpath

theorem Routed.modify (hw : w.Routed) {id : String} (hid : w.Mobile id)
    {change : Object → Object} (keepsId : ∀ o, (change o).id = o.id)
    (hobstacle : ∀ o, (change o).obstacle = o.obstacle)
    (hpersistent : ∀ o, (change o).persistent = o.persistent)
    (honWalk : ∀ o, w.OnWalk o.path → w.OnWalk (change o).path) :
    Rerouted w (w.modify id change keepsId) fun k o => if k = id then change o else o where
  dims := dims_modify w id keepsId
  maze := maze_modify w id keepsId
  objects := objects_modify w id keepsId
  obstacle k o _ := by
    split
    · exact hobstacle o
    · rfl
  persistent k o _ := by
    split
    · exact hpersistent o
    · rfl
  spared k o ho hobs := by
    split
    · rename_i hk
      subst hk
      rw [hid o ho] at hobs
      cases hobs
    · rfl
  onWalk k o ho := by
    split
    · exact honWalk o (hw.onWalk k o ho)
    · exact hw.onWalk k o ho

theorem Routed.sweep (hw : w.Routed) (now : Float) : w.sweep now = ([], w) := by
  refine sweep_eq_self fun id hdecayed => ?_
  obtain ⟨o, ho, hfleeting, -⟩ := hdecayed
  rw [hw.persistent id o ho] at hfleeting
  cases hfleeting

end World

end TileWorld
