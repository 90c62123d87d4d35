import TileWorld.Proofs.Maze.Footprint
import TileWorld.Proofs.Simulation.Tellable

/-! A world overflows if one of its obstacles stands too far to the left or above, and no world of a
simulation does: its obstacles stay where its channel puts them. -/

namespace TileWorld

theorem World.overflows_iff {w : World} (hd : w.dims.Proper) (hfits : w.dims.Fits)
    (hfinite : ∀ p ∈ w.obstaclePositions, p.isFinite = true) :
    w.overflows = true ↔ ∃ p ∈ w.obstaclePositions, w.dims.Far p := by
  simp only [overflows, List.any_eq_true, Option.isNone_iff_eq_none]
  constructor
  · rintro ⟨p, hp, hnone⟩
    exact ⟨p, hp, (Dims.footprint?_eq_none_iff hd (hfinite p hp) hfits).mp hnone⟩
  · rintro ⟨p, hp, hfar⟩
    exact ⟨p, hp, (Dims.footprint?_eq_none_iff hd (hfinite p hp) hfits).mpr hfar⟩

private theorem Dims.isSome_span?_corner :
    ∀ n : Fin 64, (span? (Number.ofCount n * standard.cellSize) standard.cellSize
      standard.mazeCellSize 128).isSome = true := by
  decide +kernel

theorem Dims.isSome_footprint?_squareCorner {s : Square} (hcol : s.col < 64) (hrow : s.row < 64) :
    (standard.footprint? (standard.squareCorner s)).isSome = true := by
  obtain ⟨cols, hcols⟩ := Option.isSome_iff_exists.mp (isSome_span?_corner ⟨s.col, hcol⟩)
  obtain ⟨rows, hrows⟩ := Option.isSome_iff_exists.mp (isSome_span?_corner ⟨s.row, hrow⟩)
  rw [footprint?, squareCorner, mazeCols_standard, mazeRows_standard, hcols, hrows]
  rfl

namespace Simulation

variable {s : Simulation}

/-- Every obstacle has a footprint. -/
structure Anchored (s : Simulation) : Prop where
  dims : s.world.dims = .standard
  footprint : s.world.Holds fun o =>
    o.obstacle = true → (Dims.standard.footprint? o.position).isSome = true

theorem Anchored.overflows (hs : s.Anchored) : s.world.overflows = false := by
  rw [World.overflows, List.any_eq_false, hs.dims]
  intro p hp
  obtain ⟨id, o, ho, hobstacle, rfl⟩ := World.mem_obstaclePositions.mp hp
  rw [Option.isNone_iff_eq_none]
  exact Option.isSome_iff_ne_none.mp (hs.footprint id o ho hobstacle)

/-! ## Changes in place -/

theorem Anchored.modify (hs : s.Anchored) (id : String) {change : Object → Object} (words : Words)
    (keepsId : ∀ o, (change o).id = o.id) (hposition : ∀ o, (change o).position = o.position)
    (hobstacle : ∀ o, (change o).obstacle = o.obstacle) :
    Anchored { s with world := s.world.modify id change keepsId, words } := by
  refine ⟨(World.dims_modify s.world id keepsId).trans hs.dims,
    hs.footprint.modify id keepsId fun o ho => ?_⟩
  rw [hobstacle, hposition]
  exact ho

/-- Obstacles have no path, so no motion moves them. -/
theorem Anchored.integrate (hs : s.Anchored) (hrouted : s.Routed) (dt : Float32) (now : Float) :
    Anchored { s with world := (s.world.integrate dt now).2 } := by
  refine ⟨(World.dims_integrate ..).trans hs.dims, fun id x hx hobstacle => ?_⟩
  obtain ⟨o, ho, rfl⟩ := Option.map_eq_some_iff.mp ((World.find?_integrate ..).symm.trans hx)
  rw [o.obstacle_step] at hobstacle
  rw [Object.step_of_path_eq_nil (hrouted.world.still id o ho hobstacle).1]
  exact hs.footprint id o ho hobstacle

/-! ## Calls -/

theorem anchored_repopulate {player : String} (hdims : s.world.dims = .standard) :
    (s.repopulate player).Anchored := by
  refine ⟨(dims_repopulate s player).trans hdims, fun id o ho hobstacle => ?_⟩
  obtain ⟨hmem, -⟩ := mem_of_find?_repopulate ho
  have hwall := (Channel.mem_walls_iff hmem).mpr hobstacle
  rw [Channel.walls_populate, hdims] at hwall
  obtain ⟨square, hsquare, rfl⟩ := Channel.exists_square_of_mem_walls hwall
  obtain ⟨hcol, hrow⟩ := Channel.lt_of_mem_mounds hsquare
  exact Dims.isSome_footprint?_squareCorner hcol hrow

theorem Anchored.dispatch (hs : s.Anchored) (now : Float) (agent : Idle) :
    (s.dispatch now agent).2.Anchored := by
  rcases s.dispatch_cases now agent with ⟨path, words, -, hsent⟩ | ⟨words, hfailed⟩
  · rw [hsent]
    exact hs.modify agent.id words (fun o => o.id_setPath path) (fun _ => rfl) fun _ => rfl
  · rw [hfailed]
    exact hs.modify agent.id words (fun _ => by rfl) (fun _ => by rfl) fun _ => by rfl

theorem Anchored.tick (hs : s.Anchored) (hrouted : s.Routed) (now : Float) (dt : Float32) :
    (s.tick now dt).2.Anchored := by
  rw [hrouted.tick_eq]
  exact dispatchAll_induction (fun _ agent h => h.dispatch now agent) (hs.integrate hrouted dt now) _

theorem Anchored.handle (hs : s.Anchored) (m : ClientMessage) : (s.handle m).2.Anchored := by
  rcases s.handle_cases m with hsame | ⟨player, change, keepsId, -, hkeeps, hmodified⟩ |
    ⟨player, channel, -, hentered⟩
  · rwa [hsame]
  · rw [hmodified]
    exact hs.modify player s.words keepsId (fun o => (hkeeps o).1) fun o => (hkeeps o).2.1
  · rw [hentered]
    exact anchored_repopulate hs.dims

/-- The maze of a simulation can be rebuilt at any time. -/
theorem overflows_run (settings : SimulationSettings) (words : Words) (channel token : String)
    (calls : List Call) :
    (((new settings words).bootstrap channel token).2.run calls).world.overflows = false := by
  have hrun := run_induction (P := fun s => s.Routed ∧ s.Anchored)
    (fun _ now dt hs => ⟨hs.1.tick now dt, hs.2.tick hs.1 now dt⟩)
    (fun _ m hs => ⟨hs.1.handle m, hs.2.handle m⟩)
    (s := ((new settings words).bootstrap channel token).2)
    ⟨routed_bootstrap _ channel token, anchored_repopulate rfl⟩ calls
  exact hrun.2.overflows

end Simulation

end TileWorld
