import TileWorld.Proofs.World.Reconcile

/-! A snapshot that comes a second time finds nothing to do. -/

namespace TileWorld.World

variable {v w : World}

/-! ## What is rebuilt -/

theorem grid_file_congr (hdims : v.dims = w.dims) (hgrid : v.grid = w.grid) (id : String)
    (p : Point) : (v.file id p).grid = (w.file id p).grid := by
  rw [file, file, hdims]
  split
  · simp only [hgrid]
  · exact hgrid

theorem grid_rebuildGrid_congr (hdims : v.dims = w.dims) (hobjects : v.objects = w.objects) :
    v.rebuildGrid.grid = w.rebuildGrid.grid := by
  suffices hall : ∀ (objects : List Object) (v w : World), v.dims = w.dims → v.grid = w.grid →
      (objects.foldl (fun u o => u.file o.id o.position) v).grid =
        (objects.foldl (fun u o => u.file o.id o.position) w).grid by
    have hgrid := hall v.objects.values { v with grid := .ofDims v.dims }
      { w with grid := .ofDims w.dims } hdims (congrArg Grid.ofDims hdims)
    rw [rebuildGrid, hgrid, hobjects]
    rfl
  intro objects
  induction objects with
  | nil => exact fun _ _ _ hgrid => hgrid
  | cons o objects ih =>
      intro v w hdims hgrid
      refine ih _ _ ?_ (grid_file_congr hdims hgrid o.id o.position)
      rw [dims_file, dims_file, hdims]

theorem rebuild_congr (hdims : v.dims = w.dims) (hobjects : v.objects = w.objects) :
    v.rebuildGrid.rebuildMaze = w.rebuildGrid.rebuildMaze := by
  have hgrid := grid_rebuildGrid_congr hdims hobjects
  have hpositions : v.rebuildGrid.obstaclePositions = w.rebuildGrid.obstaclePositions := by
    rw [obstaclePositions, obstaclePositions, objects_rebuildGrid, objects_rebuildGrid, hobjects]
  simp only [rebuildMaze, dims_rebuildGrid, objects_rebuildGrid, hgrid, hdims, hobjects,
    hpositions]

/-! ## The second time -/

/-- Each id has met its fate: an entry finds the object that it tells of or shields, and what is
left under other ids is fleeting. -/
theorem merged_reconcile (w : World) (entries : Table Json) :
    (w.reconcile entries).2.merged entries = w.merged entries := by
  refine Table.ext_find? fun id => ?_
  rw [find?_merged, find?_reconcile, find?_merged]
  cases entries.find? id with
  | none => simp [Option.filter_filter]
  | some entry =>
      dsimp only
      rw [← Option.or_assoc, Option.or_self]

theorem omitted_reconcile (w : World) (entries : Table Json) :
    (w.reconcile entries).2.omitted entries = [] := by
  refine List.eq_nil_iff_forall_not_mem.mpr fun o ho => ?_
  obtain ⟨hnone, x, hx, hpersistent⟩ := mem_ids_omitted_iff.mp (List.mem_map_of_mem ho)
  rw [find?_reconcile, find?_merged, hnone] at hx
  have hfleeting : x.persistent = false := by
    simpa using (Option.filter_eq_some_iff.mp hx).2
  rw [hfleeting] at hpersistent
  cases hpersistent

/-- A snapshot that is applied again right away gives no notices and leaves the objects, the grid
and the maze exactly as they are. -/
theorem reconcile_reconcile (w : World) (entries : Table Json) :
    (w.reconcile entries).2.reconcile entries = ([], (w.reconcile entries).2) := by
  have hnotices : ((w.reconcile entries).2.reconcile entries).1 = [] := by
    rw [reconcile, omitted_reconcile]
    rfl
  have hworld : ((w.reconcile entries).2.reconcile entries).2 = (w.reconcile entries).2 :=
    rebuild_congr (dims_reconcile w entries) (merged_reconcile w entries)
  exact Prod.ext hnotices hworld

end TileWorld.World
