import TileWorld.Proofs.World.Filing

/-! The fate of every id in a snapshot: told anew, shielded, kept or retired. -/

namespace TileWorld

/-- The entry tells of this object, though perhaps under another id. -/
def Json.Tells (entry : Json) (o : Object) : Prop :=
  ∃ record, Record.ofJson? entry = some record ∧ Object.ofRecord record = .ok o

namespace World

variable {d : Dims} {w : World}

/-! ## One id at a time -/

theorem ofEntry?_eq_some_iff {id : String} {entry : Json} {o : Object} :
    Object.ofEntry? id entry = some o ↔ ∃ told, entry.Tells told ∧ o = { told with id } := by
  simp only [Object.ofEntry?, Json.Tells, Option.bind_eq_bind, Option.bind_eq_some_iff]
  constructor
  · rintro ⟨record, hrecord, told, htold, ho⟩
    refine ⟨told, ⟨record, hrecord, ?_⟩, (Option.some_inj.mp ho).symm⟩
    cases h : Object.ofRecord record with
    | error e => simp [h, Except.toOption] at htold
    | ok x => simpa [h, Except.toOption] using htold
  · rintro ⟨told, ⟨record, hrecord, htold⟩, rfl⟩
    exact ⟨record, hrecord, told, by rw [htold]; rfl, rfl⟩

theorem ofEntry?_eq_none_iff {id : String} {entry : Json} :
    Object.ofEntry? id entry = none ↔ ¬ ∃ told, entry.Tells told := by
  rw [Option.eq_none_iff_forall_not_mem]
  constructor
  · rintro hnone ⟨told, htold⟩
    exact hnone { told with id } (ofEntry?_eq_some_iff.mpr ⟨told, htold, rfl⟩)
  · rintro hnone o ho
    obtain ⟨told, htold, -⟩ := ofEntry?_eq_some_iff.mp ho
    exact hnone ⟨told, htold⟩

private theorem find?_tell (objects : Table Object) (entry : String × Json) (id : String) :
    (tell objects entry).find? id =
      if id = entry.1 then (Object.ofEntry? id entry.2).or (objects.find? id)
      else objects.find? id := by
  rw [tell]
  by_cases hid : id = entry.1
  · subst hid
    cases Object.ofEntry? entry.1 entry.2 <;> simp
  · cases Object.ofEntry? entry.1 entry.2 <;> simp [hid]

/-- An entry concerns its own id alone, and each id has one entry at most. -/
private theorem find?_tellAll {entries : List (String × Json)} (h : Entries.Ascending entries)
    (objects : Table Object) (id : String) :
    (entries.foldl tell objects).find? id =
      match entries.lookup id with
      | some entry => (Object.ofEntry? id entry).or (objects.find? id)
      | none => objects.find? id := by
  induction entries generalizing objects with
  | nil => rfl
  | cons e entries ih =>
      rw [List.foldl_cons, ih h.of_cons, find?_tell]
      by_cases hid : id = e.1
      · have hlater : entries.lookup id = none := by
          rw [List.lookup_eq_none_iff]
          intro x hx
          have hlt := List.rel_of_pairwise_cons h hx
          rw [← hid] at hlt
          simpa using hlt.ne
        rw [hlater, List.lookup_cons]
        simp [hid]
      · rw [List.lookup_cons, beq_eq_false_iff_ne.mpr hid]
        simp [hid]

private theorem find?_eraseAll (retired : List Object) (objects : Table Object) (id : String) :
    (retired.foldl (fun objects o => objects.erase o.id) objects).find? id =
      if id ∈ retired.map (·.id) then none else objects.find? id := by
  induction retired generalizing objects with
  | nil => simp
  | cons o retired ih =>
      rw [List.foldl_cons, ih, Table.find?_erase]
      by_cases hr : id ∈ retired.map (·.id) <;> by_cases ho : id = o.id <;> simp [hr, ho]

theorem mem_ids_omitted_iff {entries : Table Json} {id : String} :
    id ∈ (w.omitted entries).map (·.id) ↔
      entries.find? id = none ∧ ∃ o, w.find? id = some o ∧ o.persistent = true := by
  rw [omitted, mem_ids_filter_iff]
  constructor
  · rintro ⟨o, ho, hretired⟩
    obtain rfl := id_eq_of_find? ho
    rw [Bool.and_eq_true, Bool.not_eq_true', Table.contains, Option.isSome_eq_false_iff,
      Option.isNone_iff_eq_none] at hretired
    exact ⟨hretired.2, o, ho, hretired.1⟩
  · rintro ⟨hnone, o, ho, hpersistent⟩
    exact ⟨o, ho, by simp [hpersistent, Table.contains, id_eq_of_find? ho, hnone]⟩

theorem find?_merged (w : World) (entries : Table Json) (id : String) :
    (w.merged entries).find? id =
      match entries.find? id with
      | some entry => (Object.ofEntry? id entry).or (w.find? id)
      | none => (w.find? id).filter (!·.persistent) := by
  rw [merged, find?_tellAll entries.ascending, find?_eraseAll]
  change (match entries.find? id with | some entry => _ | none => _) = _
  cases hentry : entries.find? id with
  | some entry => simp [mem_ids_omitted_iff, hentry, find?]
  | none =>
      cases ho : w.find? id with
      | none => simp [mem_ids_omitted_iff, hentry, ho, show w.objects.find? id = none from ho]
      | some o =>
          have ho' : w.objects.find? id = some o := ho
          cases hpersistent : o.persistent <;>
            simp [mem_ids_omitted_iff, hentry, ho, ho', hpersistent, Option.filter]

/-! ## What is derived from the table -/

theorem mem_obstaclePositions {p : Point} :
    p ∈ w.obstaclePositions ↔
      ∃ id o, w.find? id = some o ∧ o.obstacle = true ∧ o.position = p := by
  simp only [obstaclePositions, Table.values, List.mem_map, List.mem_filter, Prod.exists, find?,
    Table.find?_eq_some_iff]
  constructor
  · rintro ⟨o, ⟨⟨id, x, hx, rfl⟩, ho⟩, rfl⟩
    exact ⟨id, _, hx, ho, rfl⟩
  · rintro ⟨id, o, ho, hobstacle, rfl⟩
    exact ⟨o, ⟨⟨id, o, ho, rfl⟩, hobstacle⟩, rfl⟩

theorem maze_eq_of_obstacles {v w : World} (hdims : v.dims = w.dims)
    (hv : v.maze = .ofObstacles v.dims v.obstaclePositions)
    (hw : w.maze = .ofObstacles w.dims w.obstaclePositions)
    (hobstacles : ∀ id, (v.find? id).filter (·.obstacle) = (w.find? id).filter (·.obstacle)) :
    v.maze = w.maze := by
  have htable : v.objects.filter (fun _ o => o.obstacle) =
      w.objects.filter fun _ o => o.obstacle := by
    refine Table.ext_find? fun id => ?_
    rw [Table.find?_filter, Table.find?_filter]
    exact hobstacles id
  have hpositions : ∀ u : World, u.obstaclePositions =
      (u.objects.filter fun _ o => o.obstacle).values.map (·.position) := by
    intro u
    rw [obstaclePositions, Table.values, Table.values, Table.filter, List.filter_map]
    rfl
  rw [hv, hw, hdims, hpositions, hpositions, htable]

/-- A cell of the world is blocked if an obstacle covers it. -/
def Covered (w : World) (c : Cell) : Prop :=
  ∃ id o, w.find? id = some o ∧ o.obstacle = true ∧ c ∈ w.dims.footprint o.position

theorem blocked?_ofObstacles_iff (w : World) (c : Cell) (b : Bool) :
    (Maze.ofObstacles w.dims w.obstaclePositions).blocked? c = some b ↔
      (c.row < w.dims.mazeRows ∧ c.col < w.dims.mazeCols) ∧ (b = true ↔ w.Covered c) := by
  have hcovered : (∃ p ∈ w.obstaclePositions, c ∈ w.dims.footprint p) ↔ w.Covered c := by
    constructor
    · rintro ⟨p, hp, hc⟩
      obtain ⟨id, o, ho, hobstacle, rfl⟩ := mem_obstaclePositions.mp hp
      exact ⟨id, o, ho, hobstacle, hc⟩
    · rintro ⟨id, o, ho, hobstacle, hc⟩
      exact ⟨o.position, mem_obstaclePositions.mpr ⟨id, o, ho, hobstacle, rfl⟩, hc⟩
  rw [Maze.blocked?_ofObstacles]
  by_cases hin : c.row < w.dims.mazeRows ∧ c.col < w.dims.mazeCols
  · rw [if_pos hin, Option.some_inj, ← hcovered]
    cases b <;> simp [hin]
  · simp [hin]

theorem notices_omitted (w : World) (entries : Table Json) :
    (w.omitted entries).flatMap Object.notices =
      (w.objects.entries.filter fun e => e.2.persistent && !entries.contains e.1).flatMap
        fun e => e.2.layers.map fun layer => ⟨e.1, layer⟩ := by
  rw [omitted, w.keyed.entries_eq, List.filter_map, List.flatMap_map]
  rfl

/-! ## The outcome of a snapshot -/

/-- What a snapshot makes of a world `w`: some notices and a world `v`. -/
structure Reconciled (w : World) (entries : Table Json) (notices : List Notice) (v : World) :
    Prop where
  dims : v.dims = w.dims
  told : ∀ id entry o, entries.find? id = some entry → entry.Tells o →
    v.find? id = some { o with id }
  /-- An entry that tells of no object shields whatever has its id. -/
  shielded : ∀ id entry, entries.find? id = some entry → (¬ ∃ o, entry.Tells o) →
    v.find? id = w.find? id
  kept : ∀ id o, entries.find? id = none → w.find? id = some o → o.persistent = false →
    v.find? id = some o
  retired : ∀ id o, entries.find? id = none → w.find? id = some o → o.persistent = true →
    v.find? id = none
  unknown : ∀ id, entries.find? id = none → w.find? id = none → v.find? id = none
  /-- The entries of a table are in id order. -/
  notices : notices =
    (w.objects.entries.filter fun e => e.2.persistent && !entries.contains e.1).flatMap
      fun e => e.2.layers.map fun layer => ⟨e.1, layer⟩
  squares : v.grid.squares.size = w.dims.gridCols * w.dims.gridRows
  named : ∀ s id, v.grid.occupant? s = some id ↔ IsGreatest {i | v.Located i s} id
  vacant : ∀ s, v.grid.occupant? s = none ↔ ∀ id, ¬ v.Located id s
  maze : v.maze = .ofObstacles v.dims v.obstaclePositions
  tiles : ∀ c b, v.maze.blocked? c = some b ↔
    (c.row < w.dims.mazeRows ∧ c.col < w.dims.mazeCols) ∧ (b = true ↔ v.Covered c)

theorem find?_reconcile (w : World) (entries : Table Json) (id : String) :
    (w.reconcile entries).2.find? id = (w.merged entries).find? id := by
  simp [reconcile, find?]

theorem dims_reconcile (w : World) (entries : Table Json) :
    (w.reconcile entries).2.dims = w.dims :=
  dims_rebuildGrid _

/-- The table, the notices, the grid and the maze after a snapshot, in a world that operations lead
to. -/
theorem Reachable.reconciled (h : Reachable d w) (entries : Table Json) :
    Reconciled w entries (w.reconcile entries).1 (w.reconcile entries).2 := by
  have hmerged := h.shaped.withObjects (w.keyed_merged entries)
  have hdims := dims_reconcile w entries
  have hlocated : ∀ i s, (w.reconcile entries).2.Located i s ↔
      World.Located { w with objects := w.merged entries, keyed := w.keyed_merged entries } i s := by
    intro i s
    simp only [Located, hdims, find?_reconcile]
    rfl
  have hmaze : (w.reconcile entries).2.maze =
      .ofObstacles (w.reconcile entries).2.dims (w.reconcile entries).2.obstaclePositions :=
    rfl
  refine ⟨hdims, ?_, ?_, ?_, ?_, ?_, notices_omitted w entries, ?_, ?_, ?_, hmaze, ?_⟩
  · intro id entry o hentry ho
    rw [find?_reconcile, find?_merged, hentry]
    simp [ofEntry?_eq_some_iff.mpr ⟨o, ho, rfl⟩]
  · intro id entry hentry hnone
    rw [find?_reconcile, find?_merged, hentry]
    simp [ofEntry?_eq_none_iff.mpr hnone]
  · intro id o hentry ho hfleeting
    rw [find?_reconcile, find?_merged, hentry]
    simp [ho, hfleeting]
  · intro id o hentry ho hpersistent
    rw [find?_reconcile, find?_merged, hentry]
    simp [ho, hpersistent]
  · intro id hentry hnone
    rw [find?_reconcile, find?_merged, hentry]
    simp [hnone]
  · have hshaped : Shaped d (w.reconcile entries).2 := hmerged.rebuildGrid.rebuildMaze
    rw [Grid.size_squares, hshaped.cols, hshaped.rows, h.shaped.dims]
  · intro s id
    simp only [hlocated]
    exact hmerged.occupant?_rebuildGrid_eq_some s id
  · intro s
    simp only [hlocated]
    exact hmerged.occupant?_rebuildGrid_eq_none s
  · intro c b
    rw [hmaze, blocked?_ofObstacles_iff, hdims]

/-- A wall, a player and a marker of three seconds. -/
def courtyard : World :=
  (((World.empty ⟨64, 64, 32, 16⟩).perform (.insert (.wall "gate" ⟨0, 0⟩))).perform
    (.insert (.player "hero" ⟨0, 0⟩))).perform
    (.insert { Object.ofKind .pathPoint "trail" ⟨32, 32⟩ with decay := some 3 })

/-- Tells of the wall under a new id, and nothing of the player under the id it has. -/
def courtyardSnapshot : Table Json :=
  .ofList [("fence", (Object.wall "gate" ⟨32, 32⟩).toJson), ("hero", .null)]

theorem reconciled_courtyard :
    Reachable ⟨64, 64, 32, 16⟩ courtyard ∧
      Reconciled courtyard courtyardSnapshot (courtyard.reconcile courtyardSnapshot).1
        (courtyard.reconcile courtyardSnapshot).2 ∧
      (courtyard.reconcile courtyardSnapshot).1 = [⟨"gate", "wall-stone"⟩] ∧
      (courtyard.reconcile courtyardSnapshot).2.objects.keys = ["fence", "hero", "trail"] := by
  have h : Reachable ⟨64, 64, 32, 16⟩ courtyard :=
    .perform _ (.perform _ (.perform _ .empty))
  exact ⟨h, h.reconciled courtyardSnapshot, by decide +kernel, by decide +kernel⟩

end World

end TileWorld
