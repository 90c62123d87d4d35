import TileWorld.Proofs.Replica.Fresh

/-! What becomes of a replica that is told the path of an object. -/

namespace TileWorld.Replica

variable {r : Replica} {mover id : String} {path : List Point} {now : Float} {o x : Object}

/-- The object is there, and the player has been told that it is theirs. -/
def Plays (r : Replica) (mover : String) : Prop :=
  r.world.contains mover = true ∧ r.player = some mover

instance (r : Replica) (mover : String) : Decidable (r.Plays mover) :=
  inferInstanceAs (Decidable (_ ∧ _))

/-- The replica `t` is what becomes of `r` when it is told the path of an object. -/
structure Guides (r : Replica) (mover : String) (path : List Point) (now : Float)
    (notices : List Notice) (t : Replica) : Prop where
  silent : notices = []
  /-- The path of an object that is not there has no effect whatsoever. -/
  unknown : r.world.find? mover = none → t = r
  takes : ∀ o, r.world.find? mover = some o →
    t.world.find? mover = some { o with path, cursor := 0 }
  others : ∀ id o, id ≠ mover → r.world.find? id = some o → t.world.find? id = some o
  /-- What is new is the marker of a waypoint, and each waypoint of the player has one. -/
  added : ∀ id x, r.world.find? id = none →
    (t.world.find? id = some x ↔
      r.Plays mover ∧ ∃ i p, path[i]? = some p ∧ id = markerId "path" (r.markers + i + 1) ∧
        x = { Object.ofKind .pathPoint id p with
          persistent := false, decay := some (now + pathDecay) })
  markers : t.markers = r.markers + if r.Plays mover then path.length else 0
  size : t.world.size = r.world.size + if r.Plays mover then path.length else 0
  /-- Only squares in which a marker is placed may name somebody else than before. -/
  squares : ∀ s, (r.Plays mover → ∀ p ∈ path, r.world.dims.square? p ≠ some s) →
    t.world.grid.occupant? s = r.world.grid.occupant? s
  dims : t.world.dims = r.world.dims
  maze : t.world.maze = r.world.maze
  player : t.player = r.player
  channel : t.channel = r.channel

/-! ## The markers -/

theorem placed_route (r : Replica) (mover : String) (path : List Point) (now : Float) :
    r.placed (.message (.route mover path) now) =
      if r.Plays mover then pathMarkers r.markers path now else [] := rfl

theorem mem_placed_route_iff :
    x ∈ r.placed (.message (.route mover path) now) ↔
      r.Plays mover ∧ ∃ i p, path[i]? = some p ∧
        x = marker .pathPoint "path" (r.markers + i + 1) p (now + pathDecay) := by
  rw [placed_route]
  split
  · rename_i hplays
    simp only [hplays, true_and, pathMarkers, List.mem_mapIdx, List.getElem?_eq_some_iff]
    constructor
    · rintro ⟨i, hi, rfl⟩
      exact ⟨i, path[i], ⟨hi, rfl⟩, rfl⟩
    · rintro ⟨i, p, ⟨hi, rfl⟩, rfl⟩
      exact ⟨i, hi, rfl⟩
  · rename_i hplays
    simp [hplays]

theorem length_placed_route (r : Replica) (mover : String) (path : List Point) (now : Float) :
    (r.placed (.message (.route mover path) now)).length =
      if r.Plays mover then path.length else 0 := by
  rw [placed_route]
  split <;> simp [pathMarkers]

/-- As long as nobody uses the next ids of markers, each marker of a route is new. -/
theorem find?_of_mem_placed_route
    (hunused : r.Plays mover → ∀ i < path.length,
      r.world.find? (markerId "path" (r.markers + i + 1)) = none)
    (hx : x ∈ r.placed (.message (.route mover path) now)) : r.world.find? x.id = none := by
  obtain ⟨hplays, i, p, hp, rfl⟩ := mem_placed_route_iff.mp hx
  exact hunused hplays i (List.getElem?_eq_some_iff.mp hp).1

/-! ## The world -/

theorem find?_ground_route :
    (r.ground (.message (.route mover path) now)).find? id =
      (r.world.find? id).map fun o => if id = mover then o.setPath path else o :=
  World.find?_modify_eq_map _ mover (fun o => o.id_setPath path) id

theorem find?_ground_route_eq_none (h : r.world.find? id = none) :
    (r.ground (.message (.route mover path) now)).find? id = none := by
  rw [find?_ground_route, h, Option.map_none]

section

variable (hnew : ∀ x ∈ r.placed (.message (.route mover path) now), r.world.find? x.id = none)

include hnew

theorem find?_apply_route_of_some (ho : r.world.find? id = some o) :
    (r.apply (.route mover path) now).2.world.find? id =
      some (if id = mover then o.setPath path else o) := by
  have hne : ∀ x ∈ r.placed (.message (.route mover path) now), x.id ≠ id := by
    rintro x hx rfl
    rw [hnew x hx] at ho
    cases ho
  rw [apply_route_eq]
  dsimp only
  rw [World.find?_foldl_insert_of_forall_ne hne, find?_ground_route, ho, Option.map_some]

theorem size_apply_route :
    (r.apply (.route mover path) now).2.world.size =
      r.world.size + if r.Plays mover then path.length else 0 := by
  rw [apply_route_eq, ← length_placed_route r mover path now]
  dsimp only
  rw [World.size_foldl_insert (nodup_placed ..) fun x hx => find?_ground_route_eq_none (hnew x hx)]
  exact congrArg (· + _) (World.size_modify _ mover fun o => o.id_setPath path)

theorem occupant?_apply_route {s : Square}
    (hs : r.Plays mover → ∀ p ∈ path, r.world.dims.square? p ≠ some s) :
    (r.apply (.route mover path) now).2.world.grid.occupant? s = r.world.grid.occupant? s := by
  have hapart : ∀ x ∈ r.placed (.message (.route mover path) now),
      (r.ground (.message (.route mover path) now)).dims.square? x.position ≠ some s := by
    intro x hx
    obtain ⟨hplays, i, p, hp, rfl⟩ := mem_placed_route_iff.mp hx
    rw [ground, World.dims_modify]
    exact hs hplays p (List.mem_of_getElem? hp)
  rw [apply_route_eq]
  dsimp only
  rw [World.occupant?_foldl_insert (nodup_placed ..)
    (fun x hx => find?_ground_route_eq_none (hnew x hx)) hapart]
  exact congrArg (Grid.occupant? · s)
    (World.grid_modify _ mover (fun o => o.id_setPath path) fun _ => rfl)

end

theorem find?_apply_route_of_none (hnone : r.world.find? id = none) :
    (r.apply (.route mover path) now).2.world.find? id = some x ↔
      x ∈ r.placed (.message (.route mover path) now) ∧ x.id = id := by
  rw [apply_route_eq]
  constructor
  · intro hx
    rw [World.find?_foldl_insert, find?_ground_route_eq_none hnone, Option.or_none] at hx
    exact ⟨List.mem_reverse.mp (List.mem_of_find?_eq_some hx), by simpa using List.find?_some hx⟩
  · rintro ⟨hx, rfl⟩
    exact World.find?_foldl_insert_of_mem (nodup_placed ..) hx _

theorem apply_route_of_unknown (hnone : r.world.find? mover = none) :
    r.apply (.route mover path) now = ([], r) := by
  have hcontains : r.world.contains mover = false :=
    Option.isSome_eq_false_iff.mpr (Option.isNone_iff_eq_none.mpr hnone)
  simp only [Replica.apply, hcontains, Bool.false_eq_true, if_false]

/-- A path that is told becomes that of the object and brings in the markers of the player's route;
it leaves everything else alone. -/
theorem guides_apply_route (r : Replica) (mover : String) (path : List Point) (now : Float)
    (hunused : r.Plays mover → ∀ i < path.length,
      r.world.find? (markerId "path" (r.markers + i + 1)) = none) :
    Guides r mover path now (r.apply (.route mover path) now).1
      (r.apply (.route mover path) now).2 := by
  have hnew : ∀ x ∈ r.placed (.message (.route mover path) now), r.world.find? x.id = none :=
    fun x hx => find?_of_mem_placed_route hunused hx
  refine
    { silent := by rw [apply_route_eq]
      unknown := fun hnone => by rw [apply_route_of_unknown hnone]
      takes := fun o ho => by rw [find?_apply_route_of_some hnew ho, if_pos rfl, Object.setPath]
      others := fun id o hid ho => by rw [find?_apply_route_of_some hnew ho, if_neg hid]
      added := fun id x hnone => ?_
      markers := by rw [apply_route_eq, ← length_placed_route r mover path now]
      size := size_apply_route hnew
      squares := fun s hs => occupant?_apply_route hnew hs
      dims := by simp [apply_route_eq, ground]
      maze := by simp [apply_route_eq, ground]
      player := by rw [apply_route_eq]
      channel := by rw [apply_route_eq] }
  · rw [find?_apply_route_of_none hnone, mem_placed_route_iff]
    constructor
    · rintro ⟨⟨hplays, i, p, hp, rfl⟩, rfl⟩
      exact ⟨hplays, i, p, hp, rfl, rfl⟩
    · rintro ⟨hplays, i, p, hp, rfl, rfl⟩
      exact ⟨⟨hplays, i, p, hp, rfl⟩, rfl⟩

/-- A route that crosses one waypoint twice, told to a player with a click marker from before. -/
theorem guides_hero :
    let r := run firstSteps
    let path : List Point := [⟨64, 64⟩, ⟨80, 64⟩, ⟨64, 64⟩]
    (∀ i < path.length, r.world.find? (markerId "path" (r.markers + i + 1)) = none) ∧
      r.Plays "hero" ∧
      Guides r "hero" path 6 (r.apply (.route "hero" path) 6).1
        (r.apply (.route "hero" path) 6).2 := by
  intro r path
  have hunused : ∀ i < path.length,
      r.world.find? (markerId "path" (r.markers + i + 1)) = none := by decide +kernel
  exact ⟨hunused, by decide +kernel, guides_apply_route r "hero" path 6 fun _ => hunused⟩

end TileWorld.Replica
