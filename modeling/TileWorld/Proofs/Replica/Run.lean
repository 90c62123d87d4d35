import TileWorld.Proofs.Replica.Marker

/-! # Runs of a replica -/

namespace TileWorld

/-- What can happen to a replica. -/
inductive Replica.Event where
  | message (m : ServerMessage) (now : Float)
  | move (target : Point) (now : Float)
  | frame (dt : Float32) (now : Float)

namespace Replica

/-- The notices for the renderer, and the replica after an event. -/
def perform (r : Replica) : Event → List Notice × Replica
  | .message m now => r.apply m now
  | .move target now => ([], (r.requestMove target now).2)
  | .frame dt now => (r.update dt now).2

/-- A fresh replica after a list of events. -/
def run (events : List Event) : Replica :=
  events.foldl (fun r event => (r.perform event).2) empty

theorem run_append (events : List Event) (event : Event) :
    run (events ++ [event]) = ((run events).perform event).2 := by
  rw [run, List.foldl_append]
  rfl

/-! ## What an event does to the world -/

/-- The markers that an event places, one after the other. -/
def placed (r : Replica) : Event → List Object
  | .message (.route mover path) now =>
    if r.world.contains mover = true ∧ r.player = some mover then pathMarkers r.markers path now
    else []
  | .move target now => [clickMarker r.markers (r.world.dims.clamp target) now]
  | _ => []

/-- The world that an event leaves, its markers apart. -/
def ground (r : Replica) : Event → World
  | .message (.state objects _) _ => (r.world.reconcile objects).2
  | .message (.route mover path) _ =>
    r.world.modify mover (fun o => o.setPath path) fun o => o.id_setPath path
  | .frame dt now => ((r.world.integrate dt now).2.sweep now).2
  | _ => r.world

variable {r : Replica}

theorem requestMove_eq (r : Replica) (target : Point) (now : Float) :
    (r.requestMove target now).2 =
      { r with
        world := r.world.insert (clickMarker r.markers (r.world.dims.clamp target) now)
        markers := r.markers + 1 } :=
  addMarker_eq r .clickPointer (by decide) "click" (r.world.dims.clamp target)
    (now + clickDecay)

theorem apply_route_eq (r : Replica) (mover : String) (path : List Point) (now : Float) :
    let event := Event.message (.route mover path) now
    r.apply (.route mover path) now =
      ([], { r with
        world := (r.placed event).foldl World.insert (r.ground event)
        markers := r.markers + (r.placed event).length }) := by
  intro event
  rw [Replica.apply]
  by_cases hcontains : r.world.contains mover = true
  · by_cases hplayer : r.player = some mover
    · have hplaced : r.placed event = pathMarkers r.markers path now := if_pos ⟨hcontains, hplayer⟩
      simp only [if_pos hcontains, if_pos hplayer, addPathMarkers_eq, hplaced]
      simp [pathMarkers, ground, event]
    · have hplaced : r.placed event = [] := if_neg fun h => hplayer h.2
      simp only [if_pos hcontains, if_neg hplayer, hplaced]
      rfl
  · have hplaced : r.placed event = [] := if_neg fun h => hcontains h.1
    have hground : r.ground event = r.world :=
      World.modify_eq_self (Option.not_isSome_iff_eq_none.mp hcontains) fun o => o.id_setPath path
    rw [if_neg hcontains, hplaced, hground]
    rfl

theorem world_perform (r : Replica) (event : Event) :
    (r.perform event).2.world = (r.placed event).foldl World.insert (r.ground event) := by
  cases event with
  | message m now =>
      cases m with
      | route mover path => rw [perform, apply_route_eq]
      | state | assigned | message | chat | removed => rfl
  | move target now => rw [perform, requestMove_eq]; rfl
  | frame dt now => rfl

theorem markers_perform (r : Replica) (event : Event) :
    (r.perform event).2.markers = r.markers + (r.placed event).length := by
  cases event with
  | message m now =>
      cases m with
      | route mover path => rw [perform, apply_route_eq]
      | state | assigned | message | chat | removed => rfl
  | move target now => rw [perform, requestMove_eq]; rfl
  | frame dt now => rfl

/-! ## The world of a run -/

variable {P : Object → Prop} {d : Dims}

theorem reachableWith_foldl_insert {w : World} (hw : World.ReachableWith d P w)
    {objects : List Object} (h : ∀ o ∈ objects, P o) :
    World.ReachableWith d P (objects.foldl World.insert w) :=
  List.foldlRecOn _ _ hw fun _ hv o ho => hv.perform (.insert o) (h o ho)

theorem reachableWith_ground (hpath : ∀ o path, P o → P (Object.setPath o path))
    (hr : World.ReachableWith d P r.world) (event : Event) :
    World.ReachableWith d P (r.ground event) := by
  cases event with
  | message m now =>
      cases m with
      | state objects channel => exact hr.perform (.reconcile objects) trivial
      | route mover path =>
          exact hr.perform (.modify mover (fun o => o.setPath path) fun o => o.id_setPath path)
            fun o ho => hpath o path ho
      | assigned | message | chat | removed => exact hr
  | move target now => exact hr
  | frame dt now => exact (hr.perform (.integrate dt now) trivial).perform (.sweep now) trivial

theorem exists_marker_of_mem_placed {event : Event} {o : Object} (h : o ∈ r.placed event) :
    ∃ kind word number p decay, o = marker kind word number p decay := by
  cases event with
  | message m now =>
      cases m with
      | route mover path =>
          rw [placed] at h
          split at h
          · obtain ⟨i, _, rfl⟩ := List.mem_mapIdx.mp h
            exact ⟨_, _, _, _, _, rfl⟩
          · cases h
      | state | assigned | message | chat | removed => cases h
  | move target now => exact ⟨_, _, _, _, _, List.mem_singleton.mp h⟩
  | frame dt now => cases h

/-- The world of a run is reachable with any property that markers have and that a new path
keeps. -/
theorem reachableWith_run
    (hmarker : ∀ kind word number p decay, P (marker kind word number p decay))
    (hpath : ∀ o path, P o → P (Object.setPath o path)) (events : List Event) :
    World.ReachableWith .standard P (run events).world := by
  refine List.foldlRecOn (motive := fun r : Replica => World.ReachableWith .standard P r.world)
    _ _ .empty fun r hr event _ => ?_
  rw [world_perform]
  refine reachableWith_foldl_insert (reachableWith_ground hpath hr event) fun o ho => ?_
  obtain ⟨kind, word, number, p, decay, rfl⟩ := exists_marker_of_mem_placed ho
  exact hmarker kind word number p decay

end Replica

end TileWorld
