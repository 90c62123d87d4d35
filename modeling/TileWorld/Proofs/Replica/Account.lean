import TileWorld.Proofs.Replica.Run
import TileWorld.Proofs.World.Departure

/-! Snapshots and frames tell the renderer of exactly what they take out of the replica. -/

namespace TileWorld

namespace Object

theorem layers_ne_nil_of_entry {id : String} {entry : Json} {o : Object}
    (h : ofEntry? id entry = some o) : o.layers ≠ [] := by
  obtain ⟨told, ⟨record, -, htold⟩, rfl⟩ := World.ofEntry?_eq_some_iff.mp h
  have hlayers := layers_ne_nil_of_ofRecord htold
  exact hlayers

theorem layers_step (o : Object) (dt : Float32) (now : Float) :
    (o.step dt now).1.layers = o.layers := by
  obtain ⟨_, _, _, _, h, -⟩ := o.exists_step dt now
  rw [h]

end Object

namespace Replica

variable {r : Replica}

/-- What the renderer is told of by snapshots, frames and other messages. -/
structure Reports (r : Replica) : Prop where
  state : ∀ objects channel now,
    World.Accounted r.world (r.apply (.state objects channel) now).2.world
      (r.apply (.state objects channel) now).1
  frame : ∀ dt now,
    World.Accounted r.world (r.update dt now).2.2.world (r.update dt now).2.1
  removed : ∀ id layer now, r.apply (.removed id layer) now = ([⟨id, layer⟩], r)
  silent : ∀ m now, (∀ objects channel, m ≠ .state objects channel) →
    (∀ id layer, m ≠ .removed id layer) → (r.apply m now).1 = []
  /-- Whatever leaves the replica, by any event, does not go unnoticed. -/
  noticed : ∀ event id o, r.world.find? id = some o →
    (r.perform event).2.world.find? id = none → ∃ layer, ⟨id, layer⟩ ∈ (r.perform event).1

theorem accounted_update (r : Replica) (dt : Float32) (now : Float) :
    World.Accounted r.world (r.update dt now).2.2.world (r.update dt now).2.1 :=
  (World.accounted_sweep _ now).of_mapValues (World.objects_integrate ..)
    fun _ o => o.layers_step dt now

/-- Nothing leaves but by a snapshot or in a frame. -/
theorem find?_perform_ne_none (event : Event) {id : String} {o : Object}
    (ho : r.world.find? id = some o)
    (hstate : ∀ objects channel now, event ≠ .message (.state objects channel) now)
    (hframe : ∀ dt now, event ≠ .frame dt now) : (r.perform event).2.world.find? id ≠ none := by
  have hground : (r.ground event).find? id ≠ none := by
    cases event with
    | message m now =>
        cases m with
        | state objects channel => exact absurd rfl (hstate objects channel now)
        | route mover path => simp [ground, World.find?_modify_eq_map, ho]
        | assigned | message | chat | removed => simp [ground, ho]
    | move target now => simp [ground, ho]
    | frame dt now => exact absurd rfl (hframe dt now)
  rw [world_perform, World.find?_foldl_insert]
  intro hnone
  exact hground (Option.or_eq_none_iff.mp hnone).2

/-- Where no object lacks layers, each notice is for one layer of what leaves the replica, and what
leaves it is told of layer by layer. -/
theorem Reports.of_layers (hlayers : World.Holds (fun o => o.layers ≠ []) r.world) :
    r.Reports := by
  have hstate := fun objects => r.world.accounted_reconcile objects
  have hframe := fun dt now => r.accounted_update dt now
  refine ⟨fun objects _ _ => hstate objects, hframe, fun _ _ _ => rfl, ?_, ?_⟩
  · intro m now hnotState hnotRemoved
    cases m with
    | state objects channel => exact absurd rfl (hnotState objects channel)
    | removed id layer => exact absurd rfl (hnotRemoved id layer)
    | route mover path => rw [apply_route_eq]
    | assigned | message | chat => rfl
  · intro event id o ho hgone
    by_contra hsilent
    have hne := fun hs hf => find?_perform_ne_none event ho hs hf hgone
    cases event with
    | message m now =>
        cases m with
        | state objects channel =>
            exact hsilent ((hstate objects).exists_notice ho hgone (hlayers id o ho))
        | route | assigned | message | chat | removed => exact hne nofun nofun
    | move target now => exact hne nofun nofun
    | frame dt now => exact hsilent ((hframe dt now).exists_notice ho hgone (hlayers id o ho))

/-- The first hero and the markers have the layers of their kinds, and an entry without layers tells
of no object. -/
theorem layered_run (events : List Event) :
    World.Holds (fun o => o.layers ≠ []) (run events).world :=
  (reachableWith_run (fun kind _ _ _ _ => kind.defaultLayers_ne_nil) (fun _ _ h => h)
    events).holds (fun _ _ _ => Object.layers_ne_nil_of_entry)
    fun o dt now h => by rw [o.layers_step]; exact h

/-- After any run, each notice is for one layer of what leaves the replica, and what leaves it is
told of layer by layer. -/
theorem reports_run (events : List Event) : (run events).Reports :=
  .of_layers (layered_run events)

end Replica

end TileWorld
