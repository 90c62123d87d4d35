import TileWorld.Proofs.Simulation.Tellable
import TileWorld.Proofs.Simulation.Toggling

/-! Simulations whose objects all stand at finite points and whose player wears something. -/

namespace TileWorld.Simulation

variable {s t : Simulation}

structure Intact (s : Simulation) : Prop where
  position : ∀ id o, s.world.find? id = some o → o.position.isFinite = true
  layers : ∀ id o, s.player = some id → s.world.find? id = some o → o.layers ≠ []

/-! ## Changes in place -/

theorem Intact.change (hs : s.Intact) {f : String → Object → Object} (hplayer : t.player = s.player)
    (hfind : ∀ id, t.world.find? id = (s.world.find? id).map (f id))
    (hposition : ∀ id o, s.world.find? id = some o → (f id o).position = o.position)
    (hlayers : ∀ id (o : Object), o.layers ≠ [] → (f id o).layers ≠ []) : t.Intact := by
  refine ⟨?_, ?_⟩
  · intro id x hx
    rw [hfind] at hx
    obtain ⟨o, ho, rfl⟩ := Option.map_eq_some_iff.mp hx
    rw [hposition id o ho]
    exact hs.position id o ho
  · intro id x hp hx
    rw [hfind] at hx
    obtain ⟨o, ho, rfl⟩ := Option.map_eq_some_iff.mp hx
    exact hlayers id o (hs.layers id o (hplayer ▸ hp) ho)

theorem Intact.modify (hs : s.Intact) (id : String) {change : Object → Object} (words : Words)
    (keepsId : ∀ o, (change o).id = o.id) (hposition : ∀ o, (change o).position = o.position)
    (hlayers : ∀ o : Object, o.layers ≠ [] → (change o).layers ≠ []) :
    Intact { s with world := s.world.modify id change keepsId, words } := by
  refine hs.change (f := fun k o => if k = id then change o else o) rfl
    (World.find?_modify_eq_map s.world id keepsId) ?_ ?_
  · intro k o _
    split
    · exact hposition o
    · rfl
  · intro k o ho
    split
    · exact hlayers o ho
    · exact ho

/-! ## Calls -/

theorem intact_repopulate {player : String} (hdims : s.world.dims = .standard) :
    (s.repopulate player).Intact := by
  have hmem : ∀ id o, (s.repopulate player).world.find? id = some o →
      o ∈ (Channel.populate .standard s.settings.spawn s.channel player s.words).1.objects := by
    intro id o ho
    rw [← hdims]
    exact (mem_of_find?_repopulate ho).1
  refine ⟨fun id o ho => Channel.isFinite_of_mem_populate (hmem id o ho), fun id o _ ho => ?_⟩
  obtain ⟨kind, wander, hkind, -⟩ := Channel.exists_ofKind_of_mem_populate (hmem id o ho)
  rw [hkind]
  exact kind.defaultLayers_ne_nil

theorem Intact.movePlayer (hs : s.Intact) (player : String) (target : Point) :
    (s.movePlayer player target).2.Intact := by
  rw [Simulation.movePlayer]
  split
  · exact hs.modify player s.words (fun _ => by rfl) (fun _ => by rfl) fun _ ho => ho
  · exact hs

theorem Intact.handle (hs : s.Intact) (htold : s.Tellable) {m : ClientMessage}
    (hm : ∀ item, m ≠ .activate item false) : (s.handle m).2.Intact := by
  obtain ⟨player, o, hplayer, ho⟩ := htold.exists_player
  cases m with
  | move target =>
      rw [Simulation.handle, hplayer]
      exact hs.movePlayer player target
  | chat room text =>
      rw [Simulation.handle, hplayer]
      exact hs
  | activate item active =>
      obtain rfl : active = true := by
        cases active with
        | false => exact absurd rfl (hm item)
        | true => rfl
      rw [handle_activate hplayer (Option.isSome_iff_exists.mpr ⟨o, ho⟩)]
      exact hs.modify player s.words (fun _ => by rfl) (fun _ => by rfl) fun _ _ =>
        List.ne_nil_of_mem (mem_toggle_true ..)
  | changeChannel channel =>
      rw [handle_changeChannel hplayer]
      exact intact_repopulate htold.dims

theorem Intact.dispatch (hs : s.Intact) (now : Float) (agent : Idle) :
    (s.dispatch now agent).2.Intact := by
  rcases s.dispatch_cases now agent with ⟨path, words, -, hsent⟩ | ⟨words, hfailed⟩
  · rw [hsent]
    exact hs.modify agent.id words (fun _ => by rfl) (fun _ => by rfl) fun _ h => h
  · rw [hfailed]
    exact hs.modify agent.id words (fun _ => by rfl) (fun _ => by rfl) fun _ h => h

/-- As long as nothing has a path, a tick moves nothing. -/
theorem Intact.tick (hs : s.Intact) (hrouted : s.Routed)
    (hrest : ∀ id o, s.world.find? id = some o → o.path = []) (now : Float) (dt : Float32) :
    (s.tick now dt).2.Intact := by
  rw [hrouted.tick_eq]
  refine dispatchAll_induction (fun _ agent h => h.dispatch now agent) ?_ _
  refine hs.change (f := fun _ o => (o.step dt now).1) rfl (World.find?_integrate s.world dt now)
    ?_ ?_
  · intro id o ho
    rw [Object.step_of_path_eq_nil (hrest id o ho)]
  · intro _ o ho
    obtain ⟨_, _, _, _, h, -⟩ := o.exists_step dt now
    rw [h]
    exact ho

/-! ## Runs -/

/-- Requests that take nothing away from the player. -/
theorem Intact.run_map_handle (hs : s.Intact) (htold : s.Tellable) {requests : List ClientMessage}
    (h : ∀ m ∈ requests, ∀ item, m ≠ .activate item false) :
    (s.run (requests.map .handle)).Intact := by
  induction requests generalizing s with
  | nil => exact hs
  | cons m requests ih =>
      have hfirst := hs.handle htold (h m List.mem_cons_self)
      exact ih hfirst (htold.handle m) fun other hother => h other (List.mem_cons_of_mem m hother)

/-- The first tick finds nothing on its way, so it may be as long as it likes. -/
theorem intact_run_of_prefix (settings : SimulationSettings) (words : Words)
    (channel token : String) (now : Float) (dt : Float32) {requests : List ClientMessage}
    (hrequests : ∀ m ∈ requests, ∀ item, m ≠ .activate item false) {before : List Call}
    (h : before <+: .tick now dt :: requests.map .handle) :
    (((new settings words).bootstrap channel token).2.run before).Intact := by
  have hfirst : ((new settings words).bootstrap channel token).2.Intact := intact_repopulate rfl
  have hrouted := routed_bootstrap (new settings words) channel token
  have hticked := hfirst.tick hrouted (fun _ _ ho => (fresh_of_find?_repopulate ho).path) now dt
  have htold := (tellable_bootstrap settings words channel token).tick hrouted now dt
  rcases List.prefix_cons_iff.mp h with rfl | ⟨rest, rfl, hrest⟩
  · exact hfirst
  · obtain ⟨asked, hasked, rfl⟩ := List.prefix_map_iff.mp hrest
    rw [run_cons, perform]
    exact hticked.run_map_handle htold fun m hm => hrequests m (hasked.mem hm)

end TileWorld.Simulation
