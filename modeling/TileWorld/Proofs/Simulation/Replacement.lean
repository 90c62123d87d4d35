import TileWorld.Proofs.Channel.Naming
import TileWorld.Proofs.Simulation.Tellable
import TileWorld.Proofs.World.Reconcile
import TileWorld.Uuid

/-! Nothing of its world is left once a simulation enters a channel, whatever happened to it before.
-/

namespace TileWorld

theorem World.keys_snapshot {w : World} (h : ∀ id o, w.find? id = some o → o.persistent = true) :
    w.snapshot.keys = w.objects.keys := by
  have hall : w.objects.entries.filter (fun e => e.2.persistent) = w.objects.entries :=
    List.filter_eq_self.mpr fun e he => h e.1 e.2 (Table.find?_eq_some_of_mem he)
  simp only [World.snapshot_eq, Table.keys, Table.mapValues, Entries.mapValues, Table.filter, hall,
    List.map_map, Function.comp_def]

namespace Simulation

variable {s t : Simulation}

/-- The simulations that there can be. Their worlds may also be changed from outside. -/
inductive Reachable : Simulation → Prop where
  | new (settings : SimulationSettings) (words : Words) : Reachable (new settings words)
  | bootstrap {s : Simulation} (channel : String) (random : Nat) : Reachable s →
      Reachable (s.bootstrap channel (Uuid.ofRandom random).text).2
  | perform {s : Simulation} (call : Call) : Reachable s → Reachable (s.perform call).2
  | operate {s : Simulation} (op : World.Operation) : Reachable s →
      Reachable { s with world := s.world.perform op }

def IsPlayerId (player : String) : Prop :=
  ∃ random, player = "player-" ++ (Uuid.ofRandom random).text

/-- The simulation has entered the channel with the objects `p` and nothing else, and the message
tells of it. -/
structure Replaced (p : Population) (channel player : String) (message : ServerMessage)
    (t : Simulation) : Prop where
  inChannel : t.channel = channel
  owner : t.player = some player
  distinct : (p.objects.map (·.id)).Nodup
  table : ∀ id o, t.world.find? id = some o ↔ o ∈ p.objects ∧ o.id = id
  size : t.world.size = p.walls.length + 1 + p.agents.length
  /-- No other id is in the table or in a place of the grid. -/
  gone : ∀ id, id ∉ p.objects.map (·.id) →
    t.world.find? id = none ∧ ∀ place : Nat, t.world.grid.squares[place]? ≠ some (some id)
  maze : ∀ c b, t.world.maze.blocked? c = some b ↔
    (c.row < Dims.standard.mazeRows ∧ c.col < Dims.standard.mazeCols) ∧
      (b = true ↔ ∃ wall ∈ p.walls, c ∈ Dims.standard.footprint wall.position)
  still : ∀ id o, t.world.find? id = some o → o.path = []
  told : ∃ entries, message = .state entries (some channel) ∧
    entries.keys = t.world.objects.keys

/-! ## Reachable worlds -/

variable {d : Dims}

theorem reachable_dispatchAll (h : World.Reachable d s.world) (now : Float) (agents : List Idle) :
    World.Reachable d (s.dispatchAll now agents).2.world := by
  refine dispatchAll_induction (P := fun s => World.Reachable d s.world) ?_ h agents
  intro s agent hs
  rcases s.dispatch_cases now agent with ⟨path, words, -, hsent⟩ | ⟨words, hfailed⟩
  · rw [hsent]
    exact hs.perform (.modify agent.id (fun o => o.setPath path) fun o => o.id_setPath path)
  · rw [hfailed]
    exact hs.perform (.modify agent.id
      (fun o => { o with wander := o.wander.map fun w => { w with lastPath := now } })
      fun _ => rfl)

theorem reachable_tick (h : World.Reachable d s.world) (now : Float) (dt : Float32) :
    World.Reachable d (s.tick now dt).2.world := by
  have hsent := reachable_dispatchAll (s := { s with world := (s.world.integrate dt now).2 })
    (h.perform (.integrate dt now)) now (idleAgents (s.world.integrate dt now).2 now)
  exact hsent.perform (.sweep now)

theorem reachable_repopulate (h : World.Reachable d s.world) (player : String) :
    World.Reachable d (s.repopulate player).world := by
  have hcleared : World.Reachable d (s.world.retain fun _ => false).2 :=
    h.perform (.retain fun _ => false)
  have hinserted : World.Reachable d
      ((s.entered player).objects.foldl World.insert (s.world.retain fun _ => false).2) :=
    List.foldlRecOn _ _ hcleared fun _ hw o _ => hw.perform (.insert o)
  exact hinserted.perform .rebuildMaze

theorem reachable_handle (h : World.Reachable d s.world) (m : ClientMessage) :
    World.Reachable d (s.handle m).2.world := by
  rcases s.handle_cases m with hsame | ⟨player, change, keepsId, -, -, hmodified⟩ |
    ⟨player, channel, -, hentered⟩
  · rwa [hsame]
  · rw [hmodified]
    exact h.perform (.modify player change keepsId)
  · rw [hentered]
    exact reachable_repopulate (s := { s with channel }) h player

theorem Reachable.world (h : Reachable s) : World.Reachable .standard s.world := by
  induction h with
  | new settings words => exact .empty
  | @bootstrap s channel random _ ih =>
      exact reachable_repopulate (s := { s with channel, player := some _ }) ih _
  | perform call _ ih =>
      cases call with
      | tick now dt => exact reachable_tick ih now dt
      | handle m => exact reachable_handle ih m
  | operate op _ ih => exact ih.perform op

theorem Reachable.isPlayerId (h : Reachable s) {player : String} (hplayer : s.player = some player) :
    IsPlayerId player := by
  induction h with
  | new settings words => cases hplayer
  | bootstrap channel random _ _ =>
      rw [player_bootstrap, Option.some_inj] at hplayer
      exact ⟨random, hplayer.symm⟩
  | perform call _ ih => exact ih ((player_perform _ call).symm.trans hplayer)
  | operate op _ ih => exact ih hplayer

/-! ## Entering a channel -/

section

variable {player : String}

theorem IsPlayerId.nodup_ids_entered (hid : IsPlayerId player) (s : Simulation) :
    ((s.entered player).objects.map (·.id)).Nodup := by
  obtain ⟨random, rfl⟩ := hid
  exact Channel.nodup_ids_populate ..

theorem IsPlayerId.find?_repopulate_iff (hid : IsPlayerId player) {id : String} {o : Object} :
    (s.repopulate player).world.find? id = some o ↔ o ∈ (s.entered player).objects ∧ o.id = id := by
  constructor
  · exact mem_of_find?_repopulate
  · rintro ⟨ho, rfl⟩
    exact World.find?_foldl_insert_of_mem (hid.nodup_ids_entered s) ho _

theorem IsPlayerId.values_repopulate_perm (hid : IsPlayerId player) (s : Simulation) :
    (s.repopulate player).world.objects.values.Perm (s.entered player).objects := by
  have hvalues : ((s.repopulate player).world.objects.values.map (·.id)).Nodup := by
    rw [(s.repopulate player).world.keyed.map_id_values]
    exact Table.nodup_keys _
  have hmem : ∀ o, o ∈ (s.repopulate player).world.objects.values ↔
      o ∈ (s.entered player).objects := by
    intro o
    rw [Table.mem_values]
    constructor
    · rintro ⟨id, ho⟩
      exact (mem_of_find?_repopulate ho).1
    · intro ho
      exact ⟨o.id, hid.find?_repopulate_iff.mpr ⟨ho, rfl⟩⟩
  exact (List.perm_ext_iff_of_nodup hvalues.of_map (hid.nodup_ids_entered s).of_map).mpr hmem

/-- The obstacles of a channel are its walls. -/
theorem IsPlayerId.covered_repopulate_iff (hid : IsPlayerId player) {c : Cell} :
    (s.repopulate player).world.Covered c ↔
      ∃ wall ∈ (s.entered player).walls,
        c ∈ (s.repopulate player).world.dims.footprint wall.position := by
  constructor
  · rintro ⟨id, o, ho, hobstacle, hc⟩
    have hmem := (mem_of_find?_repopulate ho).1
    exact ⟨o, (Channel.mem_walls_iff hmem).mpr hobstacle, hc⟩
  · rintro ⟨wall, hwall, hc⟩
    have hmem : wall ∈ (s.entered player).objects := List.mem_append_left _ hwall
    exact ⟨wall.id, wall, hid.find?_repopulate_iff.mpr ⟨hmem, rfl⟩,
      (Channel.mem_walls_iff hmem).mp hwall, hc⟩

/-- What the old world held is gone from the grid because each of its objects was taken out of the
square that named it. -/
theorem replaced_repopulate (h : World.Reachable .standard s.world)
    (hplayer : s.player = some player) (hid : IsPlayerId player) :
    Replaced (s.entered player) s.channel player (s.repopulate player).stateMessage
      (s.repopulate player) := by
  have hreachable := reachable_repopulate h player
  have hfresh : ∀ id o, (s.repopulate player).world.find? id = some o → o.Fresh := fun id o ho =>
    fresh_of_find?_repopulate ho
  have hgone : ∀ id, id ∉ (s.entered player).objects.map (·.id) →
      (s.repopulate player).world.find? id = none := by
    intro id hnot
    refine Option.eq_none_iff_forall_ne_some.mpr fun o ho => hnot ?_
    obtain ⟨hmem, rfl⟩ := mem_of_find?_repopulate ho
    exact List.mem_map_of_mem hmem
  refine ⟨rfl, hplayer, hid.nodup_ids_entered s, fun id o => hid.find?_repopulate_iff, ?_, ?_, ?_,
    fun id o ho => (hfresh id o ho).path,
    ⟨_, rfl, World.keys_snapshot fun id o ho => (hfresh id o ho).persistent⟩⟩
  · have hlength := (hid.values_repopulate_perm s).length_eq
    rw [Table.values, List.length_map, Population.objects, List.length_append,
      List.length_cons] at hlength
    rw [World.size, Table.size]
    omega
  · intro id hnot
    refine ⟨hgone id hnot, fun place hplace => ?_⟩
    obtain ⟨square, hsquare, rfl⟩ := World.exists_square _ (Array.getElem?_eq_some_iff.mp hplace).1
    rw [Grid.getElem?_index hsquare, Option.some_inj] at hplace
    obtain ⟨o, ho, -⟩ := hreachable.filed square id hplace
    rw [hgone id hnot] at ho
    cases ho
  · intro c b
    have hmaze : (s.repopulate player).world.maze = .ofObstacles (s.repopulate player).world.dims
        (s.repopulate player).world.obstaclePositions := rfl
    rw [hmaze, World.blocked?_ofObstacles_iff, hid.covered_repopulate_iff, hreachable.shaped.dims]

end

/-- After a bootstrap the world is that of the channel, with a player of a new name. After a change
of the channel it is that of the new channel, with the same player; without a player the request is
dropped. -/
theorem Reachable.replaced (h : Reachable s) (channel : String) :
    (∀ random, let player := "player-" ++ (Uuid.ofRandom random).text
      ∃ message,
        (s.bootstrap channel (Uuid.ofRandom random).text).1 = [.assigned player, message] ∧
          Replaced (({ s with channel } : Simulation).entered player) channel player message
            (s.bootstrap channel (Uuid.ofRandom random).text).2) ∧
      (∀ player, s.player = some player → IsPlayerId player ∧
        ∃ message, (s.handle (.changeChannel channel)).1 = [message] ∧
          Replaced (({ s with channel } : Simulation).entered player) channel player message
            (s.handle (.changeChannel channel)).2) ∧
      (s.player = none → s.handle (.changeChannel channel) = ([], s)) := by
  refine ⟨fun random => ⟨_, rfl, ?_⟩, fun player hplayer => ?_, fun hplayer => ?_⟩
  · have hid : IsPlayerId ("player-" ++ (Uuid.ofRandom random).text) := ⟨random, rfl⟩
    have hreplaced := replaced_repopulate
      (s := { s with channel, player := some ("player-" ++ (Uuid.ofRandom random).text) })
      h.world rfl hid
    exact hreplaced
  · rw [handle_changeChannel hplayer]
    exact ⟨h.isPlayerId hplayer, _, rfl,
      replaced_repopulate (s := { s with channel }) h.world hplayer (h.isPlayerId hplayer)⟩
  · rw [handle, hplayer]

/-- A change of the channel is one of those that the general statement is about. -/
theorem replaced_secondChannel :
    let s := ((new .standard ⟨fun _ => 0, 0⟩).bootstrap "channel-alpha" (Uuid.ofRandom 0).text).2
    let player := "player-" ++ (Uuid.ofRandom 0).text
    Reachable s ∧ s.player = some player ∧
      ∃ message, (s.handle (.changeChannel "channel-beta")).1 = [message] ∧
        Replaced (({ s with channel := "channel-beta" } : Simulation).entered player) "channel-beta"
          player message (s.handle (.changeChannel "channel-beta")).2 := by
  intro s player
  have h : Reachable s := .bootstrap "channel-alpha" 0 (.new .standard ⟨fun _ => 0, 0⟩)
  have hplayer : s.player = some player := player_bootstrap ..
  -- the world of the first channel is not to be computed
  clear_value s
  exact ⟨h, hplayer, ((h.replaced "channel-beta").2.1 player hplayer).2⟩

/-- Before the bootstrap a change of the channel puts nothing into the world. -/
theorem not_replaced_unbootstrapped :
    let s := new .standard ⟨fun _ => 0, 0⟩
    Reachable s ∧ ∀ player message,
      ¬ Replaced (({ s with channel := "channel-beta" } : Simulation).entered player) "channel-beta"
        player message (s.handle (.changeChannel "channel-beta")).2 := by
  intro s
  refine ⟨.new .standard ⟨fun _ => 0, 0⟩, fun player message h => ?_⟩
  have hempty : (s.handle (.changeChannel "channel-beta")).2.world.size = 0 := rfl
  rw [h.size] at hempty
  omega

end Simulation

end TileWorld
