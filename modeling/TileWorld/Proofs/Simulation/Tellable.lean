import TileWorld.Proofs.Channel.Naming
import TileWorld.Proofs.Channel.Spawn
import TileWorld.Proofs.Object.Wire
import TileWorld.Proofs.Replica.Marker
import TileWorld.Proofs.Simulation.Response
import TileWorld.Proofs.Simulation.Routed

/-! Each object of a simulation can be told under its id, except for infinite places and layers
taken away. -/

namespace TileWorld

/-! ## Ids -/

theorem not_reserved_wallId (square : Square) : ¬ Reserved (Channel.wallId square) :=
  fun h => absurd (h.head?.symm.trans (Channel.head?_wallId square)) (by decide)

theorem not_reserved_agentId (n : Nat) : ¬ Reserved (Channel.agentId n) :=
  fun h => absurd (h.head?.symm.trans (Channel.head?_agentId n)) (by decide)

theorem not_reserved_player (token : String) : ¬ Reserved ("player-" ++ token) :=
  fun h => absurd (h.head?.symm.trans (Channel.head?_player token)) (by decide)

/-! ## Objects with the defaults of their kinds -/

theorem Object.tellable_ofKind (kind : Kind) (id : String) (position : Point)
    (wander : Option Wander) : Tellable { ofKind kind id position with wander } := by
  have hspeed : ∀ k : Kind, k.defaultSpeed.isFinite = true := by
    intro k
    cases k <;> decide +kernel
  have hobstacle : ∀ k : Kind, (k == .wall) = true → (!k.isMarker) = true := by
    intro k
    cases k <;> decide
  exact ⟨hspeed kind, nofun, Nat.zero_le _, nofun, hobstacle kind, .inr ⟨rfl, rfl⟩⟩

/-- Nothing enters a channel but objects with every default of their kinds. -/
theorem Channel.exists_ofKind_of_mem_populate {d : Dims} {settings : SpawnSettings}
    {channel player : String} {words : Words} {o : Object}
    (h : o ∈ (populate d settings channel player words).1.objects) :
    ∃ kind wander, o = { Object.ofKind kind o.id o.position with wander } ∧
      (o.id = player ∨ ¬ Reserved o.id) := by
  rcases List.mem_append.mp h with hwall | hrest
  · rw [walls_populate] at hwall
    obtain ⟨s, -, rfl⟩ := exists_square_of_mem_walls hwall
    exact ⟨.wall, none, rfl, .inr (not_reserved_wallId s)⟩
  · rcases List.mem_cons.mp hrest with rfl | hagent
    · exact ⟨.player, none, rfl, .inl rfl⟩
    · obtain ⟨k, home, rfl⟩ := exists_agent_of_mem_agents hagent
      exact ⟨.questGiver, _, rfl, .inr (not_reserved_agentId k)⟩

namespace Simulation

variable {s t : Simulation}

/-- An object that can be told under its id, and that has layers unless it is the player. -/
structure Presents (s : Simulation) (id : String) (o : Object) : Prop where
  named : o.id = id
  tellable : o.Tellable
  unreserved : ¬ Reserved id
  layers : s.player ≠ some id → o.layers ≠ []

structure Tellable (s : Simulation) : Prop where
  dims : s.world.dims = .standard
  rows : s.world.maze.rows = 128
  cols : s.world.maze.cols = 128
  objects : ∀ id o, s.world.find? id = some o → s.Presents id o
  exists_player : ∃ player o, s.player = some player ∧ s.world.find? player = some o

/-! ## Changes in place -/

/-- Objects may be changed where they are, as long as they can be told and keep their layers. -/
theorem Tellable.change (hs : s.Tellable) {f : String → Object → Object}
    (hplayer : t.player = s.player) (hdims : t.world.dims = s.world.dims)
    (hmaze : t.world.maze = s.world.maze)
    (hfind : ∀ id, t.world.find? id = (s.world.find? id).map (f id))
    (hid : ∀ id o, (f id o).id = o.id)
    (htellable : ∀ id (o : Object), o.Tellable → (f id o).Tellable)
    (hlayers : ∀ id o, s.player ≠ some id → (f id o).layers = o.layers) : t.Tellable := by
  refine ⟨hdims.trans hs.dims, hmaze ▸ hs.rows, hmaze ▸ hs.cols, ?_, ?_⟩
  · intro id x hx
    rw [hfind] at hx
    obtain ⟨o, ho, rfl⟩ := Option.map_eq_some_iff.mp hx
    have hpresents := hs.objects id o ho
    refine ⟨(hid id o).trans hpresents.named, htellable id o hpresents.tellable,
      hpresents.unreserved, ?_⟩
    intro hne
    rw [hplayer] at hne
    rw [hlayers id o hne]
    exact hpresents.layers hne
  · obtain ⟨player, o, hp, ho⟩ := hs.exists_player
    exact ⟨player, f player o, hplayer.trans hp, by rw [hfind, ho, Option.map_some]⟩

theorem Tellable.modify (hs : s.Tellable) (id : String) {change : Object → Object} (words : Words)
    (keepsId : ∀ o, (change o).id = o.id)
    (htellable : ∀ o : Object, o.Tellable → (change o).Tellable)
    (hlayers : ∀ o, s.player ≠ some id → (change o).layers = o.layers) :
    Tellable { s with world := s.world.modify id change keepsId, words } := by
  refine hs.change (f := fun k o => if k = id then change o else o) rfl
    (World.dims_modify s.world id keepsId) (World.maze_modify s.world id keepsId) ?_ ?_ ?_ ?_
  · exact World.find?_modify_eq_map s.world id keepsId
  · intro k o
    split
    · exact keepsId o
    · rfl
  · intro k o ho
    split
    · exact htellable o ho
    · exact ho
  · intro k o hk
    split
    · rename_i heq
      exact hlayers o (heq ▸ hk)
    · rfl

/-! ## Paths that are issued -/

theorem Tellable.isFinite_of_findPath (hs : s.Tellable) {start goal : Cell} {path : List Point}
    (h : (s.world.maze.findPath start goal).map s.world.dims.waypoints = some path) :
    (∀ p ∈ path, p.isFinite = true) ∧ path.length ≤ 2 ^ 64 := by
  obtain ⟨cells, hcells, rfl⟩ := Option.map_eq_some_iff.mp h
  obtain ⟨hin, hlength⟩ := Maze.inBounds_of_findPath hcells
  rw [hs.rows, hs.cols] at hlength
  rw [hs.dims, Dims.waypoints, List.length_map]
  refine ⟨?_, hlength.trans (by decide)⟩
  intro p hp
  obtain ⟨c, hc, rfl⟩ := List.mem_map.mp hp
  obtain ⟨hrow, hcol⟩ := Maze.inBounds_iff.mp (hin c hc)
  exact Dims.isFinite_cellCorner (hs.rows ▸ hrow) (hs.cols ▸ hcol)

theorem exists_findPath_of_routeTo? {w : World} {position target : Point} {path : List Point}
    (h : routeTo? w position target = some path) :
    ∃ start goal, (w.maze.findPath start goal).map w.dims.waypoints = some path := by
  simp only [routeTo?, Option.bind_eq_bind, Option.bind_eq_some_iff] at h
  obtain ⟨start, -, goal, -, hpath⟩ := h
  exact ⟨start, goal, hpath⟩

theorem exists_findPath_of_planWander {w : World} {position : Point} {wander : Wander}
    {attempts : Nat} {words : Words} {path : List Point}
    (h : (planWander w position wander attempts words).1 = some path) :
    ∃ start goal, (w.maze.findPath start goal).map w.dims.waypoints = some path := by
  rw [planWander] at h
  split at h
  · cases h
  · rename_i start _
    induction attempts generalizing words with
    | zero => cases h
    | succ attempts ih =>
        rw [routeToTarget] at h
        dsimp only at h
        split at h
        · exact ⟨start, _, h⟩
        · exact ih h

/-! ## Ticks -/

/-- Nothing decays in a simulation, so a tick only moves objects and sends the idle agents. -/
theorem Routed.tick_eq (hs : s.Routed) (now : Float) (dt : Float32) :
    let moved : Simulation := { s with world := (s.world.integrate dt now).2 }
    let sent := moved.dispatchAll now (idleAgents moved.world now)
    s.tick now dt = (sent.1 ++ [sent.2.stateMessage], sent.2) := by
  intro moved sent
  have hmoved : moved.Routed := hs.reroute (hs.world.integrate dt now) rfl
  have hsent : sent.2.Routed := hmoved.dispatchAll now (idleAgents moved.world now)
    fun _ h => mobile_of_mem_idleAgents hmoved.world h
  rw [Simulation.tick]
  dsimp only
  rw [hsent.world.sweep]
  simp [moved, sent]

theorem Tellable.integrate (hs : s.Tellable) (now : Float) (dt : Float32) :
    Tellable { s with world := (s.world.integrate dt now).2 } := by
  refine hs.change (f := fun _ o => (o.step dt now).1) rfl (World.dims_integrate ..)
    (World.maze_integrate ..) (World.find?_integrate s.world dt now) ?_ ?_ ?_
  · intro _ o
    exact o.id_step dt now
  · intro _ o ho
    exact ho.step dt now
  · intro _ o _
    obtain ⟨_, _, _, _, h, -⟩ := o.exists_step dt now
    rw [h]

theorem Tellable.dispatch (hs : s.Tellable) (now : Float) (agent : Idle) :
    (s.dispatch now agent).2.Tellable := by
  rcases s.dispatch_cases now agent with ⟨path, words, hpath, hsent⟩ | ⟨words, hfailed⟩
  · obtain ⟨start, goal, hroute⟩ := exists_findPath_of_planWander hpath
    obtain ⟨hfinite, hlength⟩ := hs.isFinite_of_findPath hroute
    rw [hsent]
    exact hs.modify agent.id words (fun o => o.id_setPath path)
      (fun _ ho => ho.setPath hfinite hlength) fun _ _ => rfl
  · rw [hfailed]
    refine hs.modify agent.id words (fun _ => by rfl) (fun _ ho => ?_) fun _ _ => by rfl
    exact ⟨ho.speed, ho.path, ho.length, ho.decay, ho.obstacle, ho.cursor⟩

theorem Tellable.dispatchAll (hs : s.Tellable) (now : Float) (agents : List Idle) :
    (s.dispatchAll now agents).2.Tellable :=
  dispatchAll_induction (fun _ agent h => h.dispatch now agent) hs agents

theorem Tellable.tick (hs : s.Tellable) (hrouted : s.Routed) (now : Float) (dt : Float32) :
    (s.tick now dt).2.Tellable := by
  rw [hrouted.tick_eq]
  exact (hs.integrate now dt).dispatchAll now _

/-! ## Requests -/

theorem handle_activate {player : String} (hplayer : s.player = some player)
    (hcontains : s.world.contains player = true) (item : String) (active : Bool) :
    s.handle (.activate item active) =
      let t := { s with
        world := s.world.modify player (fun o => { o with layers := toggle item active o.layers })
          fun _ => rfl }
      ([t.stateMessage], t) := by
  obtain ⟨o, ho⟩ := Option.isSome_iff_exists.mp hcontains
  have hanswer : s.handle (.activate item active) = s.activateItem player item active := by
    rw [Simulation.handle, hplayer]
  exact hanswer.trans (activateItem_of_find? item active ho)

theorem handle_changeChannel {player : String} (hplayer : s.player = some player)
    (channel : String) :
    s.handle (.changeChannel channel) =
      let t := { s with channel }.repopulate player
      ([t.stateMessage], t) := by
  rw [Simulation.handle, hplayer]

theorem Tellable.movePlayer (hs : s.Tellable) (player : String) (target : Point) :
    (s.movePlayer player target).2.Tellable := by
  rw [Simulation.movePlayer]
  split
  · rename_i path hpath
    obtain ⟨o, -, hroute⟩ := Option.bind_eq_some_iff.mp hpath
    obtain ⟨start, goal, hroute⟩ := exists_findPath_of_routeTo? hroute
    obtain ⟨hfinite, hlength⟩ := hs.isFinite_of_findPath hroute
    exact hs.modify player s.words (fun o => o.id_setPath path)
      (fun _ ho => ho.setPath hfinite hlength) fun _ _ => rfl
  · exact hs

theorem Tellable.activateItem (hs : s.Tellable) {player : String} (hplayer : s.player = some player)
    (item : String) (active : Bool) : (s.activateItem player item active).2.Tellable := by
  rw [Simulation.activateItem]
  split
  · refine hs.modify player s.words (fun _ => by rfl) (fun _ ho => ?_)
      fun _ hne => absurd hplayer hne
    exact ⟨ho.speed, ho.path, ho.length, ho.decay, ho.obstacle, ho.cursor⟩
  · exact hs

theorem dims_repopulate (s : Simulation) (player : String) :
    (s.repopulate player).world.dims = s.world.dims :=
  (World.dims_foldl_insert ..).trans (World.dims_retain ..)

theorem tellable_repopulate {player : String} (hdims : s.world.dims = .standard)
    (hplayer : s.player = some player) (hreserved : ¬ Reserved player) :
    (s.repopulate player).Tellable := by
  have hstandard : (s.repopulate player).world.dims = .standard :=
    (dims_repopulate s player).trans hdims
  have hmaze : (s.repopulate player).world.maze = .ofObstacles (s.repopulate player).world.dims
      (s.repopulate player).world.obstaclePositions := rfl
  refine ⟨hstandard, ?_, ?_, ?_, ?_⟩
  · rw [hmaze, Maze.rows_ofObstacles, hstandard, Dims.mazeRows_standard]
  · rw [hmaze, Maze.cols_ofObstacles, hstandard, Dims.mazeCols_standard]
  · intro id o ho
    obtain ⟨hmem, hid⟩ := mem_of_find?_repopulate ho
    obtain ⟨kind, wander, hkind, hunreserved⟩ := Channel.exists_ofKind_of_mem_populate hmem
    rw [hid] at hkind hunreserved
    refine ⟨hid, hkind ▸ Object.tellable_ofKind kind id o.position wander, ?_, ?_⟩
    · rcases hunreserved with rfl | hunreserved
      · exact hreserved
      · exact hunreserved
    · intro _
      rw [hkind]
      exact kind.defaultLayers_ne_nil
  · obtain ⟨o, ho⟩ := exists_find?_player_repopulate s player
    exact ⟨player, o, hplayer, ho⟩

theorem Tellable.handle (hs : s.Tellable) (m : ClientMessage) : (s.handle m).2.Tellable := by
  rw [Simulation.handle]
  split
  · exact hs
  · rename_i player hplayer
    cases m with
    | move target => exact hs.movePlayer player target
    | chat room text => exact hs
    | activate item active => exact hs.activateItem hplayer item active
    | changeChannel channel =>
        obtain ⟨other, o, hother, ho⟩ := hs.exists_player
        rw [hplayer, Option.some_inj] at hother
        subst hother
        exact tellable_repopulate (s := { s with channel }) hs.dims hplayer
          (hs.objects player o ho).unreserved

/-! ## Runs -/

theorem tellable_bootstrap (settings : SimulationSettings) (words : Words)
    (channel token : String) : ((new settings words).bootstrap channel token).2.Tellable :=
  tellable_repopulate rfl rfl (not_reserved_player token)

theorem tellable_run (settings : SimulationSettings) (words : Words) (channel token : String)
    (calls : List Call) :
    let s := ((new settings words).bootstrap channel token).2.run calls
    s.Routed ∧ s.Tellable :=
  run_induction (P := fun s => s.Routed ∧ s.Tellable)
    (fun _ now dt h => ⟨h.1.tick now dt, h.2.tick h.1 now dt⟩)
    (fun _ m h => ⟨h.1.handle m, h.2.handle m⟩)
    ⟨routed_bootstrap _ channel token, tellable_bootstrap settings words channel token⟩ calls

end Simulation

end TileWorld
