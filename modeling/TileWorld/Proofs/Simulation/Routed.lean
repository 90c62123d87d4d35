import TileWorld.Proofs.Channel.Population
import TileWorld.Proofs.Simulation.Run
import TileWorld.Proofs.World.Routed

/-! From the bootstrap on the maze is that of the obstacles, and every path leads along a walk in
it. -/

namespace TileWorld.Simulation

variable {s t : Simulation}

/-- The world is routed, and the player is no obstacle. -/
structure Routed (s : Simulation) : Prop where
  world : s.world.Routed
  player : ∀ player, s.player = some player → s.world.Mobile player

theorem Routed.reroute (hs : s.Routed) {f : String → Object → Object}
    (h : World.Rerouted s.world t.world f) (hplayer : t.player = s.player) : t.Routed := by
  refine ⟨h.routed hs.world, ?_⟩
  intro player hp
  exact h.mobile (hs.player player (hplayer ▸ hp))

/-! ## Paths that are issued -/

theorem onWalk_of_findPath {w : World} {start goal : Cell} {path : List Point}
    (h : (w.maze.findPath start goal).map w.dims.waypoints = some path) : w.OnWalk path := by
  obtain ⟨cells, hcells, rfl⟩ := Option.map_eq_some_iff.mp h
  exact .inr ⟨cells, Maze.isWalk_of_findPath hcells, rfl⟩

theorem onWalk_of_routeTo? {w : World} {position target : Point} {path : List Point}
    (h : routeTo? w position target = some path) : w.OnWalk path := by
  simp only [routeTo?, Option.bind_eq_bind, Option.bind_eq_some_iff] at h
  obtain ⟨start, -, goal, -, hpath⟩ := h
  exact onWalk_of_findPath hpath

theorem onWalk_of_routeToTarget {w : World} {start : Cell} {wander : Wander} {attempts : Nat}
    {words : Words} {path : List Point}
    (h : (routeToTarget w start wander attempts words).1 = some path) : w.OnWalk path := by
  induction attempts generalizing words with
  | zero => cases h
  | succ attempts ih =>
      rw [routeToTarget] at h
      dsimp only at h
      split at h
      · exact onWalk_of_findPath h
      · exact ih h

theorem onWalk_of_planWander {w : World} {position : Point} {wander : Wander} {attempts : Nat}
    {words : Words} {path : List Point}
    (h : (planWander w position wander attempts words).1 = some path) : w.OnWalk path := by
  rw [planWander] at h
  split at h
  · cases h
  · exact onWalk_of_routeToTarget h

/-! ## Ticks -/

theorem Routed.dispatch (hs : s.Routed) (now : Float) {agent : Idle}
    (hagent : s.world.Mobile agent.id) :
    (s.dispatch now agent).2.Routed ∧
      ∀ id, s.world.Mobile id → (s.dispatch now agent).2.world.Mobile id := by
  rcases s.dispatch_cases now agent with ⟨path, words, hpath, hsent⟩ | ⟨words, hfailed⟩
  · have hwalk : s.world.OnWalk path := onWalk_of_planWander hpath
    have h := hs.world.modify hagent (fun o => o.id_setPath path) (fun _ => rfl) (fun _ => rfl)
      fun _ _ => hwalk
    rw [hsent]
    exact ⟨hs.reroute h rfl, fun _ hid => h.mobile hid⟩
  · have hkeeps : ∀ o : Object, ({ o with
        wander := o.wander.map fun w => { w with lastPath := now } } : Object).id = o.id :=
      fun _ => rfl
    have h := hs.world.modify hagent hkeeps (fun _ => rfl) (fun _ => rfl) fun _ ho => ho
    rw [hfailed]
    exact ⟨hs.reroute h rfl, fun _ hid => h.mobile hid⟩

theorem Routed.dispatchAll (hs : s.Routed) (now : Float) (agents : List Idle)
    (hagents : ∀ agent ∈ agents, s.world.Mobile agent.id) :
    (s.dispatchAll now agents).2.Routed := by
  induction agents generalizing s with
  | nil => exact hs
  | cons agent agents ih =>
      obtain ⟨hrouted, hmobile⟩ := hs.dispatch now (hagents agent List.mem_cons_self)
      refine ih hrouted fun other hother => ?_
      exact hmobile other.id (hagents other (List.mem_cons_of_mem agent hother))

theorem mobile_of_mem_idleAgents {w : World} (hw : w.Routed) {now : Float} {agent : Idle}
    (h : agent ∈ idleAgents w now) : w.Mobile agent.id := by
  obtain ⟨o, ho, hidle⟩ := List.mem_filterMap.mp h
  simp only [idle?, Option.bind_eq_bind, Option.bind_eq_some_iff] at hidle
  obtain ⟨wander, hwander, hagent⟩ := hidle
  have hfind : w.find? o.id = some o := World.mem_values_iff.mp ho
  split at hagent
  · cases hagent
    intro x hx
    obtain rfl := Option.some_inj.mp (hfind.symm.trans hx)
    cases hobstacle : o.obstacle with
    | false => rfl
    | true => simp [(hw.still o.id o hfind hobstacle).2] at hwander
  · cases hagent

theorem Routed.tick (hs : s.Routed) (now : Float) (dt : Float32) : (s.tick now dt).2.Routed := by
  have hmoved : Routed { s with world := (s.world.integrate dt now).2 } :=
    hs.reroute (hs.world.integrate dt now) rfl
  have hsent := hmoved.dispatchAll now (idleAgents (s.world.integrate dt now).2 now)
    fun _ h => mobile_of_mem_idleAgents hmoved.world h
  rw [Simulation.tick]
  dsimp only
  rw [hsent.world.sweep]
  exact hsent

/-! ## Requests -/

theorem Routed.movePlayer (hs : s.Routed) {player : String} (hplayer : s.player = some player)
    (target : Point) : (s.movePlayer player target).2.Routed := by
  rw [Simulation.movePlayer]
  split
  · rename_i path hpath
    obtain ⟨o, -, hroute⟩ := Option.bind_eq_some_iff.mp hpath
    have hwalk : s.world.OnWalk path := onWalk_of_routeTo? hroute
    exact hs.reroute (hs.world.modify (hs.player player hplayer) (fun o => o.id_setPath path)
      (fun _ => rfl) (fun _ => rfl) fun _ _ => hwalk) rfl
  · exact hs

theorem Routed.activateItem (hs : s.Routed) {player : String} (hplayer : s.player = some player)
    (item : String) (active : Bool) : (s.activateItem player item active).2.Routed := by
  rw [Simulation.activateItem]
  split
  · exact hs.reroute (hs.world.modify (hs.player player hplayer) (fun _ => by rfl)
      (fun _ => by rfl) (fun _ => by rfl) fun _ ho => ho) rfl
  · exact hs

/-! ## Populating a channel -/

theorem player_bootstrap (s : Simulation) (channel token : String) :
    (s.bootstrap channel token).2.player = some ("player-" ++ token) :=
  rfl

/-- The objects of a channel that has just been entered. -/
def entered (s : Simulation) (player : String) : Population :=
  (Channel.populate s.world.dims s.settings.spawn s.channel player s.words).1

theorem find?_repopulate (s : Simulation) (player id : String) :
    (s.repopulate player).world.find? id =
      (s.entered player).objects.reverse.find? (·.id = id) := by
  have hinserted := World.find?_foldl_insert (s.world.retain fun _ => false).2
    (s.entered player).objects id
  have hcleared : (s.world.retain fun _ => false).2.find? id = none := by
    rw [World.find?_retain]
    cases s.world.find? id <;> rfl
  rw [hcleared, Option.or_none] at hinserted
  exact hinserted

theorem fresh_of_find?_repopulate {player id : String} {o : Object}
    (h : (s.repopulate player).world.find? id = some o) : o.Fresh := by
  rw [find?_repopulate] at h
  exact Channel.fresh_of_mem_populate (List.mem_reverse.mp (List.mem_of_find?_eq_some h))

theorem mem_of_find?_repopulate {player id : String} {o : Object}
    (h : (s.repopulate player).world.find? id = some o) :
    o ∈ (s.entered player).objects ∧ o.id = id := by
  rw [find?_repopulate] at h
  exact ⟨List.mem_reverse.mp (List.mem_of_find?_eq_some h), by simpa using List.find?_some h⟩

theorem exists_find?_player_repopulate (s : Simulation) (player : String) :
    ∃ o, (s.repopulate player).world.find? player = some o := by
  have hmem : (s.entered player).player ∈ (s.entered player).objects.reverse := by
    simp [Population.objects]
  have hid : (s.entered player).player.id = player := Channel.id_player_populate
  rw [find?_repopulate, ← Option.isSome_iff_exists, List.find?_isSome]
  exact ⟨_, hmem, by simp [hid]⟩

theorem mobile_repopulate (s : Simulation) (player : String) :
    (s.repopulate player).world.Mobile player := by
  intro o ho
  have hid : (s.entered player).player.id = player := Channel.id_player_populate
  rw [find?_repopulate, Population.objects, List.reverse_append, List.reverse_cons,
    List.append_assoc, List.find?_append] at ho
  cases hagent : (s.entered player).agents.reverse.find? (·.id = player) with
  | some agent =>
      rw [hagent, Option.some_or, Option.some_inj] at ho
      subst ho
      have hmem := List.mem_reverse.mp (List.mem_of_find?_eq_some hagent)
      obtain ⟨k, home, rfl⟩ := Channel.exists_agent_of_mem_agents hmem
      rfl
  | none =>
      rw [hagent, Option.none_or, List.singleton_append, List.find?_cons_of_pos (by simp [hid]),
        Option.some_inj] at ho
      rw [← ho]
      exact Channel.obstacle_player_populate

theorem routed_repopulate (s : Simulation) {player : String} (hplayer : s.player = some player) :
    (s.repopulate player).Routed := by
  refine ⟨⟨rfl, ?_, ?_, ?_⟩, ?_⟩
  · intro id o ho
    exact .inl (fresh_of_find?_repopulate ho).path
  · intro id o ho
    exact (fresh_of_find?_repopulate ho).persistent
  · intro id o ho hobstacle
    have hfresh := fresh_of_find?_repopulate ho
    exact ⟨hfresh.path, hfresh.still hobstacle⟩
  · intro other hother
    have hother : s.player = some other := hother
    rw [hplayer, Option.some_inj] at hother
    subst hother
    exact mobile_repopulate s player

theorem Routed.handle (hs : s.Routed) (m : ClientMessage) : (s.handle m).2.Routed := by
  rw [Simulation.handle]
  split
  · exact hs
  · rename_i player hplayer
    cases m with
    | move target => exact hs.movePlayer hplayer target
    | chat room text => exact hs
    | activate item active => exact hs.activateItem hplayer item active
    | changeChannel channel => exact routed_repopulate { s with channel } hplayer

/-! ## Runs -/

theorem routed_bootstrap (s : Simulation) (channel token : String) :
    (s.bootstrap channel token).2.Routed :=
  routed_repopulate _ rfl

theorem Routed.run (hs : s.Routed) (calls : List Call) : (s.run calls).Routed :=
  run_induction (fun _ now dt ht => ht.tick now dt) (fun _ m ht => ht.handle m) hs calls

/-- Whatever calls follow the bootstrap, the maze is that of the obstacles at hand, and every path
is empty or the image of a walk in it. -/
theorem path_isWalk_run (settings : SimulationSettings) (words : Words) (channel token : String)
    (calls : List Call) :
    let s := ((new settings words).bootstrap channel token).2.run calls
    s.world.maze = .ofObstacles s.world.dims s.world.obstaclePositions ∧
      ∀ id o, s.world.find? id = some o →
        o.path = [] ∨
          ∃ cells, s.world.maze.IsWalk cells ∧ o.path = s.world.dims.waypoints cells := by
  intro s
  have hs : s.Routed := (routed_bootstrap _ channel token).run calls
  exact ⟨hs.world.maze, hs.world.onWalk⟩

end TileWorld.Simulation
