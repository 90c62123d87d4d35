import TileWorld.Proofs.Simulation.Intact
import TileWorld.Proofs.World.Made

/-! A replica that follows every message of a simulation holds the same persistent objects and the
same maze. -/

namespace TileWorld

namespace Replica

variable {r : Replica} {s : Simulation}

/-- The replica after messages that are followed one after the other, each at its time. -/
def followAll (r : Replica) (messages : List (ServerMessage × Float)) : Replica :=
  messages.foldl (fun r m => (r.apply m.1 m.2).2) r

/-- No obstacle of the replica decays. -/
structure Sound (r : Replica) : Prop where
  dims : r.world.dims = .standard
  obstacle : ∀ id o, r.world.find? id = some o → o.obstacle = true → o.persistent = true

/-- The persistent objects of the replica are those of the simulation, all but their wandering, and
so is all that is known of the player, the channel and the maze. -/
structure Mirrors (r : Replica) (s : Simulation) : Prop where
  objects : ∀ id, (r.world.find? id).filter (·.persistent) =
    (s.world.find? id).map fun o => { o with wander := none }
  player : r.player = s.player
  channel : r.channel = some s.channel
  maze : r.world.maze = s.world.maze

/-! ## Soundness -/

theorem Sound.holds (hr : r.Sound) :
    r.world.Holds fun o => o.obstacle = true → o.persistent = true :=
  hr.obstacle

theorem sound_empty : empty.Sound :=
  ⟨rfl, nofun⟩

theorem Sound.insert (hr : r.Sound) {o : Object} (ho : o.obstacle = true → o.persistent = true) :
    Sound { r with world := r.world.insert o } :=
  ⟨(World.dims_insert ..).trans hr.dims, hr.holds.insert ho⟩

theorem Sound.addMarker (hr : r.Sound) (kind : Kind) (word : String) (p : Point) (decay : Float) :
    (r.addMarker kind word p decay).Sound := by
  rw [Replica.addMarker]
  split
  · rename_i marker hmarker
    have hobstacle : marker.obstacle = false := by
      obtain ⟨hobstacle, rfl⟩ := Object.ephemeral_eq_ok_iff.mp hmarker
      exact hobstacle
    have h := hr.insert (o := marker) (by simp [hobstacle])
    exact ⟨h.dims, h.obstacle⟩
  · exact ⟨hr.dims, hr.obstacle⟩

theorem Sound.addPathMarkers (hr : r.Sound) (path : List Point) (now : Float) :
    (r.addPathMarkers path now).Sound :=
  List.foldlRecOn _ _ hr fun _ h p _ => h.addMarker .pathPoint "path" p (now + pathDecay)

theorem Sound.apply (hr : r.Sound) (m : ServerMessage) (now : Float) : (r.apply m now).2.Sound := by
  cases m with
  | state objects channel =>
      exact ⟨(World.dims_rebuildGrid _).trans hr.dims,
        hr.holds.reconcile objects fun _ _ _ => Object.persistent_of_ofEntry?⟩
  | route mover path =>
      have hfollowed : Sound { r with
          world := r.world.modify mover (fun o => o.setPath path) fun o => o.id_setPath path } :=
        ⟨(World.dims_modify r.world mover fun o => o.id_setPath path).trans hr.dims,
          hr.holds.modify mover (fun o => o.id_setPath path) fun _ ho => ho⟩
      rw [Replica.apply]
      split
      · dsimp only
        split
        · exact hfollowed.addPathMarkers path now
        · exact hfollowed
      · exact hr
  | assigned player => exact ⟨hr.dims, hr.obstacle⟩
  | message body => exact hr
  | chat body => exact hr
  | removed id layer => exact hr

theorem Sound.followAll (hr : r.Sound) (messages : List (ServerMessage × Float)) :
    (r.followAll messages).Sound :=
  List.foldlRecOn _ _ hr fun _ h m _ => h.apply m.1 m.2

/-! ## Routes -/

/-- Markers do not touch what is mirrored: their ids are not those of objects. -/
theorem Mirrors.addMarker (h : r.Mirrors s) (hs : s.Tellable) (kind : Kind) (word : String)
    (p : Point) (decay : Float) : (r.addMarker kind word p decay).Mirrors s := by
  rw [Replica.addMarker]
  split
  · rename_i marker hmarker
    obtain ⟨-, rfl⟩ := Object.ephemeral_eq_ok_iff.mp hmarker
    refine ⟨?_, h.player, h.channel, (World.maze_insert ..).trans h.maze⟩
    intro id
    rw [World.find?_insert]
    split
    · rename_i heq
      have hnone : s.world.find? id = none := by
        cases ho : s.world.find? id with
        | none => rfl
        | some o =>
            refine absurd ?_ (hs.objects id o ho).unreserved
            rw [heq]
            exact reserved_markerId word _
      rw [hnone]
      simp [Option.filter]
    · exact h.objects id
  · exact ⟨h.objects, h.player, h.channel, h.maze⟩

theorem Mirrors.addPathMarkers (h : r.Mirrors s) (hs : s.Tellable) (path : List Point)
    (now : Float) : (r.addPathMarkers path now).Mirrors s :=
  List.foldlRecOn (motive := fun r : Replica => r.Mirrors s) _ _ h
    fun _ h p _ => h.addMarker hs .pathPoint "path" p (now + pathDecay)

/-- A route changes both sides alike. -/
theorem Mirrors.route {t : Simulation} {mover : String} {path : List Point} (h : r.Mirrors s)
    (ht : t.Tellable) (hmover : s.world.contains mover = true) (hplayer : t.player = s.player)
    (hchannel : t.channel = s.channel)
    (hworld : t.world = s.world.modify mover (fun o => o.setPath path) fun o => o.id_setPath path)
    (now : Float) :
    (r.apply (.route mover path) now).2.Mirrors t := by
  have hcontains : r.world.contains mover = true := by
    obtain ⟨o, ho⟩ := Option.isSome_iff_exists.mp hmover
    have hfind : s.world.find? mover = some o := ho
    have hobject := h.objects mover
    rw [hfind, Option.map_some] at hobject
    exact Option.isSome_iff_exists.mpr ⟨_, (Option.filter_eq_some_iff.mp hobject).1⟩
  have hfollowed :
      Mirrors { r with
        world := r.world.modify mover (fun o => o.setPath path) fun o => o.id_setPath path } t := by
    refine ⟨?_, h.player.trans hplayer.symm, h.channel.trans (congrArg some hchannel.symm), ?_⟩
    · intro id
      have hobject := h.objects id
      rw [hworld, World.find?_modify, World.find?_modify]
      split
      · have hpath : ((r.world.find? id).map fun o => o.setPath path).filter (·.persistent) =
            ((r.world.find? id).filter (·.persistent)).map fun o => o.setPath path :=
          Option.filter_map ..
        rw [hpath, hobject, Option.map_map, Option.map_map]
        rfl
      · exact hobject
    · rw [hworld, World.maze_modify, World.maze_modify]
      exact h.maze
  rw [Replica.apply, if_pos hcontains]
  dsimp only
  split
  · exact hfollowed.addPathMarkers ht path now
  · exact hfollowed

/-! ## Snapshots -/

theorem find?_apply_stateMessage (r : Replica) {s : Simulation} (hrouted : s.Routed)
    (hs : s.Tellable) {id : String} {o : Object} (ho : s.world.find? id = some o) (now : Float) :
    (r.apply s.stateMessage now).2.world.find? id =
      if o.position.isFinite then some (o.retold id) else r.world.find? id := by
  have hentry : s.world.snapshot.find? id = some o.toJson := by
    rw [World.find?_snapshot, ho]
    simp [Option.filter, hrouted.world.persistent id o ho]
  have hfind : (r.apply s.stateMessage now).2.world.find? id =
      (Object.ofEntry? id o.toJson).or (r.world.find? id) := by
    refine (World.find?_reconcile ..).trans ?_
    rw [World.find?_merged, hentry]
  rw [hfind, (hs.objects id o ho).tellable.ofEntry?_toJson]
  split <;> rfl

/-- Obstacles are mirrored too, if they persist and do not wander. -/
theorem filter_obstacle_of_filter_persistent {x y : Option Object}
    (h : x.filter (·.persistent) = y.map fun o => { o with wander := none })
    (hx : ∀ o, x = some o → o.obstacle = true → o.persistent = true)
    (hy : ∀ o, y = some o → o.obstacle = true → o.wander = none) :
    x.filter (·.obstacle) = y.filter (·.obstacle) := by
  rw [World.filter_obstacle hx, h]
  cases y with
  | none => rfl
  | some o =>
      have ho := hy o rfl
      obtain ⟨_, _, _, _, _, _, _, wander, _, _, obstacle, _⟩ := o
      cases obstacle with
      | false => rfl
      | true =>
          obtain rfl : wander = none := ho rfl
          rfl

/-- A snapshot brings the replica in step, whatever objects it had before. -/
theorem Sound.mirrors_of_state {s : Simulation} (hr : r.Sound) (hrouted : s.Routed)
    (hs : s.Tellable) (hintact : s.Intact) (hplayer : r.player = s.player) (now : Float) :
    (r.apply s.stateMessage now).2.Mirrors s := by
  have hsound : (r.apply s.stateMessage now).2.Sound := hr.apply s.stateMessage now
  have hobjects : ∀ id, ((r.apply s.stateMessage now).2.world.find? id).filter (·.persistent) =
      (s.world.find? id).map fun o => { o with wander := none } := by
    intro id
    cases ho : s.world.find? id with
    | none =>
        have hentry : s.world.snapshot.find? id = none := by
          rw [World.find?_snapshot, ho]
          rfl
        have hfind : (r.apply s.stateMessage now).2.world.find? id =
            (r.world.find? id).filter (!·.persistent) := by
          refine (World.find?_reconcile ..).trans ?_
          rw [World.find?_merged, hentry]
        rw [hfind, Option.filter_filter]
        simp
    | some o =>
        have hpresents := hs.objects id o ho
        have hlayers : o.layers ≠ [] := by
          by_cases hid : s.player = some id
          · exact hintact.layers id o hid ho
          · exact hpresents.layers hid
        have hretold : o.retold id = { o with wander := none } := by
          rw [Object.retold, if_neg (by simpa using hlayers), ← hpresents.named]
        rw [find?_apply_stateMessage r hrouted hs ho, if_pos (hintact.position id o ho), hretold]
        exact Option.filter_eq_some_iff.mpr ⟨rfl, hrouted.world.persistent id o ho⟩
  refine ⟨hobjects, hplayer, rfl, ?_⟩
  -- an obstacle of the replica persists, so it is mirrored, and it never wanders
  refine World.maze_eq_of_obstacles (hsound.dims.trans hs.dims.symm) rfl hrouted.world.maze ?_
  intro id
  exact filter_obstacle_of_filter_persistent (hobjects id) (hsound.obstacle id)
    fun o ho hobstacle => (hrouted.world.still id o ho hobstacle).2

theorem player_apply_route (r : Replica) (mover : String) (path : List Point) (now : Float) :
    (r.apply (.route mover path) now).2.player = r.player := by
  have hmarkers : ∀ r : Replica, (r.addPathMarkers path now).player = r.player := fun r =>
    List.foldlRecOn (motive := fun q : Replica => q.player = r.player) _ _ rfl fun q hq p _ => by
      rw [addMarker]
      split <;> exact hq
  rw [Replica.apply]
  split
  · dsimp only
    split
    · exact hmarkers _
    · rfl
  · rfl

/-- A snapshot at the end makes up for whatever routes came before it. -/
theorem Sound.mirrors_of_routes {s : Simulation} (hr : r.Sound) (hrouted : s.Routed)
    (hs : s.Tellable) (hintact : s.Intact) (hplayer : r.player = s.player)
    {routes : List ServerMessage} (hroutes : ∀ m ∈ routes, ∃ mover path, m = .route mover path)
    {messages : List (ServerMessage × Float)}
    (hmessages : messages.map (·.1) = routes ++ [s.stateMessage]) :
    (r.followAll messages).Mirrors s := by
  induction routes generalizing r messages with
  | nil =>
      obtain ⟨⟨m, now⟩, rest, rfl, rfl, hrest⟩ := List.map_eq_cons_iff.mp hmessages
      obtain rfl := List.map_eq_nil_iff.mp hrest
      exact hr.mirrors_of_state hrouted hs hintact hplayer now
  | cons route routes ih =>
      obtain ⟨⟨m, now⟩, rest, rfl, rfl, hrest⟩ := List.map_eq_cons_iff.mp hmessages
      obtain ⟨mover, path, hm⟩ := hroutes m List.mem_cons_self
      refine ih (hr.apply m now) ?_ (fun other h => hroutes other (List.mem_cons_of_mem m h)) hrest
      rw [hm, player_apply_route, hplayer]

theorem Sound.mirrors_of_snapshot {s : Simulation} (hr : r.Sound) (hrouted : s.Routed)
    (hs : s.Tellable) (hintact : s.Intact) (hplayer : r.player = s.player)
    {messages : List (ServerMessage × Float)} (hmessages : messages.map (·.1) = [s.stateMessage]) :
    (r.followAll messages).Mirrors s :=
  have hroutes : ∀ m ∈ [], ∃ mover path, m = ServerMessage.route mover path := nofun
  hr.mirrors_of_routes hrouted hs hintact hplayer hroutes hmessages

/-! ## Calls -/

/-- A request for a route changes both sides alike, or neither. -/
theorem Mirrors.movePlayer {s : Simulation} (h : r.Mirrors s) (hs : s.Tellable) {player : String}
    (hplayer : s.world.contains player = true) (target : Point)
    {messages : List (ServerMessage × Float)}
    (hmessages : messages.map (·.1) = (s.movePlayer player target).1) :
    (r.followAll messages).Mirrors (s.movePlayer player target).2 := by
  have htold := hs.movePlayer player target
  cases hroute : (s.world.find? player).bind
      fun o => Simulation.routeTo? s.world o.position target with
  | none =>
      have hanswer : s.movePlayer player target = ([], s) := by rw [Simulation.movePlayer, hroute]
      rw [hanswer] at hmessages ⊢
      obtain rfl := List.map_eq_nil_iff.mp hmessages
      exact h
  | some path =>
      have hanswer : s.movePlayer player target = ([.route player path],
          { s with
            world := s.world.modify player (fun o => o.setPath path) fun o => o.id_setPath path }) := by
        rw [Simulation.movePlayer, hroute]
      rw [hanswer] at hmessages htold ⊢
      obtain ⟨⟨m, now⟩, rest, rfl, rfl, hrest⟩ := List.map_eq_cons_iff.mp hmessages
      obtain rfl := List.map_eq_nil_iff.mp hrest
      exact h.route htold hplayer rfl rfl rfl now

/-- One call: its messages bring the replica in step with what the call leaves. -/
theorem Mirrors.perform {s : Simulation} (h : r.Mirrors s) (hr : r.Sound) (hrouted : s.Routed)
    (hs : s.Tellable) (call : Simulation.Call) (hintact : (s.perform call).2.Intact)
    {messages : List (ServerMessage × Float)}
    (hmessages : messages.map (·.1) = (s.perform call).1) :
    (r.followAll messages).Mirrors (s.perform call).2 := by
  cases call with
  | tick now dt =>
      have hticked := hrouted.tick now dt
      have htold := hs.tick hrouted now dt
      rw [Simulation.perform] at hmessages hintact ⊢
      rw [hrouted.tick_eq] at hmessages hintact hticked htold ⊢
      refine hr.mirrors_of_routes hticked htold hintact ?_
        (fun m hm => Simulation.exists_route_of_mem_dispatchAll hm) hmessages
      rw [Simulation.player_dispatchAll]
      exact h.player
  | handle m =>
      have hhandled := hrouted.handle m
      have htold := hs.handle m
      obtain ⟨player, o, hplayer, ho⟩ := hs.exists_player
      have hcontains : s.world.contains player = true := Option.isSome_iff_exists.mpr ⟨o, ho⟩
      rw [Simulation.perform] at hmessages hintact ⊢
      cases m with
      | move target =>
          have hanswer : s.handle (.move target) = s.movePlayer player target := by
            rw [Simulation.handle, hplayer]
          rw [hanswer] at hmessages ⊢
          exact h.movePlayer hs hcontains target hmessages
      | chat room text =>
          have hanswer : s.handle (.chat room text) = ([Simulation.echo player room text], s) := by
            rw [Simulation.handle, hplayer]
          rw [hanswer] at hmessages ⊢
          obtain ⟨⟨m, now⟩, rest, rfl, rfl, hrest⟩ := List.map_eq_cons_iff.mp hmessages
          obtain rfl := List.map_eq_nil_iff.mp hrest
          exact h
      | activate item active =>
          rw [Simulation.handle_activate hplayer hcontains] at hmessages hintact hhandled htold ⊢
          exact hr.mirrors_of_snapshot hhandled htold hintact h.player hmessages
      | changeChannel channel =>
          rw [Simulation.handle_changeChannel hplayer] at hmessages hintact hhandled htold ⊢
          exact hr.mirrors_of_snapshot hhandled htold hintact h.player hmessages

/-! ## Runs -/

/-- What a simulation says when it is bootstrapped brings a fresh replica in step with it. -/
theorem mirrors_bootstrap (settings : SimulationSettings) (words : Words) (channel token : String)
    (hintact : ((Simulation.new settings words).bootstrap channel token).2.Intact)
    {messages : List (ServerMessage × Float)}
    (hmessages : messages.map (·.1) =
      ((Simulation.new settings words).bootstrap channel token).1) :
    (empty.followAll messages).Mirrors
      ((Simulation.new settings words).bootstrap channel token).2 := by
  obtain ⟨⟨m, now⟩, rest, rfl, rfl, hrest⟩ := List.map_eq_cons_iff.mp hmessages
  exact (sound_empty.apply _ now).mirrors_of_snapshot (Simulation.routed_bootstrap _ channel token)
    (Simulation.tellable_bootstrap settings words channel token) hintact rfl hrest

/-- A fresh replica that follows a whole run, message by message and at whatever times, ends in step
with the simulation, as long as the simulation stays intact. -/
theorem mirrors_run (settings : SimulationSettings) (words : Words) (channel token : String)
    (calls : List Simulation.Call) (messages : List (ServerMessage × Float)) :
    let first := (Simulation.new settings words).bootstrap channel token
    messages.map (·.1) = first.1 ++ first.2.transcript calls →
    (∀ before, before <+: calls → (first.2.run before).Intact) →
    (empty.followAll messages).Mirrors (first.2.run calls) := by
  intro first hmessages hintact
  induction calls using List.reverseRecOn generalizing messages with
  | nil =>
      rw [Simulation.transcript, List.append_nil] at hmessages
      have hfirst : first.2.Intact := hintact [] (List.prefix_refl _)
      exact mirrors_bootstrap settings words channel token hfirst hmessages
  | append_singleton calls call ih =>
      rw [Simulation.transcript_append, ← List.append_assoc] at hmessages
      obtain ⟨earlier, answer, rfl, hearlier, hanswer⟩ := List.map_eq_append_iff.mp hmessages
      have hlast : first.2.run (calls ++ [call]) = ((first.2.run calls).perform call).2 :=
        Simulation.run_append ..
      have hin : ((first.2.run calls).perform call).2.Intact :=
        hlast ▸ hintact _ (List.prefix_refl _)
      have hmirrors := ih earlier hearlier fun before h =>
        hintact before (h.trans (List.prefix_append _ _))
      have hsound := sound_empty.followAll earlier
      obtain ⟨hrouted, htold⟩ := Simulation.tellable_run settings words channel token calls
      rw [Simulation.transcript, Simulation.transcript, List.append_nil] at hanswer
      have hstep := hmirrors.perform hsound hrouted htold call hin hanswer
      rw [hlast, followAll, List.foldl_append]
      exact hstep

def firstVisit : List ClientMessage :=
  [.chat "lobby" "hello", .activate "lantern" true, .move ⟨64, 64⟩, .changeChannel "channel-beta",
    .activate "lantern" true]

theorem mirrors_run_firstVisit :
    let first := (Simulation.new .standard ⟨fun _ => 0, 0⟩).bootstrap "channel-alpha" "one"
    let calls := .tick 5 0.05 :: firstVisit.map .handle
    let messages := (first.1 ++ first.2.transcript calls).map fun m => (m, 0)
    (∀ before, before <+: calls → (first.2.run before).Intact) ∧
      (empty.followAll messages).Mirrors (first.2.run calls) := by
  intro first calls messages
  have hmessages : messages.map (·.1) = first.1 ++ first.2.transcript calls := by
    rw [List.map_map]
    exact List.map_id _
  have hrequests : ∀ m ∈ firstVisit, ∀ item, m ≠ .activate item false := by
    simp [firstVisit]
  have hintact : ∀ before, before <+: calls → (first.2.run before).Intact := fun _ h =>
    Simulation.intact_run_of_prefix _ _ _ _ _ _ hrequests h
  exact ⟨hintact, mirrors_run _ _ _ _ calls messages hmessages hintact⟩

end Replica

end TileWorld
