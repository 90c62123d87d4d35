import TileWorld.Simulation

/-! Runs of a simulation: after its bootstrap it is called in any order, by its clock and with
requests. -/

namespace TileWorld.Simulation

inductive Call where
  | tick (now : Float) (dt : Float32)
  | handle (m : ClientMessage)

/-- The messages that answer a call, and the simulation after it. -/
def perform (s : Simulation) : Call → List ServerMessage × Simulation
  | .tick now dt => s.tick now dt
  | .handle m => s.handle m

/-- The simulation after a list of calls. -/
def run (s : Simulation) (calls : List Call) : Simulation :=
  calls.foldl (fun s call => (s.perform call).2) s

/-- The messages that answer a list of calls, one answer after the other. -/
def transcript (s : Simulation) : List Call → List ServerMessage
  | [] => []
  | call :: calls => (s.perform call).1 ++ transcript (s.perform call).2 calls

theorem run_cons (s : Simulation) (call : Call) (calls : List Call) :
    s.run (call :: calls) = (s.perform call).2.run calls :=
  rfl

theorem run_append (s : Simulation) (calls further : List Call) :
    s.run (calls ++ further) = (s.run calls).run further :=
  List.foldl_append

theorem transcript_append (s : Simulation) (calls further : List Call) :
    s.transcript (calls ++ further) = s.transcript calls ++ (s.run calls).transcript further := by
  induction calls generalizing s with
  | nil => rfl
  | cons call calls ih =>
      rw [List.cons_append, transcript, transcript, ih, List.append_assoc]
      rfl

/-! ## What a call does -/

/-- An agent is sent on a path that was planned for it, or its rest begins anew. -/
theorem dispatch_cases (s : Simulation) (now : Float) (agent : Idle) :
    (∃ path words,
        (planWander s.world agent.position agent.wander s.settings.targetAttempts s.words).1 =
            some path ∧
          s.dispatch now agent = (some (.route agent.id path),
            { s with world := s.world.modify agent.id (fun o => o.setPath path) fun o => o.id_setPath path
                     words })) ∨
      ∃ words, s.dispatch now agent = (none, { s with
        world := s.world.modify agent.id
          (fun o => { o with wander := o.wander.map fun w => { w with lastPath := now } })
          fun _ => rfl
        words }) := by
  rw [dispatch]
  dsimp only
  split
  · rename_i path hpath
    exact .inl ⟨path, _, hpath, rfl⟩
  · exact .inr ⟨_, rfl⟩

/-- A request changes nothing, or the player alone, or it replaces the world. -/
theorem handle_cases (s : Simulation) (m : ClientMessage) :
    (s.handle m).2 = s ∨
      (∃ player change keepsId, s.player = some player ∧
        (∀ o : Object, (change o).position = o.position ∧ (change o).obstacle = o.obstacle ∧
          (change o).wander = o.wander) ∧
        (s.handle m).2 = { s with world := s.world.modify player change keepsId }) ∨
      ∃ player channel, m = .changeChannel channel ∧
        (s.handle m).2 = ({ s with channel } : Simulation).repopulate player := by
  rw [handle]
  split
  · exact .inl rfl
  · rename_i player hplayer
    cases m with
    | move target =>
        dsimp only
        rw [movePlayer]
        split
        · exact .inr (.inl ⟨player, fun o => o.setPath _, fun _ => rfl, hplayer,
            fun _ => ⟨rfl, rfl, rfl⟩, rfl⟩)
        · exact .inl rfl
    | chat room text => exact .inl rfl
    | activate item active =>
        dsimp only
        rw [activateItem]
        split
        · exact .inr (.inl ⟨player, fun o => { o with layers := toggle item active o.layers },
            fun _ => rfl, hplayer, fun _ => ⟨rfl, rfl, rfl⟩, rfl⟩)
        · exact .inl rfl
    | changeChannel channel => exact .inr (.inr ⟨player, channel, rfl, rfl⟩)

/-! ## Agents that are sent -/

/-- What sending one agent keeps, sending any number of them keeps. -/
theorem dispatchAll_induction {P : Simulation → Prop} {now : Float}
    (hdispatch : ∀ s agent, P s → P (s.dispatch now agent).2) {s : Simulation} (hs : P s)
    (agents : List Idle) : P (s.dispatchAll now agents).2 := by
  induction agents generalizing s with
  | nil => exact hs
  | cons agent agents ih => exact ih (hdispatch s agent hs)

theorem exists_dispatchAll (s : Simulation) (now : Float) (agents : List Idle) :
    ∃ world words, (s.dispatchAll now agents).2 = { s with world, words } := by
  refine dispatchAll_induction (P := fun t => ∃ world words, t = { s with world, words }) ?_
    ⟨s.world, s.words, rfl⟩ agents
  rintro _ agent ⟨world, words, rfl⟩
  rcases dispatch_cases { s with world, words } now agent with ⟨path, words', -, h⟩ | ⟨words', h⟩
  · rw [h]
    exact ⟨_, words', rfl⟩
  · rw [h]
    exact ⟨_, words', rfl⟩

theorem player_dispatchAll (s : Simulation) (now : Float) (agents : List Idle) :
    (s.dispatchAll now agents).2.player = s.player := by
  obtain ⟨world, words, h⟩ := s.exists_dispatchAll now agents
  rw [h]

theorem channel_dispatchAll (s : Simulation) (now : Float) (agents : List Idle) :
    (s.dispatchAll now agents).2.channel = s.channel := by
  obtain ⟨world, words, h⟩ := s.exists_dispatchAll now agents
  rw [h]

theorem dispatchAll_cons (s : Simulation) (now : Float) (agent : Idle) (agents : List Idle) :
    s.dispatchAll now (agent :: agents) =
      ((s.dispatch now agent).1.toList ++ ((s.dispatch now agent).2.dispatchAll now agents).1,
        ((s.dispatch now agent).2.dispatchAll now agents).2) :=
  rfl

/-- Routes are told in the order in which the agents are sent. -/
theorem exists_routes_dispatchAll (s : Simulation) (now : Float) (agents : List Idle) :
    ∃ routes : List (String × List Point),
      (s.dispatchAll now agents).1 = routes.map (fun r => .route r.1 r.2) ∧
        (routes.map (·.1)).Sublist (agents.map (·.id)) := by
  induction agents generalizing s with
  | nil => exact ⟨[], rfl, .slnil⟩
  | cons agent agents ih =>
      obtain ⟨routes, hroutes, hsublist⟩ := ih (s.dispatch now agent).2
      rw [dispatchAll_cons, hroutes]
      rcases s.dispatch_cases now agent with ⟨path, words, -, hsent⟩ | ⟨words, hfailed⟩
      · exact ⟨(agent.id, path) :: routes, by rw [hsent]; rfl, hsublist.cons_cons agent.id⟩
      · exact ⟨routes, by rw [hfailed]; rfl, hsublist.cons agent.id⟩

theorem exists_route_of_mem_dispatchAll {s : Simulation} {now : Float} {agents : List Idle}
    {m : ServerMessage} (h : m ∈ (s.dispatchAll now agents).1) :
    ∃ mover path, m = .route mover path := by
  obtain ⟨routes, hroutes, -⟩ := s.exists_routes_dispatchAll now agents
  rw [hroutes] at h
  obtain ⟨r, -, rfl⟩ := List.mem_map.mp h
  exact ⟨r.1, r.2, rfl⟩

/-! ## What all calls keep -/

theorem player_perform (s : Simulation) (call : Call) : (s.perform call).2.player = s.player := by
  cases call with
  | tick now dt => exact player_dispatchAll ..
  | handle m =>
      rw [perform]
      rcases s.handle_cases m with h | ⟨player, change, keepsId, -, -, h⟩ | ⟨player, channel, -, h⟩
      · rw [h]
      · rw [h]
      · rw [h]
        rfl

theorem run_induction {P : Simulation → Prop} (htick : ∀ s now dt, P s → P (s.tick now dt).2)
    (hhandle : ∀ s m, P s → P (s.handle m).2) {s : Simulation} (hs : P s) (calls : List Call) :
    P (s.run calls) := by
  refine List.foldlRecOn _ _ hs fun t ht call _ => ?_
  cases call with
  | tick now dt => exact htick t now dt ht
  | handle m => exact hhandle t m ht

end TileWorld.Simulation
