import TileWorld.Proofs.Simulation.Wandering
import TileWorld.Proofs.World.Departure

/-! The messages of a tick agree with the world that the tick leaves, in any state whatsoever. -/

namespace TileWorld

/-! ## What decays -/

/-- The objects of `w` have been changed where they are, but not in what a sweep looks at. -/
def World.DecaysLike (v w : World) : Prop :=
  ∃ f : String → Object → Object, v.objects = w.objects.mapValues f ∧
    ∀ id o, (f id o).notices = o.notices ∧ (f id o).persistent = o.persistent ∧
      (f id o).decay = o.decay

namespace World

variable {u v w : World}

theorem DecaysLike.trans (h : u.DecaysLike v) (h' : v.DecaysLike w) : u.DecaysLike w := by
  obtain ⟨f, hobjects, hf⟩ := h
  obtain ⟨g, hobjects', hg⟩ := h'
  refine ⟨fun id o => f id (g id o), Table.ext_find? fun id => ?_, fun id o => ?_⟩
  · rw [hobjects, hobjects', Table.find?_mapValues, Table.find?_mapValues, Table.find?_mapValues,
      Option.map_map]
    rfl
  · obtain ⟨hnotices, hpersistent, hdecay⟩ := hf id (g id o)
    obtain ⟨hnotices', hpersistent', hdecay'⟩ := hg id o
    exact ⟨hnotices.trans hnotices', hpersistent.trans hpersistent', hdecay.trans hdecay'⟩

theorem decaysLike_integrate (w : World) (dt : Float32) (now : Float) :
    (w.integrate dt now).2.DecaysLike w := by
  refine ⟨_, objects_integrate w dt now, fun _ o => ?_⟩
  obtain ⟨_, _, _, _, hstep, -⟩ := o.exists_step dt now
  rw [hstep]
  exact ⟨rfl, rfl, rfl⟩

theorem decaysLike_modify (w : World) (id : String) {change : Object → Object}
    (keepsId : ∀ o, (change o).id = o.id)
    (h : ∀ o, (change o).notices = o.notices ∧ (change o).persistent = o.persistent ∧
      (change o).decay = o.decay) : (w.modify id change keepsId).DecaysLike w := by
  refine ⟨_, objects_modify w id keepsId, fun key o => ?_⟩
  split
  · exact h o
  · exact ⟨rfl, rfl, rfl⟩

theorem DecaysLike.notices_sweep (h : v.DecaysLike w) (now : Float) :
    (v.sweep now).1 = (w.objects.filter fun _ o => o.isExpired now).values.flatMap
      Object.notices := by
  obtain ⟨f, hobjects, hf⟩ := h
  have hexpired : ∀ id o, (f id o).isExpired now = o.isExpired now := fun id o => by
    rw [Object.isExpired, Object.isExpired, (hf id o).2.1, (hf id o).2.2]
  simp only [World.notices_sweep, hobjects, Table.values, Table.filter, Table.mapValues,
    Entries.mapValues, List.filter_map, List.map_map, List.flatMap_map, Function.comp_def,
    hexpired, (hf _ _).1]

theorem DecaysLike.find?_sweep_eq_none_iff (h : v.DecaysLike w) {now : Float} {id : String} :
    (v.sweep now).2.find? id = none ↔
      ∀ o, w.find? id = some o → o.isExpired now = true := by
  obtain ⟨f, hobjects, hf⟩ := h
  rw [find?_sweep, find?, hobjects, Table.find?_mapValues]
  change ((w.find? id).map (f id)).filter _ = none ↔ _
  cases w.find? id with
  | none => simp
  | some o => simp [Option.filter, Object.isExpired, (hf id o).2.1, (hf id o).2.2]

end World

namespace Simulation

variable {s : Simulation} {now : Float} {dt : Float32} {id : String} {path : List Point}

/-! ## What is told of agents -/

theorem pairwise_ids_idleAgents (w : World) (now : Float) :
    ((idleAgents w now).map (·.id)).Pairwise (· < ·) :=
  (List.pairwise_map.mpr w.objects.ascending).sublist (sublist_ids_idleAgents w now)

/-- What a tick has told and done before anything decays. -/
def sent (s : Simulation) (now : Float) (dt : Float32) : List ServerMessage × Simulation :=
  dispatchAll now { s with world := s.moved now dt } (idleAgents (s.moved now dt) now)

theorem tick_eq_sent (s : Simulation) (now : Float) (dt : Float32) :
    let swept := (s.sent now dt).2.world.sweep now
    let after : Simulation := { (s.sent now dt).2 with world := swept.2 }
    s.tick now dt = ((s.sent now dt).1 ++ swept.1.map (fun n => .removed n.id n.layer) ++
      [after.stateMessage], after) :=
  rfl

theorem decaysLike_sent (s : Simulation) (now : Float) (dt : Float32) :
    (s.sent now dt).2.world.DecaysLike s.world := by
  refine dispatchAll_induction (P := fun t => t.world.DecaysLike s.world) ?_
    (World.decaysLike_integrate s.world dt now) _
  intro t agent ht
  refine .trans ?_ ht
  rcases t.dispatch_cases now agent with ⟨path, words, -, hsent⟩ | ⟨words, hfailed⟩
  · rw [hsent]
    exact t.world.decaysLike_modify agent.id (fun o => o.id_setPath path) fun _ => ⟨rfl, rfl, rfl⟩
  · rw [hfailed]
    exact t.world.decaysLike_modify agent.id (fun _ => by rfl) fun _ => ⟨rfl, rfl, rfl⟩

theorem sent_of_find?_eq_none (s : Simulation) (now : Float) (dt : Float32)
    (h : s.world.find? id = none) :
    (s.sent now dt).2.world.find? id = none ∧ routesOf id (s.sent now dt).1 = [] := by
  have hmoved : (s.moved now dt).find? id = none := by
    rw [moved, World.find?_integrate, h, Option.map_none]
  have hnot : ¬ ∃ since, (s.moved now dt).AtRest id since now := by
    rintro ⟨since, p, wander, hp, -⟩
    cases hmoved.symm.trans hp
  obtain ⟨hfind, hroutes⟩ := dispatchAll_other { s with world := s.moved now dt } now
    (mt mem_ids_idleAgents.mp hnot)
  exact ⟨hfind.trans hmoved, hroutes⟩

/-- Before anything decays, an object is an agent that was told its path, or it has the path that
the motion has left to it and nothing was told of it. -/
theorem sent_cases (s : Simulation) (now : Float) (dt : Float32) {o : Object}
    (ho : s.world.find? id = some o) :
    ∃ x, (s.sent now dt).2.world.find? id = some x ∧
      ((∃ path, routesOf id (s.sent now dt).1 = [path] ∧ o.wander ≠ none ∧ x.path = path ∧
          x.cursor = 0) ∨
        (routesOf id (s.sent now dt).1 = [] ∧ x.path = (o.step dt now).1.path ∧
          x.cursor = (o.step dt now).1.cursor)) := by
  have hmoved : (s.moved now dt).find? id = some (o.step dt now).1 := by
    rw [moved, World.find?_integrate, ho, Option.map_some]
  by_cases hrest : ∃ since, (s.moved now dt).AtRest id since now
  · obtain ⟨x, hx, houtcome⟩ := outcome_dispatchAll { s with world := s.moved now dt } now
      (nodup_ids_idleAgents _ now) (mem_ids_idleAgents.mpr hrest) hmoved
    obtain ⟨p, wander, hp, hwander, -⟩ := hrest.choose_spec
    rw [hmoved, Option.some_inj] at hp
    subst hp
    have hagent : o.wander ≠ none := by
      intro hnone
      rcases o.step_cases dt now with ⟨-, -, -, hstep⟩ | ⟨-, -, hstep⟩ <;>
        simp [hstep, hnone] at hwander
    refine ⟨x, hx, ?_⟩
    rw [sent]
    generalize routesOf id _ = routes at houtcome
    cases houtcome with
    | sent path _ => exact .inl ⟨path, rfl, hagent, rfl, rfl⟩
    | failed => exact .inr ⟨rfl, rfl, rfl⟩
  · obtain ⟨hfind, hroutes⟩ := dispatchAll_other { s with world := s.moved now dt } now
      (mt mem_ids_idleAgents.mp hrest)
    exact ⟨_, hfind.trans hmoved, .inr ⟨hroutes, rfl, rfl⟩⟩

/-! ## What a tick leaves -/

/-- What the messages of a tick say of the simulation `t` that it leaves. -/
structure Report (now : Float) (dt : Float32) (s t : Simulation) (messages : List ServerMessage) :
    Prop where
  channel : t.channel = s.channel
  /-- Routes in id order, then a removal for each notice of the sweep, then the persistent objects
  that there are now. -/
  shape : ∃ (routes : List (String × List Point)) (entries : Table Json),
    messages = routes.map (fun r => .route r.1 r.2) ++
        ((s.sent now dt).2.world.sweep now).1.map (fun n => .removed n.id n.layer) ++
      [.state entries (some t.channel)] ∧
    (routes.map (·.1)).Pairwise (· < ·) ∧
    ∀ id, entries.find? id = ((t.world.find? id).filter (·.persistent)).map Object.toJson
  swept : t.world = ((s.sent now dt).2.world.sweep now).2
  due : ((s.sent now dt).2.world.sweep now).1 =
    (s.world.objects.filter fun _ o => o.isExpired now).values.flatMap Object.notices
  gone : ∀ id, t.world.find? id = none ↔ ∀ o, s.world.find? id = some o → o.isExpired now = true
  agents : ∀ id path, .route id path ∈ messages →
    ∃ o, s.world.find? id = some o ∧ o.wander ≠ none
  /-- A path that is told is the one that its agent has, unless the agent has decayed. -/
  told : ∀ id path, .route id path ∈ messages →
    (∃ x, t.world.find? id = some x ∧ x.path = path ∧ x.cursor = 0) ∨
      (t.world.find? id = none ∧ ∃ o, s.world.find? id = some o ∧ o.isExpired now = true)
  /-- Without a message an object goes on where the motion has left it. -/
  untold : ∀ id x, t.world.find? id = some x → (∀ path, .route id path ∉ messages) →
    ∃ o, s.world.find? id = some o ∧ (x.path = o.path ∨ x.path = []) ∧
      x.path = (o.step dt now).1.path ∧ x.cursor = (o.step dt now).1.cursor

/-- A tick tells of no route after it has sent its agents. -/
theorem routesOf_tick (s : Simulation) (now : Float) (dt : Float32) (id : String) :
    routesOf id (s.tick now dt).1 = routesOf id (s.sent now dt).1 := by
  have hremoved : ∀ notices : List Notice,
      routesOf id (notices.map fun n => .removed n.id n.layer) = [] := fun notices =>
    List.filterMap_eq_nil_iff.mpr fun m hm => by
      obtain ⟨n, -, rfl⟩ := List.mem_map.mp hm
      rfl
  rw [tick_eq_sent, routesOf_append, routesOf_append, hremoved]
  exact (List.append_nil _).trans (List.append_nil _)

/-- A sweep takes an object as it is or leaves it as it is. -/
theorem find?_tick_cases (s : Simulation) (now : Float) (dt : Float32) (id : String) :
    (s.tick now dt).2.world.find? id = none ∨
      (s.tick now dt).2.world.find? id = (s.sent now dt).2.world.find? id := by
  rw [tick_eq_sent]
  dsimp only
  rw [World.find?_sweep]
  cases hx : (s.sent now dt).2.world.find? id with
  | none => exact .inl rfl
  | some x =>
      rw [Option.filter_some]
      split
      · exact .inr rfl
      · exact .inl rfl

/-- Whatever state a simulation is in, a tick tells what it does. -/
theorem report_tick (s : Simulation) (now : Float) (dt : Float32) :
    Report now dt s (s.tick now dt).2 (s.tick now dt).1 := by
  have hdecays := s.decaysLike_sent now dt
  have hgone : ∀ id, (s.tick now dt).2.world.find? id = none ↔
      ∀ o, s.world.find? id = some o → o.isExpired now = true := fun id =>
    hdecays.find?_sweep_eq_none_iff
  have hsent : ∀ id path, .route id path ∈ (s.tick now dt).1 →
      ∃ o x, s.world.find? id = some o ∧ (s.sent now dt).2.world.find? id = some x ∧
        o.wander ≠ none ∧ x.path = path ∧ x.cursor = 0 := by
    intro id path htold
    rw [← mem_routesOf, routesOf_tick] at htold
    cases ho : s.world.find? id with
    | none =>
        rw [(s.sent_of_find?_eq_none now dt ho).2] at htold
        cases htold
    | some o =>
        obtain ⟨x, hx, ⟨way, hroutes, hagent, hpath, hcursor⟩ | ⟨hroutes, -⟩⟩ :=
          s.sent_cases now dt ho
        · rw [hroutes, List.mem_singleton] at htold
          exact ⟨o, x, rfl, hx, hagent, hpath.trans htold.symm, hcursor⟩
        · rw [hroutes] at htold
          cases htold
  refine ⟨channel_dispatchAll .., ?_, rfl, hdecays.notices_sweep now, hgone, ?_, ?_, ?_⟩
  · obtain ⟨routes, hroutes, hsublist⟩ :=
      exists_routes_dispatchAll { s with world := s.moved now dt } now
        (idleAgents (s.moved now dt) now)
    refine ⟨routes, (s.tick now dt).2.world.snapshot, ?_,
      (pairwise_ids_idleAgents _ now).sublist hsublist, World.find?_snapshot _⟩
    rw [← hroutes]
    rfl
  · intro id path htold
    obtain ⟨o, x, ho, -, hagent, -⟩ := hsent id path htold
    exact ⟨o, ho, hagent⟩
  · intro id path htold
    obtain ⟨o, x, ho, hx, -, hpath, hcursor⟩ := hsent id path htold
    rcases s.find?_tick_cases now dt id with hnone | hkept
    · exact .inr ⟨hnone, o, ho, (hgone id).mp hnone o ho⟩
    · exact .inl ⟨x, hkept.trans hx, hpath, hcursor⟩
  · intro id y hy huntold
    have huntold : routesOf id (s.sent now dt).1 = [] := by
      rw [← routesOf_tick]
      exact List.eq_nil_iff_forall_not_mem.mpr fun path htold => huntold path (mem_routesOf.mp htold)
    have hkept : (s.sent now dt).2.world.find? id = some y := by
      rcases s.find?_tick_cases now dt id with hnone | hkept
      · cases hnone.symm.trans hy
      · exact hkept.symm.trans hy
    cases ho : s.world.find? id with
    | none => cases (s.sent_of_find?_eq_none now dt ho).1.symm.trans hkept
    | some o =>
        obtain ⟨x, hx, ⟨way, hroutes, -⟩ | ⟨-, hpath, hcursor⟩⟩ := s.sent_cases now dt ho
        · cases hroutes.symm.trans huntold
        · obtain rfl := Option.some_inj.mp (hx.symm.trans hkept)
          refine ⟨o, rfl, ?_, hpath, hcursor⟩
          rw [hpath]
          exact o.path_step dt now

end Simulation

end TileWorld
