import TileWorld.Proofs.Simulation.Tellable

/-! Each agent at rest is sent on one path, or is not and rests again; what becomes of the others
does not concern it. -/

namespace TileWorld

/-- An agent has nowhere to go and has rested since the given time, long enough. -/
def World.AtRest (w : World) (id : String) (since now : Float) : Prop :=
  ∃ o wander, w.find? id = some o ∧ o.wander = some wander ∧ o.hasActivePath = false ∧
    wander.lastPath = since ∧ wander.rested now = true

/-- The path that a message tells of for the object. -/
def ServerMessage.routeOf? (id : String) : ServerMessage → Option (List Point)
  | .route mover path => if mover = id then some path else none
  | _ => none

namespace Simulation

variable {s : Simulation} {now : Float} {dt : Float32} {id : String}

/-- The paths that messages tell of for one object. -/
def routesOf (id : String) (messages : List ServerMessage) : List (List Point) :=
  messages.filterMap (·.routeOf? id)

theorem routesOf_append (id : String) (messages further : List ServerMessage) :
    routesOf id (messages ++ further) = routesOf id messages ++ routesOf id further :=
  List.filterMap_append

theorem mem_routesOf {messages : List ServerMessage} {path : List Point} :
    path ∈ routesOf id messages ↔ .route id path ∈ messages := by
  rw [routesOf, List.mem_filterMap]
  constructor
  · rintro ⟨message, hmem, hpath⟩
    cases message with
    | route mover way =>
        simp only [ServerMessage.routeOf?, Option.ite_none_right_eq_some, Option.some_inj] at hpath
        obtain ⟨rfl, rfl⟩ := hpath
        exact hmem
    | state | assigned | message | chat | removed => cases hpath
  · intro hmem
    exact ⟨.route id path, hmem, by simp [ServerMessage.routeOf?]⟩

/-! ## One agent -/

/-- What becomes of an agent at rest: it gets a path, and nothing else changes, or it gets none and
its rest begins anew. -/
inductive Outcome (now : Float) (o : Object) : Object → List (List Point) → Prop where
  | sent (path : List Point) (h : path ≠ []) : Outcome now o (o.setPath path) [path]
  | failed : Outcome now o { o with wander := o.wander.map fun w => { w with lastPath := now } } []

theorem ne_nil_of_planWander {w : World} {position : Point} {wander : Wander} {attempts : Nat}
    {words : Words} {path : List Point}
    (h : (planWander w position wander attempts words).1 = some path) : path ≠ [] := by
  obtain ⟨start, goal, hroute⟩ := exists_findPath_of_planWander h
  obtain ⟨cells, hcells, rfl⟩ := Option.map_eq_some_iff.mp hroute
  exact fun hnil => Maze.ne_nil_of_findPath hcells (List.map_eq_nil_iff.mp hnil)

theorem outcome_dispatch (s : Simulation) (now : Float) {agent : Idle} {o : Object}
    (ho : s.world.find? agent.id = some o) :
    ∃ x, (s.dispatch now agent).2.world.find? agent.id = some x ∧
      Outcome now o x (routesOf agent.id (s.dispatch now agent).1.toList) := by
  have hfind : ∀ (change : Object → Object) (keepsId : ∀ o, (change o).id = o.id),
      (s.world.modify agent.id change keepsId).find? agent.id = some (change o) := by
    intro change keepsId
    rw [World.find?_modify, if_pos rfl, ho, Option.map_some]
  rcases s.dispatch_cases now agent with ⟨path, words, hpath, hsent⟩ | ⟨words, hfailed⟩
  · have hroutes : routesOf agent.id (some (ServerMessage.route agent.id path)).toList = [path] := by
      simp [routesOf, ServerMessage.routeOf?]
    rw [hsent, hroutes]
    exact ⟨_, hfind _ fun o => o.id_setPath path, .sent path (ne_nil_of_planWander hpath)⟩
  · rw [hfailed]
    exact ⟨_, hfind _ fun _ => by rfl, .failed⟩

/-- Sending one agent does not concern the others. -/
theorem dispatch_other (s : Simulation) (now : Float) {agent : Idle} (h : id ≠ agent.id) :
    (s.dispatch now agent).2.world.find? id = s.world.find? id ∧
      routesOf id (s.dispatch now agent).1.toList = [] := by
  have hfind : ∀ (change : Object → Object) (keepsId : ∀ o, (change o).id = o.id),
      (s.world.modify agent.id change keepsId).find? id = s.world.find? id := by
    intro change keepsId
    rw [World.find?_modify, if_neg h]
  rcases s.dispatch_cases now agent with ⟨path, words, -, hsent⟩ | ⟨words, hfailed⟩
  · rw [hsent]
    exact ⟨hfind _ fun o => o.id_setPath path,
      by simp [routesOf, ServerMessage.routeOf?, h.symm]⟩
  · rw [hfailed]
    exact ⟨hfind _ fun _ => by rfl, rfl⟩

/-! ## All agents -/

theorem dispatchAll_other (s : Simulation) (now : Float) {agents : List Idle}
    (h : id ∉ agents.map (·.id)) :
    (s.dispatchAll now agents).2.world.find? id = s.world.find? id ∧
      routesOf id (s.dispatchAll now agents).1 = [] := by
  induction agents generalizing s with
  | nil => exact ⟨rfl, rfl⟩
  | cons agent agents ih =>
      rw [List.map_cons, List.mem_cons, not_or] at h
      obtain ⟨hne, hrest⟩ := h
      obtain ⟨hfind, hroutes⟩ := s.dispatch_other now hne
      obtain ⟨hfindRest, hroutesRest⟩ := ih (s.dispatch now agent).2 hrest
      rw [dispatchAll_cons, routesOf_append, hroutes, hroutesRest]
      exact ⟨hfindRest.trans hfind, rfl⟩

theorem outcome_dispatchAll (s : Simulation) (now : Float) {agents : List Idle}
    (hnodup : (agents.map (·.id)).Nodup) (hid : id ∈ agents.map (·.id)) {o : Object}
    (ho : s.world.find? id = some o) :
    ∃ x, (s.dispatchAll now agents).2.world.find? id = some x ∧
      Outcome now o x (routesOf id (s.dispatchAll now agents).1) := by
  induction agents generalizing s with
  | nil => cases hid
  | cons agent agents ih =>
      obtain ⟨hfirst, hnodupRest⟩ := List.nodup_cons.mp hnodup
      rw [dispatchAll_cons, routesOf_append]
      by_cases heq : id = agent.id
      · subst heq
        obtain ⟨x, hx, houtcome⟩ := s.outcome_dispatch now ho
        obtain ⟨hfindRest, hroutesRest⟩ := (s.dispatch now agent).2.dispatchAll_other now hfirst
        rw [hroutesRest, List.append_nil]
        exact ⟨x, hfindRest.trans hx, houtcome⟩
      · obtain ⟨hfind, hroutes⟩ := s.dispatch_other now heq
        rw [hroutes, List.nil_append]
        exact ih (s.dispatch now agent).2 hnodupRest ((List.mem_cons.mp hid).resolve_left heq)
          (hfind.trans ho)

/-! ## Who is at rest -/

theorem idle?_eq_some_iff {o : Object} {agent : Idle} :
    idle? now o = some agent ↔
      ∃ wander, o.wander = some wander ∧ (o.hasActivePath = false ∧ wander.rested now = true) ∧
        ⟨o.id, o.position, wander⟩ = agent := by
  simp only [idle?, Option.bind_eq_bind, Option.bind_eq_some_iff, Option.pure_def,
    Option.ite_none_right_eq_some, Option.some_inj, Bool.and_eq_true, Bool.not_eq_true']

theorem mem_ids_idleAgents {w : World} :
    id ∈ (idleAgents w now).map (·.id) ↔ ∃ since, w.AtRest id since now := by
  simp only [idleAgents, List.mem_map, List.mem_filterMap, idle?_eq_some_iff, World.mem_values_iff]
  constructor
  · rintro ⟨-, ⟨o, ho, wander, hwander, ⟨hstill, hrested⟩, rfl⟩, rfl⟩
    exact ⟨_, o, wander, ho, hwander, hstill, rfl, hrested⟩
  · rintro ⟨-, o, wander, ho, hwander, hstill, -, hrested⟩
    obtain rfl := World.id_eq_of_find? ho
    exact ⟨_, ⟨o, ho, wander, hwander, ⟨hstill, hrested⟩, rfl⟩, rfl⟩

theorem sublist_ids_idleAgents (w : World) (now : Float) :
    ((idleAgents w now).map (·.id)).Sublist w.objects.keys := by
  rw [idleAgents, ← w.keyed.map_id_values]
  induction w.objects.values with
  | nil => exact List.Sublist.slnil
  | cons o objects ih =>
      rw [List.filterMap_cons]
      split
      · exact ih.cons o.id
      · rename_i agent hidle
        obtain ⟨wander, -, -, rfl⟩ := idle?_eq_some_iff.mp hidle
        exact ih.cons_cons o.id

theorem nodup_ids_idleAgents (w : World) (now : Float) : ((idleAgents w now).map (·.id)).Nodup :=
  w.objects.nodup_keys.sublist (sublist_ids_idleAgents w now)

/-! ## A tick -/

def moved (s : Simulation) (now : Float) (dt : Float32) : World := (s.world.integrate dt now).2

theorem Routed.tick_eq_dispatchAll (hs : s.Routed) (id : String) (now : Float) (dt : Float32) :
    let sent := Simulation.dispatchAll now { s with world := s.moved now dt }
      (idleAgents (s.moved now dt) now)
    routesOf id (s.tick now dt).1 = routesOf id sent.1 ∧ (s.tick now dt).2 = sent.2 := by
  intro sent
  have htick : s.tick now dt = (sent.1 ++ [sent.2.stateMessage], sent.2) := hs.tick_eq now dt
  have hstate : routesOf id [sent.2.stateMessage] = [] := rfl
  rw [htick, routesOf_append, hstate, List.append_nil]
  exact ⟨rfl, rfl⟩

theorem Routed.tick_of_not_atRest (hs : s.Routed)
    (h : ∀ since, ¬ (s.moved now dt).AtRest id since now) :
    (s.tick now dt).2.world.find? id = (s.moved now dt).find? id ∧
      routesOf id (s.tick now dt).1 = [] := by
  obtain ⟨hroutes, hafter⟩ := hs.tick_eq_dispatchAll id now dt
  have hnot : id ∉ (idleAgents (s.moved now dt) now).map (·.id) := fun hid => by
    obtain ⟨since, hrest⟩ := mem_ids_idleAgents.mp hid
    exact h since hrest
  rw [hroutes, hafter]
  exact dispatchAll_other { s with world := s.moved now dt } now hnot

theorem Routed.outcome_tick (hs : s.Routed) {since : Float}
    (h : (s.moved now dt).AtRest id since now) {o : Object}
    (ho : (s.moved now dt).find? id = some o) :
    ∃ x, (s.tick now dt).2.world.find? id = some x ∧
      Outcome now o x (routesOf id (s.tick now dt).1) := by
  obtain ⟨hroutes, hafter⟩ := hs.tick_eq_dispatchAll id now dt
  rw [hroutes, hafter]
  exact outcome_dispatchAll { s with world := s.moved now dt } now (nodup_ids_idleAgents _ now)
    (mem_ids_idleAgents.mpr ⟨since, h⟩) ho

end Simulation

end TileWorld
