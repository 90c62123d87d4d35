import TileWorld.Channel.Population

/-! A channel is populated with walls, one player and agents, and none of them is on its way
anywhere. -/

namespace TileWorld

/-- An object as it enters a channel: it persists, has no path, and does not wander if it is an
obstacle. -/
structure Object.Fresh (o : Object) : Prop where
  persistent : o.persistent = true
  path : o.path = []
  still : o.obstacle = true → o.wander = none

namespace Channel

variable {d : Dims} {settings : SpawnSettings} {m : Maze} {o : Object}

/-! ## Walls, player and agents -/

theorem mem_wallsOn {made : List Object} {squares : List Square} (h : o ∈ wallsOn d made squares) :
    o ∈ made ∨ ∃ s ∈ squares, o = .wall (wallId s) (d.squareCorner s) := by
  induction squares generalizing made with
  | nil => exact .inl (List.mem_reverse.mp h)
  | cons s squares ih =>
      rw [wallsOn] at h
      split at h
      · rcases ih h with hmade | ⟨t, ht, hwall⟩
        · rcases List.mem_cons.mp hmade with hwall | hmade
          · exact .inr ⟨s, List.mem_cons_self, hwall⟩
          · exact .inl hmade
        · exact .inr ⟨t, List.mem_cons_of_mem s ht, hwall⟩
      · rcases ih h with hmade | ⟨t, ht, hwall⟩
        · exact .inl hmade
        · exact .inr ⟨t, List.mem_cons_of_mem s ht, hwall⟩

theorem exists_square_of_mem_walls {channel : String} (h : o ∈ walls d channel) :
    ∃ s ∈ (Layout.ofChannel channel).mounds.flatMap Mound.squares,
      o = .wall (wallId s) (d.squareCorner s) := by
  rcases mem_wallsOn h with hnil | hwall
  · cases hnil
  · exact hwall

theorem exists_agent_of_mem_placeAgents {n : Nat} {starts : List Square} {words : Words}
    (h : o ∈ (placeAgents d settings m n starts words).1) :
    ∃ k home, o = .agent (agentId k) home ⟨home, wanderRadius, pathCooldown, 0⟩ := by
  induction starts generalizing n words with
  | nil => cases h
  | cons s starts ih =>
      rcases List.mem_cons.mp h with hagent | hrest
      · exact ⟨n, _, hagent⟩
      · exact ih hrest

/-! ## The population -/

variable {channel player : String} {words : Words}

theorem walls_populate :
    (populate d settings channel player words).1.walls = walls d channel := rfl

theorem id_player_populate :
    (populate d settings channel player words).1.player.id = player := rfl

theorem obstacle_player_populate :
    (populate d settings channel player words).1.player.obstacle = false := rfl

theorem exists_agent_of_mem_agents (h : o ∈ (populate d settings channel player words).1.agents) :
    ∃ k home, o = .agent (agentId k) home ⟨home, wanderRadius, pathCooldown, 0⟩ :=
  exists_agent_of_mem_placeAgents h

/-- Of the objects that enter a channel the walls are the obstacles. -/
theorem mem_walls_iff (h : o ∈ (populate d settings channel player words).1.objects) :
    o ∈ (populate d settings channel player words).1.walls ↔ o.obstacle = true := by
  constructor
  · intro hwall
    rw [walls_populate] at hwall
    obtain ⟨s, -, rfl⟩ := exists_square_of_mem_walls hwall
    rfl
  · intro hobstacle
    rcases List.mem_append.mp h with hwall | hrest
    · exact hwall
    · rcases List.mem_cons.mp hrest with rfl | hagent
      · rw [obstacle_player_populate] at hobstacle
        cases hobstacle
      · obtain ⟨k, home, rfl⟩ := exists_agent_of_mem_agents hagent
        cases hobstacle

theorem fresh_of_mem_populate (h : o ∈ (populate d settings channel player words).1.objects) :
    o.Fresh := by
  rcases List.mem_append.mp h with hwall | hrest
  · rw [walls_populate] at hwall
    obtain ⟨s, -, rfl⟩ := exists_square_of_mem_walls hwall
    exact ⟨rfl, rfl, fun _ => rfl⟩
  · rcases List.mem_cons.mp hrest with rfl | hagent
    · exact ⟨rfl, rfl, fun _ => rfl⟩
    · obtain ⟨k, home, rfl⟩ := exists_agent_of_mem_agents hagent
      exact ⟨rfl, rfl, nofun⟩

end Channel

end TileWorld
