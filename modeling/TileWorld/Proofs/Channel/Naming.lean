import Mathlib.Data.List.Nodup
import TileWorld.Proofs.Channel.Population
import TileWorld.Proofs.Text.Naming

/-! No two objects that enter a channel together have one id. -/

namespace TileWorld.Channel

variable {d : Dims} {settings : SpawnSettings} {m : Maze} {channel : String} {words : Words}

/-! ## Ids of one kind and another -/

theorem head?_wallId (square : Square) : (wallId square).toList.head? = some 'w' := by
  rw [wallId, String.append_assoc, String.append_assoc]
  exact head?_append (by decide) _

theorem head?_agentId (n : Nat) : (agentId n).toList.head? = some 'b' :=
  head?_append (by decide) _

theorem head?_player (token : String) : ("player-" ++ token).toList.head? = some 'p' :=
  head?_append (by decide) _

theorem wallId_ne_player (square : Square) (token : String) : wallId square ≠ "player-" ++ token :=
  fun h => absurd ((head?_wallId square).symm.trans (h ▸ head?_player token)) (by decide)

theorem agentId_ne_player (n : Nat) (token : String) : agentId n ≠ "player-" ++ token :=
  fun h => absurd ((head?_agentId n).symm.trans (h ▸ head?_player token)) (by decide)

theorem wallId_ne_agentId (square : Square) (n : Nat) : wallId square ≠ agentId n :=
  fun h => absurd ((head?_wallId square).symm.trans (h ▸ head?_agentId n)) (by decide)

/-! ## Ids of one kind -/

theorem wallId_inj {s t : Square} (h : wallId s = wallId t) : s = t := by
  obtain ⟨hcol, hrow⟩ :=
    hyphenated_inj (hyphen_not_mem_toString s.col) (hyphen_not_mem_toString s.row) h
  cases s
  cases t
  exact (Square.mk.injEq ..).mpr ⟨toString_inj hcol, toString_inj hrow⟩

theorem agentId_inj {m n : Nat} (h : agentId m = agentId n) : m = n :=
  toString_inj (String.append_right_inj _ |>.mp h)

/-- A square that comes a second time finds the wall on it and gets none. -/
theorem exists_squares_of_wallsOn (d : Dims) (squares : List Square) {done : List Square}
    (hdone : done.Nodup) :
    ∃ all : List Square, all.Nodup ∧
      wallsOn d (done.map fun s => .wall (wallId s) (d.squareCorner s)) squares =
        all.map fun s => .wall (wallId s) (d.squareCorner s) := by
  induction squares generalizing done with
  | nil => exact ⟨done.reverse, List.nodup_reverse.mpr hdone, (List.map_reverse ..).symm⟩
  | cons s squares ih =>
      rw [wallsOn]
      split
      · rename_i hfree
        have hnew : s ∉ done := fun hs => by
          have hblocked : (done.map fun s => Object.wall (wallId s) (d.squareCorner s)).any
              (samePlace (d.squareCorner s) ·.position) = true :=
            List.any_eq_true.mpr
              ⟨_, List.mem_map_of_mem hs, by simp [samePlace, Object.wall, Object.ofKind]⟩
          simp [hblocked] at hfree
        exact ih (List.nodup_cons.mpr ⟨hnew, hdone⟩)
      · exact ih hdone

theorem nodup_ids_walls (d : Dims) (channel : String) : ((walls d channel).map (·.id)).Nodup := by
  obtain ⟨all, hall, hwalls⟩ := exists_squares_of_wallsOn d
    ((Layout.ofChannel channel).mounds.flatMap Mound.squares) List.nodup_nil
  have hids : (walls d channel).map (·.id) = all.map wallId := by
    rw [walls, show ([] : List Object) = [].map _ from rfl, hwalls, List.map_map]
    rfl
  rw [hids]
  exact hall.map fun _ _ => wallId_inj

/-- Agents are numbered one after the other. -/
theorem ids_placeAgents (starts : List Square) (n : Nat) (words : Words) :
    (placeAgents d settings m n starts words).1.map (·.id) =
      (List.range' n starts.length).map agentId := by
  induction starts generalizing n words with
  | nil => rfl
  | cons s starts ih =>
      rw [List.length_cons, List.range'_succ, List.map_cons, ← ih (n + 1)]
      rfl

theorem nodup_ids_agents (d : Dims) (settings : SpawnSettings) (channel player : String)
    (words : Words) :
    ((populate d settings channel player words).1.agents.map (·.id)).Nodup := by
  have hids : (populate d settings channel player words).1.agents.map (·.id) =
      (List.range' 0 (Layout.ofChannel channel).agentStarts.length).map agentId :=
    ids_placeAgents ..
  rw [hids]
  exact (List.nodup_range' 1).map fun _ _ => agentId_inj

/-- No two of the objects that enter a channel have one id. -/
theorem nodup_ids_populate (d : Dims) (settings : SpawnSettings) (channel token : String)
    (words : Words) :
    ((populate d settings channel ("player-" ++ token) words).1.objects.map (·.id)).Nodup := by
  rw [Population.objects, List.map_append, List.map_cons, List.nodup_append, List.nodup_cons]
  refine ⟨nodup_ids_walls d channel, ⟨?_, nodup_ids_agents ..⟩, ?_⟩
  · intro hplayer
    obtain ⟨agent, hagent, hid⟩ := List.mem_map.mp hplayer
    obtain ⟨n, home, rfl⟩ := exists_agent_of_mem_agents hagent
    exact agentId_ne_player n token hid
  · intro id hid other hother
    obtain ⟨wall, hwall, rfl⟩ := List.mem_map.mp hid
    rw [walls_populate] at hwall
    obtain ⟨s, -, rfl⟩ := exists_square_of_mem_walls hwall
    rcases List.mem_cons.mp hother with rfl | hid
    · exact wallId_ne_player s token
    · obtain ⟨agent, hagent, rfl⟩ := List.mem_map.mp hid
      obtain ⟨n, home, rfl⟩ := exists_agent_of_mem_agents hagent
      exact wallId_ne_agentId s n

/-- Nothing but the player enters a channel under the name of the player. -/
theorem eq_player_of_mem_populate {token : String} {o : Object}
    (h : o ∈ (populate d settings channel ("player-" ++ token) words).1.objects)
    (hid : o.id = "player-" ++ token) :
    o = (populate d settings channel ("player-" ++ token) words).1.player := by
  have hplayer : (populate d settings channel ("player-" ++ token) words).1.player ∈
      (populate d settings channel ("player-" ++ token) words).1.objects :=
    List.mem_append_right _ List.mem_cons_self
  exact List.inj_on_of_nodup_map (nodup_ids_populate d settings channel token words) h hplayer
    (hid.trans id_player_populate.symm)

end TileWorld.Channel
