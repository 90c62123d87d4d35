import TileWorld.Proofs.Replica.Mirror

/-! What a replica learns of the layers of the player. An empty list of layers reads like an absent
one. -/

namespace TileWorld

/-- What an object wears, if it is known. -/
def World.layers? (w : World) (id : String) : Option (List String) := (w.find? id).map (·.layers)

theorem World.layers?_of_find? {w : World} {id : String} {o : Object} (h : w.find? id = some o) :
    w.layers? id = some o.layers := by
  rw [layers?, h, Option.map_some]

/-- Reading the defaults for an empty list of layers loses that it was empty. -/
theorem Kind.defaults_eq_iff {k : Kind} {layers : List String} :
    (if layers.isEmpty then k.defaultLayers else layers) = layers ↔ layers ≠ [] := by
  cases layers with
  | nil => simp [k.defaultLayers_ne_nil]
  | cons layer layers => simp

namespace Simulation

variable {s : Simulation} {player : String} {o : Object}

/-! ## One request -/

theorem find?_handle_activate (hplayer : s.player = some player)
    (ho : s.world.find? player = some o) (item : String) (active : Bool) :
    (s.handle (.activate item active)).2.world.find? player =
      some { o with layers := toggle item active o.layers } := by
  rw [(changesOnly_handle_activate hplayer item active).changed, ho, Option.map_some]

theorem messages_handle_activate (hplayer : s.player = some player)
    (ho : s.world.find? player = some o) (item : String) (active : Bool) :
    (s.handle (.activate item active)).1 =
      [(s.handle (.activate item active)).2.stateMessage] := by
  rw [handle_activate hplayer (Option.isSome_iff_exists.mpr ⟨o, ho⟩)]

theorem player_handle_activate (hplayer : s.player = some player)
    (ho : s.world.find? player = some o) (item : String) (active : Bool) :
    (s.handle (.activate item active)).2.player = some player := by
  rw [handle_activate hplayer (Option.isSome_iff_exists.mpr ⟨o, ho⟩)]
  exact hplayer

/-! ## The player at the entrance -/

/-- The ids of walls and agents are not those of players, so a player enters a channel with the
defaults of its kind. -/
theorem exists_find?_player_repopulate_token (hdims : s.world.dims = .standard) (token : String) :
    ∃ p : Point, p.isFinite = true ∧
      (s.repopulate ("player-" ++ token)).world.find? ("player-" ++ token) =
        some (.player ("player-" ++ token) p) := by
  obtain ⟨o, ho⟩ := exists_find?_player_repopulate s ("player-" ++ token)
  refine ⟨o.position, (intact_repopulate hdims).position _ o ho, ?_⟩
  obtain ⟨hmem, hid⟩ := mem_of_find?_repopulate ho
  obtain rfl := Channel.eq_player_of_mem_populate hmem hid
  exact ho

theorem exists_find?_player_bootstrap (settings : SimulationSettings) (words : Words)
    (channel token : String) :
    ∃ p : Point, p.isFinite = true ∧
      ((new settings words).bootstrap channel token).2.world.find? ("player-" ++ token) =
        some (.player ("player-" ++ token) p) :=
  exists_find?_player_repopulate_token rfl token

end Simulation

namespace Replica

/-! ## What is told -/

/-- A snapshot tells the layers that it lists; an empty list stands for the defaults of the kind. -/
theorem layers?_apply_stateMessage (r : Replica) {s : Simulation} (hrouted : s.Routed)
    (hs : s.Tellable) {id : String} {o : Object} (ho : s.world.find? id = some o) (now : Float) :
    (r.apply s.stateMessage now).2.world.layers? id =
      if o.position.isFinite then some (if o.layers.isEmpty then o.kind.defaultLayers else o.layers)
      else r.world.layers? id := by
  rw [World.layers?, find?_apply_stateMessage r hrouted hs ho]
  split <;> rfl

/-- Every change of equipment is told at once, but what the replica makes of it is right exactly if
the player wears something afterwards. -/
theorem activate_told_iff (settings : SimulationSettings) (words : Words)
    (channel token : String) (calls : List Simulation.Call) (item : String) (active : Bool)
    (r : Replica) (now : Float) :
    let s := ((Simulation.new settings words).bootstrap channel token).2.run calls
    let answer := s.handle (.activate item active)
    let told := (r.apply answer.2.stateMessage now).2
    answer.1 = [answer.2.stateMessage] ∧
      ∃ player o, s.player = some player ∧ s.world.find? player = some o ∧
        let layers := Simulation.toggle item active o.layers
        answer.2.player = some player ∧ answer.2.world.layers? player = some layers ∧
          told.world.layers? player =
            (if o.position.isFinite then
              some (if layers.isEmpty then o.kind.defaultLayers else layers)
            else r.world.layers? player) ∧
          (o.position.isFinite = true →
            (told.world.layers? player = answer.2.world.layers? player ↔ layers ≠ [])) := by
  intro s answer told
  obtain ⟨hrouted, htold⟩ := Simulation.tellable_run settings words channel token calls
  obtain ⟨player, o, hplayer, ho⟩ := htold.exists_player
  have hfind := Simulation.find?_handle_activate hplayer ho item active
  have hworn : answer.2.world.layers? player = some (Simulation.toggle item active o.layers) :=
    World.layers?_of_find? hfind
  have hlayers := layers?_apply_stateMessage r (hrouted.handle (.activate item active))
    (htold.handle (.activate item active)) hfind now
  refine ⟨Simulation.messages_handle_activate hplayer ho item active, player, o, hplayer, ho,
    Simulation.player_handle_activate hplayer ho item active, hworn, hlayers, ?_⟩
  intro hposition
  rw [hlayers, if_pos hposition, hworn, Option.some_inj]
  exact Kind.defaults_eq_iff

/-- Two layers are all that a player has when it enters a channel. Once both are taken away it
wears nothing, but whoever follows the snapshot has it in both. -/
theorem undressed_not_told {settings : SimulationSettings} {words : Words}
    {channel token player : String} {first : List ServerMessage × Simulation}
    (hfirst : first = (Simulation.new settings words).bootstrap channel token)
    (hid : "player-" ++ token = player) (r : Replica) (now : Float) :
    let s := first.2.run [.handle (.activate "anon" false)]
    let answer := s.handle (.activate "tunic-basic" false)
    answer.1 = [answer.2.stateMessage] ∧ answer.2.player = some player ∧
      answer.2.world.layers? player = some [] ∧
      (r.apply answer.2.stateMessage now).2.world.layers? player =
        some ["anon", "tunic-basic"] := by
  intro s answer
  subst hfirst
  obtain ⟨p, hp, hentered⟩ :=
    Simulation.exists_find?_player_bootstrap settings words channel token
  have hentering := Simulation.player_bootstrap (.new settings words) channel token
  rw [hid] at hentered hentering
  have hplayer : s.player = some player :=
    Simulation.player_handle_activate hentering hentered "anon" false
  have hfirst := Simulation.find?_handle_activate hentering hentered "anon" false
  have hfind := Simulation.find?_handle_activate hplayer hfirst "tunic-basic" false
  obtain ⟨hrouted, htold⟩ :=
    Simulation.tellable_run settings words channel token [.handle (.activate "anon" false)]
  have hlayers := layers?_apply_stateMessage r (hrouted.handle (.activate "tunic-basic" false))
    (htold.handle (.activate "tunic-basic" false)) hfind now
  have hnothing : Simulation.toggle "tunic-basic" false
      (Simulation.toggle "anon" false Kind.player.defaultLayers) = [] := by decide +kernel
  refine ⟨Simulation.messages_handle_activate hplayer hfirst "tunic-basic" false,
    Simulation.player_handle_activate hplayer hfirst "tunic-basic" false, ?_, ?_⟩
  · exact (World.layers?_of_find? hfind).trans (congrArg some hnothing)
  · refine (hlayers.trans (if_pos hp)).trans ?_
    exact congrArg some (if_pos (congrArg List.isEmpty hnothing))

/-- A replica that has followed everything from the start is no exception. -/
theorem undressed_not_told_one :
    let first := (Simulation.new .standard ⟨fun _ => 0, 0⟩).bootstrap "nowhere" "one"
    let calls : List Simulation.Call := [.handle (.activate "anon" false)]
    let client := empty.followAll ((first.1 ++ first.2.transcript calls).map fun m => (m, 0))
    let answer := (first.2.run calls).handle (.activate "tunic-basic" false)
    let told := (client.apply answer.2.stateMessage 0).2
    answer.1 = [answer.2.stateMessage] ∧ answer.2.player = some "player-one" ∧
      answer.2.world.layers? "player-one" = some [] ∧
      told.world.layers? "player-one" = some ["anon", "tunic-basic"] := by
  intro first calls client answer told
  have hid : "player-" ++ "one" = "player-one" := by decide +kernel
  have hfirst : first = (Simulation.new .standard ⟨fun _ => 0, 0⟩).bootstrap "nowhere" "one" := rfl
  -- the world of the channel is not to be computed
  clear_value first
  exact undressed_not_told hfirst hid client 0

end Replica

end TileWorld
