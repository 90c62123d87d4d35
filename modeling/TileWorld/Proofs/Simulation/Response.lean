import TileWorld.Proofs.Simulation.Run
import TileWorld.Proofs.World.Frame

/-! What a request needs, what is told in response and what becomes of the simulation, as rules that
do not run it. -/

namespace TileWorld.Simulation

variable {s t : Simulation} {player : String} {target : Point}

/-- Nothing but the object with this id has changed, if there is one. -/
structure ChangesOnly (s t : Simulation) (id : String) (change : Object → Object) : Prop where
  settings : t.settings = s.settings
  channel : t.channel = s.channel
  player : t.player = s.player
  words : t.words = s.words
  dims : t.world.dims = s.world.dims
  grid : t.world.grid = s.world.grid
  maze : t.world.maze = s.world.maze
  changed : t.world.find? id = (s.world.find? id).map change
  others : ∀ other, other ≠ id → t.world.find? other = s.world.find? other

/-- The player stands in one cell of the maze, the target moved into the world lies in another, and
the search leads from the first to the second. -/
def Leads (s : Simulation) (player : String) (target : Point) (cells : List Cell) : Prop :=
  ∃ o start goal, s.world.find? player = some o ∧
    s.world.dims.cell? o.position = some start ∧
    s.world.dims.cell? (s.world.dims.clamp target) = some goal ∧
    s.world.maze.findPath start goal = some cells

/-- Why a player cannot be sent to a target. -/
inductive Stays (s : Simulation) (player : String) (target : Point) : Prop where
  | missing : s.world.find? player = none → Stays s player target
  | outside {o : Object} : s.world.find? player = some o →
      s.world.dims.cell? o.position = none → Stays s player target
  | targetOutside : s.world.dims.cell? (s.world.dims.clamp target) = none → Stays s player target
  | unreachable {o : Object} {start goal : Cell} : s.world.find? player = some o →
      s.world.dims.cell? o.position = some start →
      s.world.dims.cell? (s.world.dims.clamp target) = some goal →
      s.world.maze.findPath start goal = none → Stays s player target

/-- What is told in response to a request, and the simulation afterwards. There is no rule for a
player who changes the channel. -/
inductive Responds (s : Simulation) : ClientMessage → List ServerMessage → Simulation → Prop where
  | dropped {m : ClientMessage} : s.player = none → Responds s m [] s
  | stays {player : String} {target : Point} : s.player = some player →
      Stays s player target → Responds s (.move target) [] s
  | leaves {t : Simulation} {player : String} {target : Point} {cells : List Cell} :
      s.player = some player → Leads s player target cells →
      ChangesOnly s t player (fun o =>
        { o with path := s.world.dims.waypoints cells, cursor := 0 }) →
      Responds s (.move target) [.route player (s.world.dims.waypoints cells)] t
  | chats {player room text : String} : s.player = some player →
      Responds s (.chat room text) [echo player room text] s
  | lacks {player item : String} {active : Bool} : s.player = some player →
      s.world.find? player = none → Responds s (.activate item active) [] s
  | wears {t : Simulation} {player item : String} {active : Bool} {o : Object} :
      s.player = some player → s.world.find? player = some o →
      ChangesOnly s t player (fun o => { o with layers := toggle item active o.layers }) →
      Responds s (.activate item active) [t.stateMessage] t

/-! ## Changes of one object -/

section

variable {id : String} {change : Object → Object}

theorem changesOnly_modify (s : Simulation) (keepsId : ∀ o, (change o).id = o.id)
    (h : ∀ o, (change o).position = o.position) :
    ChangesOnly s { s with world := s.world.modify id change keepsId } id change where
  settings := rfl
  channel := rfl
  player := rfl
  words := rfl
  dims := World.dims_modify s.world id keepsId
  grid := World.grid_modify s.world id keepsId h
  maze := World.maze_modify s.world id keepsId
  changed := by simp [World.find?_modify]
  others other hother := by simp [World.find?_modify, hother]

theorem changesOnly_self (h : ∀ o, s.world.find? id = some o → change o = o) :
    ChangesOnly s s id change where
  settings := rfl
  channel := rfl
  player := rfl
  words := rfl
  dims := rfl
  grid := rfl
  maze := rfl
  changed := by
    cases ho : s.world.find? id with
    | none => rfl
    | some o => rw [Option.map_some, h o ho]
  others _ _ := rfl

theorem ChangesOnly.trans {u : Simulation} {change' : Object → Object}
    (hst : ChangesOnly s t id change) (htu : ChangesOnly t u id change') :
    ChangesOnly s u id (change' ∘ change) where
  settings := htu.settings.trans hst.settings
  channel := htu.channel.trans hst.channel
  player := htu.player.trans hst.player
  words := htu.words.trans hst.words
  dims := htu.dims.trans hst.dims
  grid := htu.grid.trans hst.grid
  maze := htu.maze.trans hst.maze
  changed := by rw [htu.changed, hst.changed, Option.map_map]
  others other hother := (htu.others other hother).trans (hst.others other hother)

/-- There is only one way to change nothing else. -/
theorem ChangesOnly.eq_modify (hchange : ChangesOnly s t id change)
    (keepsId : ∀ o, (change o).id = o.id) (h : ∀ o, (change o).position = o.position) :
    t = { s with world := s.world.modify id change keepsId } := by
  have hmodify : ChangesOnly s { s with world := s.world.modify id change keepsId } id change :=
    changesOnly_modify s keepsId h
  have hobjects : t.world.objects = (s.world.modify id change keepsId).objects := by
    refine Table.ext_find? fun other => ?_
    by_cases hother : other = id
    · subst hother
      exact hchange.changed.trans hmodify.changed.symm
    · exact (hchange.others other hother).trans (hmodify.others other hother).symm
  have hworld : t.world = s.world.modify id change keepsId := by
    have hdims := hchange.dims.trans hmodify.dims.symm
    have hgrid := hchange.grid.trans hmodify.grid.symm
    have hmaze := hchange.maze.trans hmodify.maze.symm
    generalize s.world.modify id change keepsId = v at hobjects hdims hgrid hmaze
    cases v
    cases hw : t.world
    simp_all
  obtain ⟨hsettings, hchannel, hplayer, hwords, -⟩ := hchange
  cases t
  simp_all

end

/-! ## Moving -/

theorem routeTo?_eq_some_iff {w : World} {position : Point} {path : List Point} :
    routeTo? w position target = some path ↔
      ∃ start goal cells, w.dims.cell? position = some start ∧
        w.dims.cell? (w.dims.clamp target) = some goal ∧
        w.maze.findPath start goal = some cells ∧ w.dims.waypoints cells = path := by
  simp only [routeTo?, Option.bind_eq_bind, Option.bind_eq_some_iff, Option.map_eq_some_iff]
  constructor
  · rintro ⟨start, hstart, goal, hgoal, cells, hcells, hpath⟩
    exact ⟨start, goal, cells, hstart, hgoal, hcells, hpath⟩
  · rintro ⟨start, goal, cells, hstart, hgoal, hcells, hpath⟩
    exact ⟨start, hstart, goal, hgoal, cells, hcells, hpath⟩

/-- The path on which a request sends the player. -/
def route? (s : Simulation) (player : String) (target : Point) : Option (List Point) :=
  (s.world.find? player).bind fun o => routeTo? s.world o.position target

theorem route?_eq_some_iff {path : List Point} :
    s.route? player target = some path ↔
      ∃ cells, Leads s player target cells ∧ s.world.dims.waypoints cells = path := by
  simp only [route?, Option.bind_eq_some_iff, routeTo?_eq_some_iff]
  constructor
  · rintro ⟨o, ho, start, goal, cells, hstart, hgoal, hcells, hpath⟩
    exact ⟨cells, ⟨o, start, goal, ho, hstart, hgoal, hcells⟩, hpath⟩
  · rintro ⟨cells, ⟨o, start, goal, ho, hstart, hgoal, hcells⟩, hpath⟩
    exact ⟨o, ho, start, goal, cells, hstart, hgoal, hcells, hpath⟩

theorem route?_eq_none_iff : s.route? player target = none ↔ Stays s player target := by
  constructor
  · intro hnone
    cases ho : s.world.find? player with
    | none => exact .missing ho
    | some o =>
        cases hstart : s.world.dims.cell? o.position with
        | none => exact .outside ho hstart
        | some start =>
            cases hgoal : s.world.dims.cell? (s.world.dims.clamp target) with
            | none => exact .targetOutside hgoal
            | some goal =>
                cases hcells : s.world.maze.findPath start goal with
                | none => exact .unreachable ho hstart hgoal hcells
                | some cells =>
                    have hroute := route?_eq_some_iff.mpr
                      ⟨cells, ⟨o, start, goal, ho, hstart, hgoal, hcells⟩, rfl⟩
                    rw [hnone] at hroute
                    cases hroute
  · intro hstays
    refine Option.eq_none_iff_forall_ne_some.mpr fun path hpath => ?_
    obtain ⟨cells, ⟨o, start, goal, ho, hstart, hgoal, hcells⟩, -⟩ := route?_eq_some_iff.mp hpath
    cases hstays with
    | missing hnone => simp [ho] at hnone
    | outside ho' hnone => simp_all
    | targetOutside hnone => simp [hgoal] at hnone
    | unreachable ho' hstart' hgoal' hnone => simp_all

theorem movePlayer_of_leads {cells : List Cell} (h : Leads s player target cells) :
    s.movePlayer player target = ([.route player (s.world.dims.waypoints cells)],
      { s with
        world := s.world.modify player (fun o => o.setPath (s.world.dims.waypoints cells))
          fun o => o.id_setPath _ }) := by
  have hroute := route?_eq_some_iff.mpr ⟨cells, h, rfl⟩
  rw [route?] at hroute
  rw [movePlayer, hroute]

theorem movePlayer_of_stays (h : Stays s player target) : s.movePlayer player target = ([], s) := by
  have hroute := route?_eq_none_iff.mpr h
  rw [route?] at hroute
  rw [movePlayer, hroute]

/-! ## Equipment -/

section

variable (item : String) (active : Bool)

theorem activateItem_of_missing (h : s.world.find? player = none) :
    s.activateItem player item active = ([], s) := by
  have hcontains : s.world.contains player = false :=
    Option.isSome_eq_false_iff.mpr (Option.isNone_iff_eq_none.mpr h)
  simp only [activateItem, hcontains, Bool.false_eq_true, if_false]

theorem activateItem_of_find? {o : Object} (h : s.world.find? player = some o) :
    s.activateItem player item active =
      let t := { s with
        world := s.world.modify player (fun o => { o with layers := toggle item active o.layers })
          fun _ => rfl }
      ([t.stateMessage], t) := by
  have hcontains : s.world.contains player = true := Option.isSome_iff_exists.mpr ⟨o, h⟩
  simp only [activateItem, hcontains, if_true]

end

/-! ## Requests -/

variable {m : ClientMessage} {messages : List ServerMessage}

theorem Responds.handle_eq (h : Responds s m messages t) : s.handle m = (messages, t) := by
  cases h with
  | dropped hplayer => rw [handle, hplayer]
  | stays hplayer hstays =>
      rw [handle, hplayer]
      exact movePlayer_of_stays hstays
  | leaves hplayer hleads hchange =>
      rw [handle, hplayer, hchange.eq_modify (fun _ => rfl) fun _ => rfl]
      exact movePlayer_of_leads hleads
  | chats hplayer => rw [handle, hplayer]
  | lacks hplayer hnone =>
      rw [handle, hplayer]
      exact activateItem_of_missing _ _ hnone
  | wears hplayer ho hchange =>
      rw [handle, hplayer, hchange.eq_modify (fun _ => rfl) fun _ => rfl]
      exact activateItem_of_find? _ _ ho

theorem responds_movePlayer (hplayer : s.player = some player) (target : Point) :
    Responds s (.move target) (s.movePlayer player target).1 (s.movePlayer player target).2 := by
  cases hroute : s.route? player target with
  | none =>
      have hstays := route?_eq_none_iff.mp hroute
      rw [movePlayer_of_stays hstays]
      exact .stays hplayer hstays
  | some path =>
      obtain ⟨cells, hleads, rfl⟩ := route?_eq_some_iff.mp hroute
      rw [movePlayer_of_leads hleads]
      exact .leaves hplayer hleads (changesOnly_modify s (fun _ => by rfl) fun _ => by rfl)

theorem responds_activateItem (hplayer : s.player = some player) (item : String) (active : Bool) :
    Responds s (.activate item active) (s.activateItem player item active).1
      (s.activateItem player item active).2 := by
  cases ho : s.world.find? player with
  | none =>
      rw [activateItem_of_missing item active ho]
      exact .lacks hplayer ho
  | some o =>
      rw [activateItem_of_find? item active ho]
      exact .wears hplayer ho (changesOnly_modify s (fun _ => by rfl) fun _ => by rfl)

/-- In any state whatsoever the rules tell how a request is handled. -/
theorem responds_iff_handle (hm : ∀ channel, m ≠ .changeChannel channel) :
    Responds s m messages t ↔ s.handle m = (messages, t) := by
  have hresponds : Responds s m (s.handle m).1 (s.handle m).2 := by
    cases hplayer : s.player with
    | none =>
        have hdropped : s.handle m = ([], s) := by rw [handle, hplayer]
        rw [hdropped]
        exact .dropped hplayer
    | some player =>
        rw [handle, hplayer]
        cases m with
        | move target => exact responds_movePlayer hplayer target
        | chat room text => exact .chats hplayer
        | activate item active => exact responds_activateItem hplayer item active
        | changeChannel channel => exact absurd rfl (hm channel)
  refine ⟨Responds.handle_eq, fun h => ?_⟩
  rw [h] at hresponds
  exact hresponds

def cornered : Simulation :=
  { new .standard ⟨fun _ => 0, 0⟩ with
    world := (((World.empty ⟨96, 64, 32, 16⟩).insert (.player "player-1" ⟨0, 0⟩)).insert
      (.wall "wall-1-0" ⟨32, 0⟩)).rebuildMaze
    player := some "player-1" }

/-- The player goes round the wall, to where the target is when it is moved into the world. -/
theorem responds_cornered :
    (∀ channel, ClientMessage.move ⟨900, 0⟩ ≠ .changeChannel channel) ∧
      ∃ path t, cornered.handle (.move ⟨900, 0⟩) = ([.route "player-1" path], t) ∧
        Responds cornered (.move ⟨900, 0⟩) [.route "player-1" path] t ∧
        (t.world.find? "player-1").map (fun o => (o.path.length, o.cursor)) = some (9, 0) := by
  have hm : ∀ channel, ClientMessage.move ⟨900, 0⟩ ≠ .changeChannel channel := nofun
  have hroute : (cornered.route? "player-1" ⟨900, 0⟩).map List.length = some 9 := by
    decide +kernel
  obtain ⟨path, hpath, hlength⟩ := Option.map_eq_some_iff.mp hroute
  obtain ⟨cells, hleads, rfl⟩ := route?_eq_some_iff.mp hpath
  have hhandle := movePlayer_of_leads hleads
  refine ⟨hm, _, _, hhandle, (responds_iff_handle hm).mpr hhandle, ?_⟩
  dsimp only
  rw [World.find?_modify]
  obtain ⟨o, -, -, ho, -⟩ := hleads
  simp [ho, Object.setPath, hlength]

end TileWorld.Simulation
