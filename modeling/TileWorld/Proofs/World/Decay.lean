import TileWorld.Proofs.World.Departure

/-! What a sweep leaves of a world of made objects, in which no obstacle ever decays. -/

namespace TileWorld.World

variable {d : Dims} {w : World} {now : Float}

/-- What a sweep makes of the world `v`. -/
structure Swept (now : Float) (v w : World) (notices : List Notice) : Prop where
  table : ∀ id o, w.find? id = some o ↔ v.find? id = some o ∧ ¬ o.Decayed now
  squares : ∀ s id, w.grid.occupant? s = some id ↔
    v.grid.occupant? s = some id ∧ ¬ v.Decayed now id
  /-- Each layer of what is gone, in the order of the ids and of the layers. -/
  told : notices = (v.departed w).flatMap noticesFor
  spared : ∀ id o, v.find? id = some o → o.obstacle = true → w.find? id = some o
  maze : v.maze = .ofObstacles v.dims v.obstaclePositions →
    w.maze = v.maze ∧ w.maze = .ofObstacles w.dims w.obstaclePositions
  dims : w.dims = v.dims
  idle : (∀ id, ¬ v.Decayed now id) → w = v ∧ notices = []
  again : w.sweep now = ([], w)

/-! ## The table -/

theorem find?_sweep_eq_some_iff {id : String} {o : Object} :
    (w.sweep now).2.find? id = some o ↔ w.find? id = some o ∧ ¬ o.Decayed now := by
  rw [find?_sweep, Option.filter_eq_some_iff, Bool.not_eq_true', ← Bool.not_eq_true,
    Object.isExpired_iff]

theorem sweep_sweep (w : World) (now : Float) :
    (w.sweep now).2.sweep now = ([], (w.sweep now).2) := by
  refine sweep_eq_self fun id hdecayed => ?_
  obtain ⟨o, ho, htime⟩ := hdecayed
  exact (find?_sweep_eq_some_iff.mp ho).2 htime

/-! ## The grid -/

theorem Filed.occupant?_removeAll (h : Filed w) (doomed : List Object) (s : Square) (id : String) :
    (doomed.foldl (fun w o => w.remove o.id) w).grid.occupant? s = some id ↔
      w.grid.occupant? s = some id ∧ id ∉ doomed.map (·.id) := by
  induction doomed generalizing w with
  | nil => simp
  | cons o doomed ih =>
      rw [List.foldl_cons, ih (h.remove o.id), h.occupant?_remove, List.map_cons, List.mem_cons,
        not_or, and_assoc]

theorem Filed.occupant?_sweep (h : Filed w) (now : Float) (s : Square) (id : String) :
    (w.sweep now).2.grid.occupant? s = some id ↔
      w.grid.occupant? s = some id ∧ ¬ w.Decayed now id := by
  by_cases hdecayed : ∃ id, w.Decayed now id
  · obtain ⟨x, hx⟩ := hdecayed
    rw [sweep_of_decayed hx, ← mem_expired_iff]
    exact h.occupant?_removeAll _ s id
  · have hnone : ∀ id, ¬ w.Decayed now id := fun id hid => hdecayed ⟨id, hid⟩
    rw [sweep_eq_self hnone]
    exact (and_iff_left (hnone id)).symm

/-! ## The maze -/

theorem find?_sweep_of_obstacle (h : Holds Object.Made w) {id : String} {o : Object}
    (ho : w.find? id = some o) (hobstacle : o.obstacle = true) :
    (w.sweep now).2.find? id = some o := by
  refine find?_sweep_eq_some_iff.mpr ⟨ho, fun hdecayed => ?_⟩
  have hpersistent := (h id o ho).persistent hobstacle
  rw [hdecayed.1] at hpersistent
  cases hpersistent

theorem filter_obstacle_sweep (h : Holds Object.Made w) (now : Float) (id : String) :
    ((w.sweep now).2.find? id).filter (·.obstacle) = (w.find? id).filter (·.obstacle) := by
  ext o
  simp only [Option.filter_eq_some_iff]
  constructor
  · rintro ⟨ho, hobstacle⟩
    exact ⟨(find?_sweep_eq_some_iff.mp ho).1, hobstacle⟩
  · rintro ⟨ho, hobstacle⟩
    exact ⟨find?_sweep_of_obstacle h ho hobstacle, hobstacle⟩

/-- Rebuilding the maze of the obstacles changes nothing, for they are all still there. -/
theorem maze_sweep (h : Holds Object.Made w) (now : Float)
    (hmaze : w.maze = .ofObstacles w.dims w.obstaclePositions) :
    (w.sweep now).2.maze = w.maze ∧
      (w.sweep now).2.maze =
        .ofObstacles (w.sweep now).2.dims (w.sweep now).2.obstaclePositions := by
  by_cases hdecayed : ∃ id, w.Decayed now id
  · obtain ⟨x, hx⟩ := hdecayed
    have hrebuilt : (w.sweep now).2.maze =
        .ofObstacles (w.sweep now).2.dims (w.sweep now).2.obstaclePositions := by
      rw [sweep_of_decayed hx]
      rfl
    exact ⟨maze_eq_of_obstacles (dims_sweep w now) hrebuilt hmaze (filter_obstacle_sweep h now),
      hrebuilt⟩
  · rw [sweep_eq_self fun id hid => hdecayed ⟨id, hid⟩]
    exact ⟨rfl, hmaze⟩

/-! ## The sweep -/

/-- Whatever led to a world of made objects, a sweep takes what has decayed and nothing else. -/
theorem ReachableWith.swept (h : ReachableWith d Object.Made w) (now : Float) :
    Swept now w (w.sweep now).2 (w.sweep now).1 where
  table _ _ := find?_sweep_eq_some_iff
  squares := h.reachable.filed.occupant?_sweep now
  told := (accounted_sweep w now).exact
  spared _ _ := find?_sweep_of_obstacle h.made
  maze := maze_sweep h.made now
  dims := dims_sweep w now
  idle hnone := by
    rw [sweep_eq_self hnone]
    exact ⟨rfl, rfl⟩
  again := sweep_sweep w now

def flare : Object :=
  { Object.ofKind .clickPointer "flare" ⟨5, 5⟩ with decay := some 2, layers := ["glow", "smoke"] }

/-- A wall whose square was claimed by a marker that decays, a marker without a decay time and a
player that has one but persists. -/
def campfire : World :=
  (((((World.empty ⟨64, 64, 32, 16⟩).perform (.insert (.wall "gate" ⟨0, 0⟩))).perform
    (.insert flare)).perform (.insert (.ofKind .pathPoint "trail" ⟨40, 0⟩))).perform
    (.insert { Object.player "scout" ⟨40, 40⟩ with decay := some 1 })).perform .rebuildMaze

theorem swept_campfire :
    ReachableWith ⟨64, 64, 32, 16⟩ Object.Made campfire ∧
      Swept 2 campfire (campfire.sweep 2).2 (campfire.sweep 2).1 ∧
      (campfire.sweep 2).1 = [⟨"flare", "glow"⟩, ⟨"flare", "smoke"⟩] ∧
      campfire.grid.squares = #[some "flare", some "trail", none, some "scout"] ∧
      (campfire.sweep 2).2.grid.squares = #[none, some "trail", none, some "scout"] := by
  have hflare : flare.Made :=
    .built (.edit (.fields _ _ _ _ _ _ _ .refl) (.ofKind .clickPointer "flare" ⟨5, 5⟩))
  have hscout : Object.Made { Object.player "scout" ⟨40, 40⟩ with decay := some 1 } :=
    .built (.edit (.fields _ _ _ _ _ _ _ .refl) (.ofKind .player "scout" ⟨40, 40⟩))
  have h : ReachableWith ⟨64, 64, 32, 16⟩ Object.Made campfire :=
    .perform _ trivial (.perform _ hscout
      (.perform _ (.built (.ofKind .pathPoint "trail" ⟨40, 0⟩)) (.perform _ hflare
        (.perform _ (.built (.ofKind .wall "gate" ⟨0, 0⟩)) .empty))))
  exact ⟨h, h.swept 2, by decide +kernel, by decide +kernel, by decide +kernel⟩

end TileWorld.World
