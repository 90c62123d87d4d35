import TileWorld.World.Basic

/-! # What a step of time leaves alone -/

namespace TileWorld.Object

theorem exists_advance (o : Object) (dt : Float32) :
    ∃ position cursor, (o.advance dt).1 = { o with position, cursor } := by
  rw [advance]
  split
  · exact ⟨o.position, o.cursor, rfl⟩
  · dsimp only
    split <;> exact ⟨_, _, rfl⟩

theorem exists_step (o : Object) (dt : Float32) (now : Float) :
    ∃ position path cursor wander,
      (o.step dt now).1 = { o with position, path, cursor, wander } ∧
        (path = o.path ∨ path = []) := by
  obtain ⟨position, cursor, hadvance⟩ := o.exists_advance dt
  rw [step]
  split
  · dsimp only
    split
    · exact ⟨position, [], 0, _, by rw [hadvance]; rfl, .inr rfl⟩
    · exact ⟨position, o.path, cursor, o.wander, hadvance, .inl rfl⟩
  · exact ⟨o.position, o.path, o.cursor, o.wander, rfl, .inl rfl⟩

@[simp]
theorem obstacle_step (o : Object) (dt : Float32) (now : Float) :
    (o.step dt now).1.obstacle = o.obstacle := by
  obtain ⟨_, _, _, _, h, -⟩ := o.exists_step dt now
  rw [h]

@[simp]
theorem persistent_step (o : Object) (dt : Float32) (now : Float) :
    (o.step dt now).1.persistent = o.persistent := by
  obtain ⟨_, _, _, _, h, -⟩ := o.exists_step dt now
  rw [h]

theorem path_step (o : Object) (dt : Float32) (now : Float) :
    (o.step dt now).1.path = o.path ∨ (o.step dt now).1.path = [] := by
  obtain ⟨_, _, _, _, h, hpath⟩ := o.exists_step dt now
  rw [h]
  exact hpath

/-- An object that reports no motion is left as it is. -/
theorem step_eq_self {o : Object} {dt : Float32} {now : Float} (h : (o.step dt now).2 = none) :
    (o.step dt now).1 = o := by
  rw [step] at h ⊢
  by_cases hpath : o.hasActivePath = true
  · simp only [hpath, if_true] at h
    split at h <;> cases h
  · simp [hpath]

/-- An object on its way reaches the next waypoint or keeps it before it. -/
theorem advance_cases {o : Object} (h : o.cursor < o.path.length) (dt : Float32) :
    (o.advance dt).1 = { o with position := o.path[o.cursor], cursor := o.cursor + 1 } ∨
      ∃ position, (o.advance dt).1 = { o with position } := by
  rw [advance, List.getElem?_eq_getElem h]
  dsimp only
  split
  · exact .inl rfl
  · exact .inr ⟨_, rfl⟩

theorem step_of_isPathComplete {o : Object} {dt : Float32} (hactive : o.hasActivePath = true)
    (h : (o.advance dt).1.isPathComplete = true) (now : Float) :
    (o.step dt now).1 = { (o.advance dt).1.clearPath with
      wander := (o.advance dt).1.wander.map fun w => { w with lastPath := now } } := by
  simp only [step, hactive, h, if_true]

theorem step_of_not_isPathComplete {o : Object} {dt : Float32} (hactive : o.hasActivePath = true)
    (h : ¬ (o.advance dt).1.isPathComplete = true) (now : Float) :
    (o.step dt now).1 = (o.advance dt).1 := by
  simp only [step, hactive, h, if_true, Bool.false_eq_true, if_false]

/-- A step either ends at the last waypoint, where the path is cleared and a wanderer begins its
rest, or it keeps the path and leaves waypoints exactly if there were any. -/
theorem step_cases (o : Object) (dt : Float32) (now : Float) :
    (o.hasActivePath = true ∧ o.path.getLast? = some (o.step dt now).1.position ∧
        (o.step dt now).1.hasActivePath = false ∧
        (o.step dt now).1.wander = o.wander.map fun w => { w with lastPath := now }) ∨
      ((o.step dt now).1.hasActivePath = o.hasActivePath ∧ (o.step dt now).1.path = o.path ∧
        (o.step dt now).1.wander = o.wander) := by
  by_cases hactive : o.hasActivePath = true
  · have hlt : o.cursor < o.path.length := of_decide_eq_true hactive
    rcases advance_cases hlt dt with hreached | ⟨position, hkept⟩
    · by_cases hlast : o.cursor + 1 = o.path.length
      · left
        have hne : o.path ≠ [] := List.ne_nil_of_length_pos (Nat.zero_lt_of_lt hlt)
        have hcomplete : (o.advance dt).1.isPathComplete = true := by
          simp [hreached, isPathComplete, hlast, hne]
        have hpoint : o.path.getLast? = some o.path[o.cursor] := by
          rw [List.getLast?_eq_getElem?, ← hlast, Nat.add_sub_cancel, List.getElem?_eq_getElem hlt]
        rw [step_of_isPathComplete hactive hcomplete, hreached]
        exact ⟨hactive, hpoint, rfl, rfl⟩
      · right
        have hcomplete : ¬ (o.advance dt).1.isPathComplete = true := by
          simp [hreached, isPathComplete, hlast]
        have hnext : o.cursor + 1 < o.path.length := by omega
        rw [step_of_not_isPathComplete hactive hcomplete, hreached, hactive]
        exact ⟨decide_eq_true hnext, rfl, rfl⟩
    · right
      have hcomplete : ¬ (o.advance dt).1.isPathComplete = true := by
        simp [hkept, isPathComplete, Nat.ne_of_lt hlt]
      rw [step_of_not_isPathComplete hactive hcomplete, hkept]
      exact ⟨rfl, rfl, rfl⟩
  · right
    simp [step, hactive]

theorem step_of_path_eq_nil {o : Object} (h : o.path = []) (dt : Float32) (now : Float) :
    (o.step dt now).1 = o := by
  simp [step, hasActivePath, h]

end TileWorld.Object
