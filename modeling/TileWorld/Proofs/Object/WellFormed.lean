import TileWorld.Proofs.Object.Motion

/-! # Steps keep objects well formed -/

namespace TileWorld.Object

variable {o : Object}

/-- No obstacle decays, and a path has waypoints left. -/
structure WellFormed (o : Object) : Prop where
  obstacle : o.obstacle = true → o.persistent = true
  cursor : o.path = [] ∧ o.cursor = 0 ∨ o.cursor < o.path.length

/-- A cursor that has not run over the end stands before a waypoint, once a completed path has been
ruled out. -/
theorem cursor_cases (hle : o.cursor ≤ o.path.length) (hcomplete : o.isPathComplete = false) :
    o.path = [] ∧ o.cursor = 0 ∨ o.cursor < o.path.length := by
  by_cases hpath : o.path = []
  · rw [hpath, List.length_nil, Nat.le_zero] at hle
    exact .inl ⟨hpath, hle⟩
  · have hne : o.cursor ≠ o.path.length := by simpa [isPathComplete, hpath] using hcomplete
    exact .inr (Nat.lt_of_le_of_ne hle hne)

theorem WellFormed.isPathComplete (h : o.WellFormed) : o.isPathComplete = false := by
  rw [Object.isPathComplete]
  rcases h.cursor with ⟨hpath, -⟩ | hcursor
  · simp [hpath]
  · simp [Nat.ne_of_lt hcursor]

theorem WellFormed.setPath (h : o.WellFormed) (path : List Point) : (o.setPath path).WellFormed := by
  refine ⟨h.obstacle, ?_⟩
  cases path with
  | nil => exact .inl ⟨rfl, rfl⟩
  | cons p path => exact .inr (Nat.succ_pos _)

theorem cursor_advance_le (o : Object) (dt : Float32) :
    (o.advance dt).1.cursor ≤ o.cursor + 1 := by
  rw [advance]
  split
  · exact Nat.le_succ _
  · dsimp only
    split
    · exact Nat.le_refl _
    · exact Nat.le_succ _

/-- Time passes, and the end of a path is never left standing. -/
theorem WellFormed.step (h : o.WellFormed) (dt : Float32) (now : Float) :
    (o.step dt now).1.WellFormed := by
  by_cases hactive : o.hasActivePath = true
  · have hlt : o.cursor < o.path.length := of_decide_eq_true hactive
    have hle : (o.advance dt).1.cursor ≤ o.path.length :=
      Nat.le_trans (o.cursor_advance_le dt) hlt
    obtain ⟨position, cursor, hadvance⟩ := o.exists_advance dt
    by_cases hcomplete : (o.advance dt).1.isPathComplete = true
    · rw [step_of_isPathComplete hactive hcomplete, hadvance]
      exact ⟨h.obstacle, .inl ⟨rfl, rfl⟩⟩
    · rw [step_of_not_isPathComplete hactive hcomplete]
      rw [hadvance] at hle hcomplete ⊢
      exact ⟨h.obstacle, cursor_cases hle (Bool.eq_false_iff.mpr hcomplete)⟩
  · rw [Object.step, if_neg hactive]
    exact h

end TileWorld.Object
