import TileWorld.Proofs.Maze.Settling

/-! The search finds a route exactly if there is one, and none is shorter. -/

namespace TileWorld.Maze

variable {m : Maze} {start goal : Cell} {path cells : List Cell}

/-- Either no walk leads to the goal, or the search ends with a route that visits no cell twice and
takes no more steps than any walk. -/
theorem findPath_cases (hstart : m.inBounds start = true) (hgoal : m.isWalkable goal = true) :
    (m.findPath start goal = none ∧ ∀ n, ¬ m.Reaches start n goal) ∨
      ∃ path, m.findPath start goal = some path ∧ m.IsRoute start goal path ∧ path.Nodup ∧
        ∀ n, m.Reaches start n goal → path.length ≤ n + 1 := by
  rw [findPath, if_neg (by simp [hstart, hgoal])]
  split
  · rename_i heq
    subst heq
    exact .inr ⟨_, rfl, m.isRoute_singleton start, List.nodup_singleton _,
      fun n _ => Nat.le_add_left 1 n⟩
  · obtain ⟨hrun, hnone⟩ | ⟨t, v, hrun, hvalid, hvisit, hleast⟩ :=
      (Search.explored_start hstart goal).run (Search.budget_start m goal start)
    · exact .inl ⟨by rw [hrun]; rfl, hnone⟩
    · have hin := inBounds_of_isWalkable hgoal
      refine .inr ⟨_, by rw [hrun]; rfl, hvalid.isRoute_trace hin hvisit,
        hvalid.nodup_trace hin hvisit _, ?_⟩
      intro n hreach
      have hlength := hvalid.length_trace_le hin hvisit (m.rows * m.cols) []
      have hcost := hleast n hreach
      rw [List.length_nil] at hlength
      omega

/-- No route to the goal has fewer cells than the one found. -/
theorem length_le_of_findPath (h : m.findPath start goal = some path)
    (hroute : m.IsRoute start goal cells) : path.length ≤ cells.length := by
  obtain ⟨hstart, hgoal, -⟩ := findPath_eq_some_cases h
  obtain ⟨n, hlength, hreach⟩ := hroute.reaches
  obtain ⟨hnone, -⟩ | ⟨found, hfound, -, -, hleast⟩ := findPath_cases hstart hgoal
  · cases hnone.symm.trans h
  · cases hfound.symm.trans h
    exact hlength ▸ hleast n hreach

def cornered : Maze :=
  (free 3 3).block [⟨0, 0⟩, ⟨0, 1⟩]

theorem length_le_detour :
    cornered.findPath ⟨0, 0⟩ ⟨0, 2⟩ = some [⟨0, 0⟩, ⟨1, 0⟩, ⟨1, 1⟩, ⟨1, 2⟩, ⟨0, 2⟩] ∧
      cornered.IsRoute ⟨0, 0⟩ ⟨0, 2⟩
        [⟨0, 0⟩, ⟨1, 0⟩, ⟨2, 0⟩, ⟨2, 1⟩, ⟨2, 2⟩, ⟨1, 2⟩, ⟨0, 2⟩] ∧ 5 ≤ 7 := by
  have hfind : cornered.findPath ⟨0, 0⟩ ⟨0, 2⟩ =
      some [⟨0, 0⟩, ⟨1, 0⟩, ⟨1, 1⟩, ⟨1, 2⟩, ⟨0, 2⟩] := by decide
  have hdetour : cornered.IsRoute ⟨0, 0⟩ ⟨0, 2⟩
      [⟨0, 0⟩, ⟨1, 0⟩, ⟨2, 0⟩, ⟨2, 1⟩, ⟨2, 2⟩, ⟨1, 2⟩, ⟨0, 2⟩] := ⟨by decide, rfl, rfl⟩
  exact ⟨hfind, hdetour, length_le_of_findPath hfind hdetour⟩

/-- A route is found exactly if the start lies in the maze, the goal is free and some route leads
there; what is found is a route through free cells that visits none of them twice. -/
theorem findPath_spec (m : Maze) (start goal : Cell) :
    ((m.findPath start goal).isSome = true ↔
      m.inBounds start = true ∧ m.isWalkable goal = true ∧
        ∃ cells, m.IsRoute start goal cells) ∧
    ∀ path, m.findPath start goal = some path →
      m.IsRoute start goal path ∧
        (∀ c ∈ path.tail, m.inBounds c = true ∧ m.isWalkable c = true) ∧ path.Nodup := by
  have hfound : ∀ path, m.findPath start goal = some path →
      m.IsRoute start goal path ∧ path.Nodup := by
    intro path h
    obtain ⟨hstart, hgoal, -⟩ := findPath_eq_some_cases h
    obtain ⟨hnone, -⟩ | ⟨found, heq, hroute, hnodup, -⟩ := findPath_cases hstart hgoal
    · cases hnone.symm.trans h
    · cases heq.symm.trans h
      exact ⟨hroute, hnodup⟩
  refine ⟨⟨?_, ?_⟩, ?_⟩
  · intro h
    obtain ⟨path, hpath⟩ := Option.isSome_iff_exists.mp h
    obtain ⟨hstart, hgoal, -⟩ := findPath_eq_some_cases hpath
    exact ⟨hstart, hgoal, path, (hfound path hpath).1⟩
  · rintro ⟨hstart, hgoal, cells, hroute⟩
    obtain ⟨n, -, hreach⟩ := hroute.reaches
    obtain ⟨-, hnone⟩ | ⟨path, hpath, -⟩ := findPath_cases hstart hgoal
    · exact absurd hreach (hnone n)
    · rw [hpath]
      rfl
  · intro path h
    obtain ⟨hroute, hnodup⟩ := hfound path h
    refine ⟨hroute, fun c hc => ?_, hnodup⟩
    have hwalkable := hroute.walk.of_mem_tail c hc
    exact ⟨inBounds_of_isWalkable hwalkable, hwalkable⟩

/-- An object on an obstacle walks off it. -/
theorem findPath_spec_blocked_start :
    cornered.isWalkable ⟨0, 0⟩ = false ∧
      (cornered.findPath ⟨0, 0⟩ ⟨1, 1⟩).isSome = true ∧
      cornered.IsRoute ⟨0, 0⟩ ⟨1, 1⟩ [⟨0, 0⟩, ⟨1, 0⟩, ⟨1, 1⟩] ∧
      List.Nodup [(⟨0, 0⟩ : Cell), ⟨1, 0⟩, ⟨1, 1⟩] := by
  obtain ⟨hiff, hpath⟩ := findPath_spec cornered ⟨0, 0⟩ ⟨1, 1⟩
  have hfind : cornered.findPath ⟨0, 0⟩ ⟨1, 1⟩ = some [⟨0, 0⟩, ⟨1, 0⟩, ⟨1, 1⟩] := by decide
  obtain ⟨hroute, -, hnodup⟩ := hpath _ hfind
  exact ⟨by decide, hiff.mpr ⟨by decide, by decide, _, hroute⟩, hroute, hnodup⟩

end TileWorld.Maze
