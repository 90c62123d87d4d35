import Mathlib.Data.List.Chain
import TileWorld.Maze.Route
import TileWorld.Proofs.Maze.Raster

/-! Cells are linked to neighbours only, so the route read back from the links is a walk. -/

namespace TileWorld

/-- Cells that share a side. -/
def Cell.Adjacent (a b : Cell) : Prop :=
  (a.row = b.row ∧ (a.col + 1 = b.col ∨ b.col + 1 = a.col)) ∨
    (a.col = b.col ∧ (a.row + 1 = b.row ∨ b.row + 1 = a.row))

instance (a b : Cell) : Decidable (a.Adjacent b) :=
  inferInstanceAs (Decidable (_ ∨ _))

namespace Maze

/-- Each cell is adjacent to the one before it, and every cell after the first is walkable. -/
def IsWalk (m : Maze) (cells : List Cell) : Prop :=
  cells.IsChain fun a b => a.Adjacent b ∧ m.isWalkable b = true

instance (m : Maze) (cells : List Cell) : Decidable (m.IsWalk cells) :=
  inferInstanceAs (Decidable (cells.IsChain _))

theorem mem_neighbours {m : Maze} {a b : Cell} :
    b ∈ m.neighbours a ↔ a.Adjacent b ∧ m.isWalkable b = true := by
  obtain ⟨arow, acol⟩ := a
  obtain ⟨brow, bcol⟩ := b
  rw [neighbours, List.mem_filter]
  refine and_congr_left fun _ => ?_
  by_cases hrow : arow = 0 <;> by_cases hcol : acol = 0 <;>
    simp [Cell.Adjacent, hrow, hcol] <;> omega

theorem inBounds_of_mem_neighbours {m : Maze} {a b : Cell} (h : b ∈ m.neighbours a) :
    m.inBounds b = true :=
  inBounds_of_isWalkable (mem_neighbours.mp h).2

end Maze

namespace Search

variable {m : Maze} {goal : Cell} {s t : Search}

/-! ## Links -/

/-- The nodes that wait lie in the maze, and every recorded parent lies in the maze beside its
cell. -/
structure Linked (m : Maze) (s : Search) : Prop where
  sized : s.visits.size = m.tiles.size
  waiting : ∀ e ∈ s.frontier.toList, m.inBounds e.2.cell = true
  parents : ∀ c v p, m.inBounds c = true → s.visit? m c = some v → v.parent = some p →
    m.inBounds p = true ∧ c ∈ m.neighbours p

theorem visit?_enter {c d : Cell} (hsize : s.visits.size = m.tiles.size)
    (hc : m.inBounds c = true) (hd : m.inBounds d = true) (v : Visit) :
    (s.enter m goal c v).visit? m d = if d = c then some v else s.visit? m d := by
  simp only [visit?, enter]
  by_cases h : d = c
  · subst h
    have hlt : m.index d < s.visits.size := hsize ▸ Maze.index_lt hd
    simp [hlt]
  · have hne : m.index c ≠ m.index d := fun he => h (Maze.index_inj hc hd he).symm
    simp [h, hne]

theorem mem_frontier_enter {c : Cell} {v : Visit} {e : ℕ × Node} :
    e ∈ (s.enter m goal c v).frontier.toList ↔
      e = (v.cost + c.manhattan goal, ⟨v.cost, c⟩) ∨ e ∈ s.frontier.toList :=
  (Frontier.perm_push _ _ _).mem_iff.trans List.mem_cons

/-- Entering a cell from beside it, or from nowhere, keeps all links good. -/
theorem Linked.enter (h : Linked m s) {c : Cell} (hc : m.inBounds c = true) {v : Visit}
    (hv : ∀ p, v.parent = some p → m.inBounds p = true ∧ c ∈ m.neighbours p) :
    Linked m (s.enter m goal c v) := by
  refine ⟨by simpa [Search.enter] using h.sized, ?_, ?_⟩
  · intro e he
    rcases mem_frontier_enter.mp he with rfl | he
    · exact hc
    · exact h.waiting e he
  · intro d u p hd hu hp
    rw [visit?_enter h.sized hc hd] at hu
    by_cases hdc : d = c
    · rw [if_pos hdc, Option.some_inj] at hu
      subst hu hdc
      exact hv p hp
    · rw [if_neg hdc] at hu
      exact h.parents d u p hd hu hp

theorem linked_start {c : Cell} (hc : m.inBounds c = true) : Linked m (start m goal c) := by
  have hblank : Linked m ⟨.empty, Array.replicate (m.rows * m.cols) none⟩ := by
    refine ⟨by simp [m.size_tiles], by simp [Frontier.empty, Frontier.toList], ?_⟩
    intro d v p _ hv _
    rw [visit?, Array.getElem?_replicate] at hv
    split at hv <;> cases hv
  exact hblank.enter hc (by simp)

theorem Linked.pop (h : Linked m s) {node : Node} {rest : Frontier Node}
    (hpop : s.frontier.pop? = some (node, rest)) :
    m.inBounds node.cell = true ∧ Linked m { s with frontier := rest } := by
  obtain ⟨estimate, hlist⟩ := Frontier.toList_of_pop? hpop
  refine ⟨h.waiting (estimate, node) (hlist ▸ List.mem_cons_self), h.sized, ?_, h.parents⟩
  intro e he
  exact h.waiting e (hlist ▸ List.mem_cons_of_mem _ he)

theorem Linked.relax (h : Linked m s) {node : Node} {next : Cell}
    (hnode : m.inBounds node.cell = true) (hnext : next ∈ m.neighbours node.cell) :
    Linked m (relax m goal node s next) := by
  have hentered : Linked m (s.enter m goal next ⟨node.cost + 1, some node.cell⟩) := by
    refine h.enter (Maze.inBounds_of_mem_neighbours hnext) ?_
    rintro p ⟨⟩
    exact ⟨hnode, hnext⟩
  rw [Search.relax]
  split
  · split
    · exact h
    · exact hentered
  · exact hentered

theorem Linked.expand (h : Linked m s) {node : Node} (hnode : m.inBounds node.cell = true) :
    Linked m (s.expand m goal node) := by
  rw [Search.expand]
  split
  · split
    · exact List.foldlRecOn _ _ h fun _ hs _ hnext => hs.relax hnode hnext
    · exact h
  · exact h

/-! ## The route read back -/

theorem Linked.run (h : Linked m s) {bound : Nat} (hrun : run m goal bound s = some t) :
    Linked m t := by
  induction bound generalizing s with
  | zero => cases hrun
  | succ bound ih =>
      rw [Search.run] at hrun
      split at hrun
      · cases hrun
      · rename_i node frontier hpop
        obtain ⟨hnode, hpopped⟩ := h.pop hpop
        dsimp only at hrun
        split at hrun
        · cases hrun
          exact hpopped
        · exact ih (hpopped.expand hnode) hrun

theorem Linked.isWalk_trace (h : Linked m s) {bound : Nat} {c : Cell} {path : List Cell}
    (hc : m.inBounds c = true) (hwalk : m.IsWalk (c :: path)) :
    m.IsWalk (s.trace m bound c path) := by
  induction bound generalizing c path with
  | zero => exact hwalk
  | succ bound ih =>
      rw [Search.trace]
      split
      · exact hwalk
      · rename_i p hparent
        obtain ⟨v, hv, hp⟩ := Option.bind_eq_some_iff.mp hparent
        obtain ⟨hin, hnext⟩ := h.parents c v p hc hv hp
        exact ih hin (List.IsChain.cons_cons (Maze.mem_neighbours.mp hnext) hwalk)

theorem Linked.inBounds_trace (h : Linked m s) {bound : Nat} {c : Cell} {path : List Cell}
    (hc : m.inBounds c = true) (hpath : ∀ b ∈ path, m.inBounds b = true) :
    ∀ b ∈ s.trace m bound c path, m.inBounds b = true := by
  have hcons : ∀ b ∈ c :: path, m.inBounds b = true := List.forall_mem_cons.mpr ⟨hc, hpath⟩
  induction bound generalizing c path with
  | zero => exact hcons
  | succ bound ih =>
      rw [Search.trace]
      split
      · exact hcons
      · rename_i p hparent
        obtain ⟨v, hv, hp⟩ := Option.bind_eq_some_iff.mp hparent
        have hin := (h.parents c v p hc hv hp).1
        exact ih hin hcons (List.forall_mem_cons.mpr ⟨hin, hcons⟩)

theorem trace_ne_nil (m : Maze) (s : Search) (bound : Nat) (c : Cell) (path : List Cell) :
    s.trace m bound c path ≠ [] := by
  induction bound generalizing c path with
  | zero => exact List.cons_ne_nil c path
  | succ bound ih =>
      rw [Search.trace]
      split
      · exact List.cons_ne_nil c path
      · rename_i parent _
        exact ih parent (c :: path)

theorem length_trace_le (m : Maze) (s : Search) (bound : Nat) (c : Cell) (path : List Cell) :
    (s.trace m bound c path).length ≤ bound + 1 + path.length := by
  induction bound generalizing c path with
  | zero => simp [Search.trace, Nat.add_comm]
  | succ bound ih =>
      rw [Search.trace]
      split
      · simp only [List.length_cons]
        omega
      · rename_i p _
        have hlength := ih p (c :: path)
        simp only [List.length_cons] at hlength
        omega

end Search

namespace Maze

variable {m : Maze} {start goal : Cell} {cells : List Cell}

/-- What is found is the start alone or is read back from a search that ended at the goal. -/
theorem findPath_eq_some_cases (h : m.findPath start goal = some cells) :
    m.inBounds start = true ∧ m.isWalkable goal = true ∧
      (cells = [start] ∨ ∃ t, Search.Linked m t ∧ cells = t.trace m (m.rows * m.cols) goal []) := by
  rw [findPath] at h
  split at h
  · cases h
  · rename_i hends
    obtain ⟨hstart, hgoal⟩ : m.inBounds start = true ∧ m.isWalkable goal = true := by
      simpa using hends
    refine ⟨hstart, hgoal, ?_⟩
    split at h
    · cases h
      exact .inl rfl
    · obtain ⟨t, hrun, rfl⟩ := Option.map_eq_some_iff.mp h
      exact .inr ⟨t, (Search.linked_start hstart).run hrun, rfl⟩

/-- Every route found is a walk. -/
theorem isWalk_of_findPath (h : m.findPath start goal = some cells) : m.IsWalk cells := by
  obtain ⟨-, hgoal, rfl | ⟨t, ht, rfl⟩⟩ := findPath_eq_some_cases h
  · exact List.isChain_singleton start
  · exact ht.isWalk_trace (inBounds_of_isWalkable hgoal) (List.isChain_singleton goal)

/-- Every route found stays in the maze, and is not longer than the maze has cells and one. -/
theorem inBounds_of_findPath (h : m.findPath start goal = some cells) :
    (∀ c ∈ cells, m.inBounds c = true) ∧ cells.length ≤ m.rows * m.cols + 1 := by
  obtain ⟨hstart, hgoal, rfl | ⟨t, ht, rfl⟩⟩ := findPath_eq_some_cases h
  · simp [hstart]
  · exact ⟨ht.inBounds_trace (inBounds_of_isWalkable hgoal) nofun,
      Search.length_trace_le m t _ goal []⟩

theorem ne_nil_of_findPath (h : m.findPath start goal = some cells) : cells ≠ [] := by
  obtain ⟨-, -, rfl | ⟨t, -, rfl⟩⟩ := findPath_eq_some_cases h
  · exact List.cons_ne_nil start []
  · exact Search.trace_ne_nil m t _ goal []

end Maze

end TileWorld
