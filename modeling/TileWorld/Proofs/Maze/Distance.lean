import Mathlib.Data.List.Nodup
import Mathlib.Data.List.Perm.Subperm
import TileWorld.Proofs.Maze.Walk

/-! What a search is measured against: the routes between two cells and the numbers of their steps.
-/

namespace TileWorld

/-- Walking to a neighbour saves one step at most. -/
theorem Cell.Adjacent.manhattan_le {a b : Cell} (h : a.Adjacent b) (goal : Cell) :
    a.manhattan goal ≤ b.manhattan goal + 1 := by
  unfold Cell.Adjacent at h
  unfold Cell.manhattan
  omega

namespace Maze

variable {m : Maze} {start goal a : Cell} {n : ℕ}

/-- A walk from `start` to `goal`, both included; the start may be blocked. -/
structure IsRoute (m : Maze) (start goal : Cell) (cells : List Cell) : Prop where
  walk : m.IsWalk cells
  first : cells.head? = some start
  last : cells.getLast? = some goal

theorem isRoute_singleton (m : Maze) (c : Cell) : m.IsRoute c c [c] :=
  ⟨List.isChain_singleton c, rfl, rfl⟩

/-- Cells that a walk from `start` reaches in exactly so many steps. -/
inductive Reaches (m : Maze) (start : Cell) : ℕ → Cell → Prop
  | refl : Reaches m start 0 start
  | step {n : ℕ} {a b : Cell} :
      Reaches m start n a → b ∈ m.neighbours a → Reaches m start (n + 1) b

theorem Reaches.inBounds (h : m.Reaches start n a) (hstart : m.inBounds start = true) :
    m.inBounds a = true := by
  cases h with
  | refl => exact hstart
  | step _ hnext => exact inBounds_of_mem_neighbours hnext

theorem Reaches.walk (h : m.Reaches start n a) {rest : List Cell} (hwalk : m.IsWalk (a :: rest))
    (hlast : (a :: rest).getLast? = some goal) : m.Reaches start (n + rest.length) goal := by
  induction rest generalizing a n with
  | nil =>
      cases hlast
      exact h
  | cons b rest ih =>
      obtain ⟨hnext, hwalk⟩ := List.isChain_cons_cons.mp hwalk
      rw [List.getLast?_cons_cons] at hlast
      have hb := ih (h.step (mem_neighbours.mpr hnext)) hwalk hlast
      rwa [Nat.add_right_comm] at hb

theorem IsRoute.reaches {cells : List Cell} (h : m.IsRoute start goal cells) :
    ∃ n, cells.length = n + 1 ∧ m.Reaches start n goal := by
  obtain ⟨hwalk, hfirst, hlast⟩ := h
  cases cells with
  | nil => cases hfirst
  | cons c rest =>
      cases hfirst
      refine ⟨rest.length, rfl, ?_⟩
      simpa using Reaches.refl.walk hwalk hlast

theorem IsWalk.of_mem_tail {cells : List Cell} (h : m.IsWalk cells) :
    ∀ c ∈ cells.tail, m.isWalkable c = true := by
  induction cells with
  | nil => exact nofun
  | cons a rest ih =>
      cases rest with
      | nil => exact nofun
      | cons b rest =>
          obtain ⟨hb, hwalk⟩ := List.isChain_cons_cons.mp h
          exact List.forall_mem_cons.mpr ⟨hb.2, ih hwalk⟩

/-- Different cells of a maze are not more than its tiles. -/
theorem length_le_of_nodup {cells : List Cell} (hnodup : cells.Nodup)
    (hin : ∀ c ∈ cells, m.inBounds c = true) : cells.length ≤ m.rows * m.cols := by
  have hplaces : (cells.map m.index).Nodup :=
    hnodup.map_on fun c hc d hd => index_inj (hin c hc) (hin d hd)
  have hsub : cells.map m.index ⊆ List.range (m.rows * m.cols) := by
    intro i hi
    obtain ⟨c, hc, rfl⟩ := List.mem_map.mp hi
    exact List.mem_range.mpr (m.size_tiles ▸ index_lt (hin c hc))
  simpa using (hplaces.subperm hsub).length_le

theorem length_neighbours_le (m : Maze) (c : Cell) : (m.neighbours c).length ≤ 4 := by
  refine (List.length_filter_le _ _).trans ?_
  split <;> split <;> simp

end Maze

end TileWorld
