import TileWorld.Geometry

/-! The mounds of walls of every channel, and the squares where its player and its agents prefer to
start. -/

namespace TileWorld

/-- A rectangle of walls. -/
structure Mound where
  col : Nat
  row : Nat
  width : Nat
  height : Nat
  deriving DecidableEq, Repr

namespace Mound

def squares (m : Mound) : List Square :=
  (List.range' m.row m.height).flatMap fun row =>
    (List.range' m.col m.width).map fun col => ⟨col, row⟩

theorem mem_squares {m : Mound} {s : Square} :
    s ∈ m.squares ↔
      (m.col ≤ s.col ∧ s.col < m.col + m.width) ∧ (m.row ≤ s.row ∧ s.row < m.row + m.height) := by
  obtain ⟨col, row⟩ := s
  simp only [squares, List.mem_flatMap, List.mem_map, List.mem_range'_1, Square.mk.injEq]
  grind

end Mound

structure Layout where
  mounds : List Mound
  /-- Where the player may start; one of them is drawn. -/
  playerStarts : List Square
  /-- Where each agent prefers to start. -/
  agentStarts : List Square

/-- Where the player starts when the square that was drawn is blocked. -/
def fallbackStart : Square := ⟨2, 2⟩

def defaultChannel : String := "channel-alpha"

def Layout.ofChannel : String → Layout
  | "channel-alpha" => {
      mounds := [⟨10, 10, 4, 4⟩, ⟨20, 8, 2, 12⟩, ⟨30, 30, 6, 3⟩, ⟨45, 15, 3, 10⟩, ⟨8, 40, 12, 2⟩,
        ⟨50, 50, 5, 5⟩, ⟨12, 12, 3, 3⟩]
      playerStarts := [⟨2, 2⟩, ⟨60, 2⟩, ⟨2, 60⟩]
      agentStarts := [⟨12, 12⟩, ⟨32, 20⟩] }
  | "channel-beta" => {
      mounds := [⟨16, 16, 32, 2⟩, ⟨16, 46, 32, 2⟩, ⟨16, 18, 2, 10⟩, ⟨46, 36, 2, 10⟩,
        ⟨30, 26, 4, 12⟩]
      playerStarts := [⟨32, 4⟩, ⟨32, 60⟩]
      agentStarts := [⟨31, 30⟩, ⟨8, 8⟩] }
  | _ => {
      mounds := [⟨12, 12, 3, 3⟩, ⟨40, 20, 4, 4⟩, ⟨24, 44, 6, 2⟩]
      playerStarts := [fallbackStart]
      agentStarts := [⟨20, 20⟩] }

end TileWorld
