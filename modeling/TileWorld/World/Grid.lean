import TileWorld.Geometry

/-! A square of the grid is filled by the object filed there last, and emptied only by the object
that it names. -/

namespace TileWorld

structure Grid where
  cols : Nat
  rows : Nat
  /-- Row by row, the object filed in a square. -/
  squares : Array (Option String)
  size_squares : squares.size = cols * rows

namespace Grid

def ofDims (d : Dims) : Grid :=
  ⟨d.gridCols, d.gridRows, Array.replicate (d.gridCols * d.gridRows) none, Array.size_replicate⟩

instance : Inhabited Grid := ⟨⟨0, 0, #[], rfl⟩⟩

def inBounds (g : Grid) (s : Square) : Bool := s.col < g.cols && s.row < g.rows

def index (g : Grid) (s : Square) : Nat := s.row * g.cols + s.col

/-- The object filed in a square, none outside the grid. -/
def occupant? (g : Grid) (s : Square) : Option String :=
  if g.inBounds s then (g.squares[g.index s]?).join else none

/-- Fills or empties a square; one outside the grid changes nothing. -/
def set (g : Grid) (s : Square) (occupant : Option String) : Grid :=
  if g.inBounds s then
    { g with
      squares := g.squares.setIfInBounds (g.index s) occupant
      size_squares := by simpa using g.size_squares }
  else g

def file (g : Grid) (s : Square) (id : String) : Grid := g.set s (some id)

/-- Empties a square if it names `id`. -/
def vacate (g : Grid) (s : Square) (id : String) : Grid :=
  if g.occupant? s = some id then g.set s none else g

/-- The filled squares, row by row. -/
def filled (g : Grid) : List (Square × String) :=
  (List.range g.rows).flatMap fun row =>
    (List.range g.cols).filterMap fun col =>
      (g.occupant? ⟨col, row⟩).map fun id => (⟨col, row⟩, id)

@[simp]
theorem cols_set (g : Grid) (s : Square) (o : Option String) : (g.set s o).cols = g.cols := by
  unfold set; split <;> rfl

@[simp]
theorem rows_set (g : Grid) (s : Square) (o : Option String) : (g.set s o).rows = g.rows := by
  unfold set; split <;> rfl

theorem inBounds_iff {g : Grid} {s : Square} :
    g.inBounds s = true ↔ s.col < g.cols ∧ s.row < g.rows := by
  simp [inBounds]

@[simp]
theorem inBounds_set (g : Grid) (s t : Square) (o : Option String) :
    (g.set s o).inBounds t = g.inBounds t := by
  simp [inBounds]

theorem index_lt {g : Grid} {s : Square} (h : g.inBounds s = true) :
    g.index s < g.squares.size := by
  obtain ⟨hcol, hrow⟩ := inBounds_iff.1 h
  rw [g.size_squares, index, Nat.mul_comm g.cols]
  have := Nat.mul_le_mul_right g.cols (Nat.succ_le_of_lt hrow)
  rw [Nat.succ_mul] at this
  omega

theorem index_inj {g : Grid} {s t : Square} (hs : g.inBounds s = true) (ht : g.inBounds t = true)
    (h : g.index s = g.index t) : s = t := by
  obtain ⟨scol, srow⟩ := s
  obtain ⟨tcol, trow⟩ := t
  have hs := (inBounds_iff.1 hs).1
  have ht := (inBounds_iff.1 ht).1
  simp only [index] at h hs ht
  have hcol : scol = tcol := by
    have := congrArg (· % g.cols) h
    simpa [Nat.mul_add_mod_of_lt, Nat.mod_eq_of_lt, hs, ht, Nat.mul_comm] using this
  have hrow : srow = trow :=
    Nat.eq_of_mul_eq_mul_right (Nat.zero_lt_of_lt hs) (by omega)
  rw [hcol, hrow]

theorem occupant?_set (g : Grid) (s t : Square) (o : Option String) :
    (g.set s o).occupant? t = if t = s ∧ g.inBounds s then o else g.occupant? t := by
  unfold occupant?
  rw [inBounds_set]
  by_cases hs : g.inBounds s
  · by_cases ht : g.inBounds t
    · have hi : (g.set s o).index t = g.index t := by simp [index]
      have hq : (g.set s o).squares = g.squares.setIfInBounds (g.index s) o := by simp [set, hs]
      rw [hi, hq]
      by_cases h : t = s
      · subst h
        simp [hs, index_lt hs]
      · have hne : g.index s ≠ g.index t := fun he => h (index_inj hs ht he).symm
        simp [ht, h, hne]
    · have h : t ≠ s := fun he => ht (he ▸ hs)
      simp [ht, h]
  · simp [hs, set]

theorem occupant?_file (g : Grid) (s t : Square) (id : String) :
    (g.file s id).occupant? t = if t = s ∧ g.inBounds s then some id else g.occupant? t :=
  occupant?_set g s t (some id)

theorem occupant?_vacate (g : Grid) (s t : Square) (id : String) :
    (g.vacate s id).occupant? t =
      if t = s ∧ g.occupant? s = some id then none else g.occupant? t := by
  unfold vacate
  split
  · rename_i h
    have hs : g.inBounds s = true := by
      unfold occupant? at h
      split at h
      · assumption
      · cases h
    simp [occupant?_set, hs, h]
  · rename_i h
    simp [h]

@[simp]
theorem occupant?_ofDims (d : Dims) (s : Square) : (ofDims d).occupant? s = none := by
  unfold occupant?
  split
  · rename_i h
    have hi := index_lt h
    simp only [ofDims] at hi ⊢
    simp_all
  · rfl

end Grid

end TileWorld
