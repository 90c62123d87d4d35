import Mathlib.Data.Finset.Prod
import Mathlib.Data.Fintype.Fin
import TileWorld.Proofs.Maze.Raster

/-! A maze of known extent is the set of its blocked cells, and rasterizing obstacles is the union
of their footprints. -/

namespace TileWorld.Maze

variable {m n : Maze} {d : Dims} {c : Cell}

/-! ## Sets of cells -/

/-- The cells of a maze. -/
def cells (m : Maze) : Finset Cell :=
  (Finset.range m.rows ×ˢ Finset.range m.cols).image fun place => ⟨place.1, place.2⟩

def blockedCells (m : Maze) : Finset Cell := m.cells.filter fun c => m.blocked? c = some true

/-- What some obstacles cover of the maze. -/
def covered (d : Dims) (positions : List Point) : Finset Cell :=
  (ofDims d).cells.filter fun c => ∃ p ∈ positions, c ∈ d.footprint p

/-- Rasterizes further obstacles onto a maze. -/
def rasterize (d : Dims) (m : Maze) (positions : List Point) : Maze :=
  positions.foldl (fun m p => m.block (d.footprint p)) m

/-- Rasterizing onto the maze of `d`, as an operation on sets of cells. -/
structure UnitesFootprints (d : Dims) : Prop where
  blocked_iff : ∀ positions c, (ofObstacles d positions).blocked? c = some true ↔
    (ofDims d).inBounds c = true ∧ ∃ p ∈ positions, c ∈ d.footprint p
  walkable_iff : ∀ positions c, (ofObstacles d positions).isWalkable c = true ↔
    (ofDims d).inBounds c = true ∧ ∀ p ∈ positions, c ∉ d.footprint p
  /-- A covered cell takes one tile, however many obstacles cover it. -/
  count : ∀ positions, (ofObstacles d positions).blockedCount = (covered d positions).card
  /-- Order and repetitions do not matter. -/
  same : ∀ positions others, (∀ p, p ∈ positions ↔ p ∈ others) →
    ofObstacles d positions = ofObstacles d others
  /-- What obstacles cover of the maze is all that can be told from it. -/
  eq_iff : ∀ positions others,
    ofObstacles d positions = ofObstacles d others ↔ covered d positions = covered d others
  /-- One list after the other gives the maze of both lists, and in it the union. -/
  sequel : ∀ positions others,
    rasterize d (ofObstacles d positions) others = ofObstacles d (positions ++ others) ∧
      (rasterize d (ofObstacles d positions) others).blockedCells =
        (ofObstacles d positions).blockedCells ∪ (ofObstacles d others).blockedCells
  /-- More obstacles free no cell, wherever they stand in the list. -/
  grows : ∀ positions others, positions ⊆ others →
    (ofObstacles d positions).blockedCells ⊆ (ofObstacles d others).blockedCells

@[simp]
theorem mem_cells : c ∈ m.cells ↔ m.inBounds c = true := by
  obtain ⟨row, col⟩ := c
  simp [cells, inBounds]

@[simp]
theorem mem_blockedCells : c ∈ m.blockedCells ↔ m.blocked? c = some true := by
  rw [blockedCells, Finset.mem_filter, mem_cells, and_iff_right_iff_imp]
  intro h
  by_contra hout
  rw [blocked?_of_not_inBounds hout] at h
  cases h

theorem isWalkable_iff_notMem_blockedCells :
    m.isWalkable c = true ↔ m.inBounds c = true ∧ c ∉ m.blockedCells := by
  rw [isWalkable, beq_iff_eq, mem_blockedCells]
  by_cases hc : m.inBounds c = true
  · obtain ⟨b, hb⟩ := blocked?_of_inBounds hc
    cases b <;> simp [hb, hc]
  · simp [blocked?_of_not_inBounds hc, hc]

@[simp]
theorem mem_covered {positions : List Point} :
    c ∈ covered d positions ↔
      (ofDims d).inBounds c = true ∧ ∃ p ∈ positions, c ∈ d.footprint p := by
  rw [covered, Finset.mem_filter, mem_cells]

/-! ## Tiles and cells -/

theorem mem_blockedCells_iff_tile :
    c ∈ m.blockedCells ↔ m.inBounds c = true ∧ m.tiles[m.index c]? = some true := by
  rw [mem_blockedCells, blocked?]
  split <;> simp_all

/-- Every tile belongs to a cell. -/
theorem exists_index_eq {i : ℕ} (hi : i < m.tiles.size) :
    ∃ c, m.inBounds c = true ∧ m.index c = i := by
  rw [m.size_tiles] at hi
  have hcols : 0 < m.cols := Nat.pos_of_lt_mul_left hi
  refine ⟨⟨i / m.cols, i % m.cols⟩, inBounds_iff.mpr ⟨?_, Nat.mod_lt i hcols⟩, ?_⟩
  · exact Nat.div_lt_of_lt_mul (Nat.mul_comm m.rows m.cols ▸ hi)
  · exact Nat.div_add_mod' i m.cols

/-- A maze is determined by its extent and its blocked cells. -/
theorem ext_blockedCells (hrows : m.rows = n.rows) (hcols : m.cols = n.cols)
    (hblocked : m.blockedCells = n.blockedCells) : m = n := by
  have htile : ∀ i (hm : i < m.tiles.size) (hn : i < n.tiles.size), m.tiles[i] = n.tiles[i] := by
    intro i hm hn
    obtain ⟨c, hc, rfl⟩ := exists_index_eq hm
    have hindex : n.index c = m.index c := by rw [index, index, hcols]
    have hc' : n.inBounds c = true := inBounds_iff.mpr (hrows ▸ hcols ▸ inBounds_iff.mp hc)
    have hiff := Finset.ext_iff.mp hblocked c
    rw [mem_blockedCells_iff_tile, mem_blockedCells_iff_tile, and_iff_right hc,
      and_iff_right hc', hindex, Array.getElem?_eq_getElem hm, Array.getElem?_eq_getElem hn,
      Option.some_inj, Option.some_inj] at hiff
    exact Bool.eq_iff_iff.mpr hiff
  obtain ⟨rows, cols, tiles, hsize⟩ := m
  obtain ⟨rows', cols', tiles', hsize'⟩ := n
  obtain rfl : rows = rows' := hrows
  obtain rfl : cols = cols' := hcols
  obtain rfl : tiles = tiles' := Array.ext (hsize.trans hsize'.symm) htile
  rfl

theorem card_blockedCells (m : Maze) : m.blockedCells.card = m.blockedCount := by
  have htiles : (Finset.univ.filter fun i : Fin m.tiles.size => m.tiles[i] = true).card =
      m.blockedCount := by
    rw [blockedCount, ← Array.count_toList]
    exact Fin.card_filter_univ_eq_vector_get_eq_count true ⟨m.tiles.toList, rfl⟩
  have hin : ∀ c ∈ m.blockedCells, m.inBounds c = true :=
    fun c hc => (mem_blockedCells_iff_tile.mp hc).1
  rw [← htiles]
  -- The place of a cell is a bijection from the blocked cells to the blocked tiles.
  refine Finset.card_bij (fun c hc => ⟨m.index c, index_lt (hin c hc)⟩) ?_ ?_ ?_
  · intro c hc
    obtain ⟨hbounds, htile⟩ := mem_blockedCells_iff_tile.mp hc
    rw [Array.getElem?_eq_getElem (index_lt hbounds)] at htile
    simpa using htile
  · intro c hc c' hc' heq
    exact index_inj (hin c hc) (hin c' hc') (Fin.val_eq_of_eq heq)
  · rintro ⟨i, hi⟩ htile
    obtain ⟨c, hc, rfl⟩ := exists_index_eq hi
    refine ⟨c, mem_blockedCells_iff_tile.mpr ⟨hc, ?_⟩, rfl⟩
    rw [Array.getElem?_eq_getElem hi]
    simpa using htile

/-! ## Unions -/

theorem blockedCells_block (m : Maze) (cells : List Cell) :
    (m.block cells).blockedCells = m.blockedCells ∪ m.cells.filter (· ∈ cells) := by
  ext c
  rw [mem_blockedCells, blocked?_block, Finset.mem_union, mem_blockedCells, Finset.mem_filter,
    mem_cells]
  by_cases hc : m.inBounds c = true
  · obtain ⟨b, hb⟩ := blocked?_of_inBounds hc
    simp [hb, hc]
  · simp [blocked?_of_not_inBounds hc, hc]

theorem blockedCells_ofDims (d : Dims) : (ofDims d).blockedCells = ∅ := by
  refine Finset.eq_empty_of_forall_notMem fun c hc => ?_
  rw [mem_blockedCells, ofDims, blocked?_free] at hc
  split at hc <;> simp at hc

theorem blockedCells_ofObstacles (d : Dims) (positions : List Point) :
    (ofObstacles d positions).blockedCells = covered d positions := by
  rw [ofObstacles_eq_block, blockedCells_block, blockedCells_ofDims, Finset.empty_union, covered]
  simp only [List.mem_flatMap]

theorem covered_append (d : Dims) (positions others : List Point) :
    covered d (positions ++ others) = covered d positions ∪ covered d others := by
  ext c
  simp only [mem_covered, Finset.mem_union, List.mem_append, or_and_right, exists_or, and_or_left]

theorem covered_subset {positions others : List Point} (h : positions ⊆ others) :
    covered d positions ⊆ covered d others := by
  intro c hc
  obtain ⟨hin, p, hp, hcover⟩ := mem_covered.mp hc
  exact mem_covered.mpr ⟨hin, p, h hp, hcover⟩

theorem rasterize_ofObstacles (d : Dims) (positions others : List Point) :
    rasterize d (ofObstacles d positions) others = ofObstacles d (positions ++ others) :=
  List.foldl_append.symm

theorem ofObstacles_eq_iff {positions others : List Point} :
    ofObstacles d positions = ofObstacles d others ↔ covered d positions = covered d others := by
  rw [← blockedCells_ofObstacles, ← blockedCells_ofObstacles]
  constructor
  · intro h
    rw [h]
  · exact ext_blockedCells (by simp) (by simp)

theorem isWalkable_ofObstacles_iff {positions : List Point} :
    (ofObstacles d positions).isWalkable c = true ↔
      (ofDims d).inBounds c = true ∧ ∀ p ∈ positions, c ∉ d.footprint p := by
  have hin : (ofObstacles d positions).inBounds c = (ofDims d).inBounds c := by
    rw [inBounds, rows_ofObstacles, cols_ofObstacles]
    rfl
  rw [isWalkable_iff_notMem_blockedCells, hin, blockedCells_ofObstacles, mem_covered]
  constructor
  · rintro ⟨hc, hnot⟩
    exact ⟨hc, fun p hp hcover => hnot ⟨hc, p, hp, hcover⟩⟩
  · rintro ⟨hc, hfree⟩
    refine ⟨hc, ?_⟩
    rintro ⟨-, p, hp, hcover⟩
    exact hfree p hp hcover

/-- The maze of some obstacles is the union of their footprints, as far as they lie inside. -/
theorem unitesFootprints (d : Dims) : UnitesFootprints d where
  blocked_iff positions c := by
    rw [← mem_blockedCells, blockedCells_ofObstacles, mem_covered]
  walkable_iff _ _ := isWalkable_ofObstacles_iff
  count positions := by
    rw [← card_blockedCells, blockedCells_ofObstacles]
  same positions others h := by
    refine ofObstacles_eq_iff.mpr (Finset.Subset.antisymm ?_ ?_)
    · exact covered_subset fun p hp => (h p).mp hp
    · exact covered_subset fun p hp => (h p).mpr hp
  eq_iff _ _ := ofObstacles_eq_iff
  sequel positions others := by
    refine ⟨rasterize_ofObstacles d positions others, ?_⟩
    rw [rasterize_ofObstacles, blockedCells_ofObstacles, blockedCells_ofObstacles,
      blockedCells_ofObstacles, covered_append]
  grows positions others h := by
    rw [blockedCells_ofObstacles, blockedCells_ofObstacles]
    exact covered_subset h

/-- Two objects of two by two cells overlap in one column, and one of them is listed twice. -/
example : (ofObstacles ⟨320, 160, 32, 16⟩ [⟨16, 0⟩, ⟨0, 0⟩, ⟨16, 0⟩]).blockedCount = 6 := by
  decide +kernel

end TileWorld.Maze
