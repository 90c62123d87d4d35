import TileWorld.Maze.Basic
import TileWorld.Proofs.Number.Rounding

/-! The footprint of an object against the cells between its exact bounds. -/

namespace TileWorld

/-- Row by row, and from left to right in a row. -/
def Cell.Before (a b : Cell) : Prop := a.row < b.row ∨ a.row = b.row ∧ a.col < b.col

theorem Cell.Before.ne {a b : Cell} (h : a.Before b) : a ≠ b := by
  rintro rfl
  rcases h with h | ⟨-, h⟩
  · exact absurd h (lt_irrefl _)
  · exact absurd h (lt_irrefl _)

namespace Dims

open Number

/-! ## What a footprint should be -/

/-- All sizes are finite and positive. -/
def Proper (d : Dims) : Prop :=
  ∀ size ∈ [d.width, d.height, d.cellSize, d.mazeCellSize], size.isFinite = true ∧ 0 < size

/-- The extents of the maze are 64-bit integers. -/
def Fits (d : Dims) : Prop := d.mazeCols < 2 ^ 63 ∧ d.mazeRows < 2 ^ 63

/-- Lattice interval `i` lies between the exact bounds of `[start, start + extent)`. -/
def Touches (start extent unit : Float32) (i : Nat) : Prop :=
  (Exact.ofSingle (start / unit)).FloorLe i ∧ (Exact.ofSingle ((start + extent) / unit)).LtCeil i

/-- The bound behind `[start, start + extent)` is the least 64-bit integer or lies below it. -/
def EndsBelow (start extent unit : Float32) : Prop :=
  ¬ (Exact.ofSingle ((start + extent) / unit)).LtCeil minInt64

/-- An object at `p` covers cell `c`. -/
def Covers (d : Dims) (p : Point) (c : Cell) : Prop :=
  Touches p.x d.cellSize d.mazeCellSize c.col ∧ Touches p.y d.cellSize d.mazeCellSize c.row

/-- An object at `p` ends too far to the left of the world or above it. -/
def Far (d : Dims) (p : Point) : Prop :=
  EndsBelow p.x d.cellSize d.mazeCellSize ∨ EndsBelow p.y d.cellSize d.mazeCellSize

instance (d : Dims) (p : Point) (c : Cell) : Decidable (d.Covers p c) :=
  inferInstanceAs (Decidable ((_ ∧ _) ∧ _ ∧ _))

instance (d : Dims) (p : Point) : Decidable (d.Far p) :=
  inferInstanceAs (Decidable (¬ _ ∨ ¬ _))

/-- The footprint of an object at `p` is what the object covers of the maze. -/
structure Faithful (d : Dims) (p : Point) : Prop where
  /-- No step of the computation overflows. -/
  checked : d.footprint? p = some (d.footprint p)
  ordered : (d.footprint p).Pairwise Cell.Before
  distinct : (d.footprint p).Nodup
  mem_iff : ∀ c, c ∈ d.footprint p ↔ (Maze.ofDims d).inBounds c = true ∧ d.Covers p c
  /-- An object that lies wholly to the left of the world or above it blocks nothing. -/
  outside : p.x + d.cellSize ≤ 0 ∨ p.y + d.cellSize ≤ 0 → d.footprint p = []

/-! ## Cells in columns and rows -/

theorem mem_cells_iff {cols rows : Nat × Nat} {c : Cell} :
    c ∈ cells cols rows ↔
      (cols.1 ≤ c.col ∧ c.col < cols.2) ∧ rows.1 ≤ c.row ∧ c.row < rows.2 := by
  obtain ⟨row, col⟩ := c
  simp only [cells, List.mem_flatMap, List.mem_map, List.mem_range'_1, Cell.mk.injEq]
  constructor
  · rintro ⟨_, hrow, _, hcol, rfl, rfl⟩
    omega
  · rintro ⟨hcol, hrow⟩
    exact ⟨row, by omega, col, by omega, rfl, rfl⟩

theorem cells_eq_nil {cols rows : Nat × Nat} (h : cols.2 = 0 ∨ rows.2 = 0) :
    cells cols rows = [] := by
  refine List.eq_nil_iff_forall_not_mem.mpr fun c hc => ?_
  obtain ⟨⟨-, hcol⟩, -, hrow⟩ := mem_cells_iff.mp hc
  omega

theorem pairwise_before_cells (cols rows : Nat × Nat) : (cells cols rows).Pairwise Cell.Before := by
  rw [cells, List.pairwise_flatMap]
  constructor
  · intro row _
    rw [List.pairwise_map]
    exact (List.pairwise_lt_range' 1).imp fun h => .inr ⟨rfl, h⟩
  · refine (List.pairwise_lt_range' 1).imp fun h a ha b hb => .inl ?_
    obtain ⟨_, -, rfl⟩ := List.mem_map.mp ha
    obtain ⟨_, -, rfl⟩ := List.mem_map.mp hb
    exact h

/-! ## Bounds along one side -/

theorem ceilInt64_mem (x : Float32) : minInt64 ≤ ceilInt64 x ∧ ceilInt64 x ≤ maxInt64 := by
  have hbounds : minInt64 ≤ maxInt64 := by decide
  rw [ceilInt64]
  cases Exact.ofSingle x with
  | nan => decide
  | infinite negative => cases negative <;> decide
  | finite negative m e =>
    rw [Exact.ceil_finite]
    omega

theorem int64?_pred {n : Int} (hlow : minInt64 ≤ n) (hhigh : n ≤ maxInt64) :
    int64? (n - 1) = if n = minInt64 then none else some (n - 1) := by
  rw [int64?]
  split
  · rw [if_neg (by omega)]
  · rw [if_pos (by omega)]

section Span

variable {start extent unit : Float32} {count i : Nat} {bounds : Nat × Nat}

theorem endsBelow_iff (hlast : Exact.ofSingle ((start + extent) / unit) ≠ .nan) :
    EndsBelow start extent unit ↔ ceilInt64 ((start + extent) / unit) = minInt64 := by
  have hmem := ceilInt64_mem ((start + extent) / unit)
  rw [EndsBelow, ← lt_ceilInt64_iff hlast (le_refl _) (by decide)]
  omega

theorem span?_eq (hcount : count < 2 ^ 63) :
    span? start extent unit count =
      if ceilInt64 ((start + extent) / unit) = minInt64 then none
      else some ((max (floorInt64 (start / unit)) 0).toNat,
        (min (ceilInt64 ((start + extent) / unit) - 1) (count - 1) + 1).toNat) := by
  obtain ⟨hlow, hhigh⟩ := ceilInt64_mem ((start + extent) / unit)
  have hfinal : int64? (Int.bmod count (2 ^ 64) - 1) = some (count - 1 : Int) := by
    rw [Int.bmod_eq_of_le (by omega) (by omega), int64?, minInt64, maxInt64,
      if_pos (by omega)]
  rw [span?, hfinal, int64?_pred hlow hhigh]
  split <;> rfl

theorem span?_eq_none_iff (hlast : Exact.ofSingle ((start + extent) / unit) ≠ .nan)
    (hcount : count < 2 ^ 63) :
    span? start extent unit count = none ↔ EndsBelow start extent unit := by
  rw [span?_eq hcount, endsBelow_iff hlast]
  split <;> simp_all

theorem mem_span_iff (hfirst : Exact.ofSingle (start / unit) ≠ .nan)
    (hlast : Exact.ofSingle ((start + extent) / unit) ≠ .nan) (hcount : count < 2 ^ 63)
    (h : span? start extent unit count = some bounds) :
    bounds.1 ≤ i ∧ i < bounds.2 ↔ i < count ∧ Touches start extent unit i := by
  rw [span?_eq hcount] at h
  split at h
  · cases h
  · obtain rfl := Option.some_inj.mp h
    rw [Touches]
    by_cases hi : i < count
    · have hlow : minInt64 ≤ i := by rw [minInt64]; omega
      have hhigh : i < maxInt64 := by rw [maxInt64]; omega
      rw [← floorInt64_le_iff hfirst hlow hhigh, ← lt_ceilInt64_iff hlast hlow hhigh]
      dsimp only
      omega
    · dsimp only
      omega

/-- More intervals than there are 64-bit integers count as fewer than none. -/
theorem snd_eq_zero_of_span? (hlow : 2 ^ 63 ≤ count) (hhigh : count < 2 ^ 64)
    (h : span? start extent unit count = some bounds) : bounds.2 = 0 := by
  have hcount : Int.bmod count (2 ^ 64) = count - 2 ^ 64 := by
    rw [Int.bmod_def]
    split <;> omega
  simp only [span?, hcount, Option.bind_eq_bind, Option.bind_eq_some_iff] at h
  obtain ⟨last, -, final, hfinal, hbounds⟩ := h
  rw [int64?] at hfinal
  split at hfinal
  · obtain rfl := Option.some_inj.mp hfinal
    obtain rfl := Option.some_inj.mp hbounds
    dsimp only
    omega
  · cases hfinal

end Span

/-! ## Footprints -/

variable {d : Dims} {p : Point}

theorem Proper.cellSize (hd : d.Proper) : d.cellSize.isFinite = true ∧ 0 < d.cellSize :=
  hd d.cellSize (by simp)

theorem Proper.mazeCellSize (hd : d.Proper) :
    d.mazeCellSize.isFinite = true ∧ 0 < d.mazeCellSize :=
  hd d.mazeCellSize (by simp)

theorem Proper.quotients_ne_nan (hd : d.Proper) {start : Float32} (hstart : start.isFinite = true) :
    Exact.ofSingle (start / d.mazeCellSize) ≠ .nan ∧
      Exact.ofSingle ((start + d.cellSize) / d.mazeCellSize) ≠ .nan := by
  obtain ⟨hfinite, hpos⟩ := hd.mazeCellSize
  exact ⟨(ofSingle_div_ne_nan_iff hfinite hpos _).mpr (ofSingle_ne_nan_of_isFinite hstart),
    (ofSingle_div_ne_nan_iff hfinite hpos _).mpr (ofSingle_add_ne_nan hstart hd.cellSize.1)⟩

theorem finite_of_isFinite (hp : p.isFinite = true) :
    p.x.isFinite = true ∧ p.y.isFinite = true := by
  simpa [Point.isFinite] using hp

theorem inBounds_ofDims_iff {c : Cell} :
    (Maze.ofDims d).inBounds c = true ↔ c.row < d.mazeRows ∧ c.col < d.mazeCols :=
  Maze.inBounds_iff

theorem footprint?_eq_none_iff (hd : d.Proper) (hp : p.isFinite = true) (hfits : d.Fits) :
    d.footprint? p = none ↔ d.Far p := by
  obtain ⟨hx, hy⟩ := finite_of_isFinite hp
  rw [Far, ← span?_eq_none_iff (hd.quotients_ne_nan hx).2 hfits.1,
    ← span?_eq_none_iff (hd.quotients_ne_nan hy).2 hfits.2, footprint?]
  cases span? p.x d.cellSize d.mazeCellSize d.mazeCols <;>
    cases span? p.y d.cellSize d.mazeCellSize d.mazeRows <;> simp

theorem footprint_eq_of_eq_some {covered : List Cell} (h : d.footprint? p = some covered) :
    d.footprint p = covered := by
  rw [footprint, h, Option.getD_some]

theorem exists_spans {covered : List Cell} (h : d.footprint? p = some covered) :
    ∃ cols rows, span? p.x d.cellSize d.mazeCellSize d.mazeCols = some cols ∧
      span? p.y d.cellSize d.mazeCellSize d.mazeRows = some rows ∧ covered = cells cols rows := by
  simp only [footprint?, Option.bind_eq_bind, Option.bind_eq_some_iff] at h
  obtain ⟨cols, hcols, rows, hrows, hcovered⟩ := h
  exact ⟨cols, rows, hcols, hrows, (Option.some_inj.mp hcovered).symm⟩

/-- Which cells a footprint consists of. -/
theorem mem_footprint_iff (hd : d.Proper) (hp : p.isFinite = true) (hfits : d.Fits)
    {covered : List Cell} (h : d.footprint? p = some covered) (c : Cell) :
    c ∈ covered ↔ (Maze.ofDims d).inBounds c = true ∧ d.Covers p c := by
  obtain ⟨hx, hy⟩ := finite_of_isFinite hp
  obtain ⟨hleft, hright⟩ := hd.quotients_ne_nan hx
  obtain ⟨htop, hbottom⟩ := hd.quotients_ne_nan hy
  obtain ⟨cols, rows, hcols, hrows, rfl⟩ := exists_spans h
  rw [mem_cells_iff, mem_span_iff hleft hright hfits.1 hcols,
    mem_span_iff htop hbottom hfits.2 hrows, inBounds_ofDims_iff, Covers]
  tauto

theorem not_touches_of_le_zero (hd : d.Proper) {start : Float32} (h : start + d.cellSize ≤ 0)
    (i : Nat) : ¬ Touches start d.cellSize d.mazeCellSize i := by
  obtain ⟨hfinite, hpos⟩ := hd.mazeCellSize
  exact fun ht => not_ltCeil_div hfinite hpos h (Int.natCast_nonneg i) ht.2

theorem faithful_of_not_far (hd : d.Proper) (hp : p.isFinite = true) (hfits : d.Fits)
    (h : ¬ d.Far p) : d.Faithful p := by
  obtain ⟨covered, hcovered⟩ :=
    Option.ne_none_iff_exists'.mp (mt (footprint?_eq_none_iff hd hp hfits).mp h)
  have hmem := mem_footprint_iff hd hp hfits hcovered
  have hordered : covered.Pairwise Cell.Before := by
    obtain ⟨cols, rows, -, -, rfl⟩ := exists_spans hcovered
    exact pairwise_before_cells cols rows
  obtain rfl := footprint_eq_of_eq_some hcovered
  refine ⟨hcovered, hordered, hordered.imp Cell.Before.ne, hmem, fun hout => ?_⟩
  refine List.eq_nil_iff_forall_not_mem.mpr fun c hc => ?_
  obtain ⟨-, hcol, hrow⟩ := (hmem c).mp hc
  rcases hout with hout | hout
  · exact not_touches_of_le_zero hd hout _ hcol
  · exact not_touches_of_le_zero hd hout _ hrow

/-- A maze with too many columns or rows gets no footprint, or the empty one. -/
theorem footprint?_of_not_fits (hfits : ¬ d.Fits) (p : Point) :
    d.footprint? p = none ∨ d.footprint? p = some [] := by
  have hcols : d.mazeCols < 2 ^ 64 := UInt64.toNat_lt _
  have hrows : d.mazeRows < 2 ^ 64 := UInt64.toNat_lt _
  cases hfootprint : d.footprint? p with
  | none => exact .inl rfl
  | some covered =>
      obtain ⟨cols, rows, hleft, htop, rfl⟩ := exists_spans hfootprint
      refine .inr (congrArg some (cells_eq_nil ?_))
      by_cases hwide : d.mazeCols < 2 ^ 63
      · have htall : 2 ^ 63 ≤ d.mazeRows := Nat.not_lt.mp fun h => hfits ⟨hwide, h⟩
        exact .inr (snd_eq_zero_of_span? htall hrows htop)
      · exact .inl (snd_eq_zero_of_span? (Nat.not_lt.mp hwide) hcols hleft)

/-- The footprint of an object at a finite position, for sizes that are finite and positive: it is
right unless the object ends far to the left of the world or above it, where it overflows. -/
theorem faithful_iff_not_far (hd : d.Proper) (hp : p.isFinite = true) :
    (d.Fits → (d.Faithful p ↔ ¬ d.Far p) ∧ (d.footprint? p = none ↔ d.Far p)) ∧
    (¬ d.Fits → d.footprint? p = none ∨ d.footprint? p = some []) := by
  refine ⟨fun hfits => ⟨⟨fun h hfar => ?_, faithful_of_not_far hd hp hfits⟩,
    footprint?_eq_none_iff hd hp hfits⟩, fun hfits => footprint?_of_not_fits hfits p⟩
  have hnone := (footprint?_eq_none_iff hd hp hfits).mpr hfar
  rw [h.checked] at hnone
  cases hnone

/-- An object across the left edge of the world blocks the cells that it covers inside. -/
theorem faithful_across_left_edge :
    standard.Proper ∧ Point.isFinite ⟨-16, 0⟩ = true ∧ standard.Faithful ⟨-16, 0⟩ := by
  have hd : standard.Proper := by unfold Proper; decide +kernel
  have hp : Point.isFinite ⟨-16, 0⟩ = true := by decide +kernel
  have hfits : standard.Fits := by unfold Fits; decide +kernel
  exact ⟨hd, hp, (((faithful_iff_not_far hd hp).1 hfits).1).mpr (by decide +kernel)⟩

/-- Far to the left of the world an object has no footprint, though it touches no cell. -/
theorem not_faithful_far_left :
    standard.Proper ∧ Point.isFinite ⟨-1e30, 0⟩ = true ∧
      (-1e30 : Float32) + standard.cellSize ≤ 0 ∧ standard.footprint? ⟨-1e30, 0⟩ = none ∧
      ¬ standard.Faithful ⟨-1e30, 0⟩ := by
  have hnone : standard.footprint? ⟨-1e30, 0⟩ = none := by decide +kernel
  refine ⟨by unfold Proper; decide +kernel, by decide +kernel, by decide +kernel, hnone,
    fun h => ?_⟩
  have hchecked := h.checked
  rw [hnone] at hchecked
  cases hchecked

end Dims

end TileWorld
