import Mathlib.Data.List.Forall2
import Mathlib.Data.Set.Function
import TileWorld.Proofs.Channel.Naming
import TileWorld.Proofs.Number.Widen

/-! Every square that some mound covers gets one wall, in the order in which the mounds come to the
squares. -/

namespace TileWorld

/-- In a row above, or to the left in the same row. -/
def Square.Before (s t : Square) : Prop := s.row < t.row ∨ s.row = t.row ∧ s.col < t.col

def Dims.HasSquare (d : Dims) (s : Square) : Prop := s.col < d.gridCols ∧ s.row < d.gridRows

namespace Mound

def Covers (m : Mound) (s : Square) : Prop :=
  (m.col ≤ s.col ∧ s.col < m.col + m.width) ∧ (m.row ≤ s.row ∧ s.row < m.row + m.height)

instance (m : Mound) (s : Square) : Decidable (m.Covers s) :=
  inferInstanceAs (Decidable (_ ∧ _))

theorem pairwise_before_squares (m : Mound) : m.squares.Pairwise Square.Before := by
  refine List.pairwise_flatMap.mpr ⟨fun row _ => List.pairwise_map.mpr ?_, ?_⟩
  · exact (List.pairwise_lt_range' 1).imp fun h => .inr ⟨rfl, h⟩
  · refine (List.pairwise_lt_range' 1).imp fun h s hs t ht => .inl ?_
    obtain ⟨_, -, rfl⟩ := List.mem_map.mp hs
    obtain ⟨_, -, rfl⟩ := List.mem_map.mp ht
    exact h

end Mound

namespace Channel

variable {d : Dims} {mounds : List Mound} {channel : String} {s t : Square}
  {scanned laid all squares : List Square}

/-- The place in the list of the first mound that covers a square. -/
def firstMound (mounds : List Mound) (s : Square) : ℕ := mounds.findIdx fun m => m.Covers s

/-- The mounds, one after the other and each row by row, come to `s` before they come to `t`. -/
def ReachedBefore (mounds : List Mound) (s t : Square) : Prop :=
  firstMound mounds s < firstMound mounds t ∨
    firstMound mounds s = firstMound mounds t ∧ s.Before t

def wallOn (d : Dims) (s : Square) : Object := .wall (wallId s) (d.squareCorner s)

/-- How the mounds of a channel are rasterized into walls. -/
structure Walled (d : Dims) (mounds : List Mound) (squares : List Square) (walls : List Object) :
    Prop where
  mem_iff : ∀ s, s ∈ squares ↔ d.HasSquare s ∧ ∃ m ∈ mounds, m.Covers s
  ordered : squares.Pairwise (ReachedBefore mounds)
  nodup : squares.Nodup
  /-- Each square has the wall that is named for it and stands on its corner. -/
  stand : List.Forall₂ (fun s w => w.id = "wall-" ++ toString s.col ++ "-" ++ toString s.row ∧
    w.position = d.squareCorner s) squares walls
  ids : (walls.map (·.id)).Nodup
  positions : (walls.map (·.position)).Nodup
  lasting : ∀ w ∈ walls, w.obstacle = true ∧ w.persistent = true

/-! ## The order of the scan -/

theorem mem_scan_iff : s ∈ mounds.flatMap Mound.squares ↔ ∃ m ∈ mounds, m.Covers s := by
  simp only [List.mem_flatMap, Mound.mem_squares, Mound.Covers]

theorem reachedBefore_of_idxOf_lt (hs : s ∈ mounds.flatMap Mound.squares)
    (ht : t ∈ mounds.flatMap Mound.squares)
    (hlt : (mounds.flatMap Mound.squares).idxOf s < (mounds.flatMap Mound.squares).idxOf t) :
    ReachedBefore mounds s t := by
  induction mounds with
  | nil => cases hs
  | cons m mounds ih =>
      rw [List.flatMap_cons, List.mem_append] at hs ht
      rw [List.flatMap_cons] at hlt
      by_cases hsm : s ∈ m.squares
      · have hcs : m.Covers s := Mound.mem_squares.mp hsm
        rw [List.idxOf_append_of_mem hsm] at hlt
        by_cases htm : t ∈ m.squares
        · have hct : m.Covers t := Mound.mem_squares.mp htm
          rw [List.idxOf_append_of_mem htm] at hlt
          refine .inr ⟨by simp [firstMound, List.findIdx_cons, hcs, hct], ?_⟩
          have h := List.pairwise_iff_getElem.mp m.pairwise_before_squares _ _
            (List.idxOf_lt_length_of_mem hsm) (List.idxOf_lt_length_of_mem htm) hlt
          simpa using h
        · have hct : ¬ m.Covers t := mt Mound.mem_squares.mpr htm
          exact .inl (by simp [firstMound, List.findIdx_cons, hcs, hct])
      · have hcs : ¬ m.Covers s := mt Mound.mem_squares.mpr hsm
        rw [List.idxOf_append_of_notMem hsm] at hlt
        by_cases htm : t ∈ m.squares
        · have hfirst := List.idxOf_lt_length_of_mem htm
          rw [List.idxOf_append_of_mem htm] at hlt
          omega
        · have hct : ¬ m.Covers t := mt Mound.mem_squares.mpr htm
          rw [List.idxOf_append_of_notMem htm] at hlt
          have h := ih (hs.resolve_left hsm) (ht.resolve_left htm) (by omega)
          simpa [ReachedBefore, firstMound, List.findIdx_cons, hcs, hct] using h

/-! ## Laying walls -/

/-- The squares laid so far, the latest first: those of the grid among the squares scanned, each
where it came up first. -/
structure Laid (d : Dims) (scanned laid : List Square) : Prop where
  mem_iff : ∀ s, s ∈ laid ↔ s ∈ scanned ∧ d.HasSquare s
  ordered : laid.Pairwise fun s t => scanned.idxOf t < scanned.idxOf s

namespace Laid

theorem ordered_append (h : Laid d scanned laid) (rest : List Square) :
    laid.Pairwise fun s t => (scanned ++ rest).idxOf t < (scanned ++ rest).idxOf s := by
  refine h.ordered.imp_of_mem fun hs ht hlt => ?_
  rwa [List.idxOf_append_of_mem ((h.mem_iff _).mp hs).1,
    List.idxOf_append_of_mem ((h.mem_iff _).mp ht).1]

/-- A square outside the grid, or one that was laid before, adds nothing. -/
theorem skip (h : Laid d scanned laid) (hs : d.HasSquare s → s ∈ laid) :
    Laid d (scanned ++ [s]) laid := by
  refine ⟨fun t => ?_, h.ordered_append [s]⟩
  rw [List.mem_append, List.mem_singleton, h.mem_iff]
  constructor
  · rintro ⟨ht, hin⟩
    exact ⟨.inl ht, hin⟩
  · rintro ⟨ht | rfl, hin⟩
    · exact ⟨ht, hin⟩
    · exact (h.mem_iff t).mp (hs hin)

theorem lay (h : Laid d scanned laid) (hin : d.HasSquare s) (hs : s ∉ laid) :
    Laid d (scanned ++ [s]) (s :: laid) := by
  have hnew : s ∉ scanned := fun hmem => hs ((h.mem_iff s).mpr ⟨hmem, hin⟩)
  refine ⟨fun t => ?_, List.pairwise_cons.mpr ⟨fun t ht => ?_, h.ordered_append [s]⟩⟩
  · rw [List.mem_append, List.mem_singleton, List.mem_cons, h.mem_iff]
    constructor
    · rintro (rfl | ⟨ht, hgrid⟩)
      · exact ⟨.inr rfl, hin⟩
      · exact ⟨.inl ht, hgrid⟩
    · rintro ⟨ht | rfl, hgrid⟩
      · exact .inr ⟨ht, hgrid⟩
      · exact .inl rfl
  · have hold := ((h.mem_iff t).mp ht).1
    rw [List.idxOf_append_of_mem hold, List.idxOf_append_of_notMem hnew]
    exact Nat.lt_add_right _ (List.idxOf_lt_length_of_mem hold)

end Laid

theorem samePlace_iff {p q : Point} : samePlace p q = true ↔ p = q := by
  obtain ⟨px, py⟩ := p
  obtain ⟨qx, qy⟩ := q
  simp only [samePlace, Bool.and_eq_true, beq_iff_eq, Point.mk.injEq, Float32.toBits_inj]

section Corners

variable (hcorners : Set.InjOn d.squareCorner {s | d.HasSquare s ∧ s ∈ all})
include hcorners

/-- Where corners differ, the place of a wall tells its square. -/
theorem any_samePlace_iff (hin : d.HasSquare s) (hs : s ∈ all)
    (hlaid : ∀ t ∈ laid, d.HasSquare t ∧ t ∈ all) :
    (laid.map (wallOn d)).any (samePlace (d.squareCorner s) ·.position) = true ↔ s ∈ laid := by
  simp only [List.any_map, List.any_eq_true, Function.comp_apply, samePlace_iff]
  constructor
  · rintro ⟨t, ht, heq⟩
    exact hcorners ⟨hin, hs⟩ (hlaid t ht) heq ▸ ht
  · exact fun hs => ⟨s, hs, rfl⟩

theorem exists_laid_of_wallsOn (h : Laid d scanned laid) (hall : all = scanned ++ squares) :
    ∃ laid', Laid d all laid' ∧
      wallsOn d (laid.map (wallOn d)) squares = laid'.reverse.map (wallOn d) := by
  induction squares generalizing scanned laid with
  | nil =>
      rw [List.append_nil] at hall
      exact ⟨laid, hall ▸ h, (List.map_reverse ..).symm⟩
  | cons s squares ih =>
      have hrest : all = (scanned ++ [s]) ++ squares := by simpa using hall
      have hs : s ∈ all := hall ▸ List.mem_append_right _ List.mem_cons_self
      have hlaid : ∀ t ∈ laid, d.HasSquare t ∧ t ∈ all := fun t ht =>
        ⟨((h.mem_iff t).mp ht).2, hall ▸ List.mem_append_left _ ((h.mem_iff t).mp ht).1⟩
      rw [wallsOn]
      split
      · rename_i hfree
        obtain ⟨hcol, hrow, hnone⟩ := hfree
        have hfresh : s ∉ laid := fun hmem => by
          rw [(any_samePlace_iff hcorners ⟨hcol, hrow⟩ hs hlaid).mpr hmem] at hnone
          cases hnone
        exact ih (h.lay ⟨hcol, hrow⟩ hfresh) hrest
      · rename_i hblocked
        refine ih (h.skip fun hin => ?_) hrest
        by_contra hfresh
        refine hblocked ⟨hin.1, hin.2, ?_⟩
        rw [Bool.not_eq_true', Bool.eq_false_iff]
        exact mt (any_samePlace_iff hcorners hin hs hlaid).mp hfresh

end Corners

/-! ## The walls of a channel -/

/-- If different squares of the grid under the mounds have different corners, each of them gets one
wall and no other square gets any. -/
theorem exists_walled
    (hcorners : Set.InjOn d.squareCorner
      {s | d.HasSquare s ∧ ∃ m ∈ (Layout.ofChannel channel).mounds, m.Covers s}) :
    ∃ squares, Walled d (Layout.ofChannel channel).mounds squares (walls d channel) := by
  obtain ⟨mounds, hmounds⟩ : ∃ mounds, mounds = (Layout.ofChannel channel).mounds := ⟨_, rfl⟩
  rw [← hmounds] at hcorners ⊢
  simp only [← mem_scan_iff] at hcorners
  have hnone : Laid d [] [] := ⟨by simp, .nil⟩
  obtain ⟨laid, hlaid, hwalls⟩ := exists_laid_of_wallsOn hcorners hnone (List.nil_append _).symm
  have heq : walls d channel = laid.reverse.map (wallOn d) := by
    rw [walls, ← hmounds]
    exact hwalls
  have hmem : ∀ s, s ∈ laid.reverse ↔ d.HasSquare s ∧ ∃ m ∈ mounds, m.Covers s := fun s => by
    rw [List.mem_reverse, hlaid.mem_iff, mem_scan_iff, and_comm]
  have hordered := List.pairwise_reverse.mpr hlaid.ordered
  have hnodup : laid.reverse.Nodup := hordered.imp fun hlt heq => by
    subst heq
    exact lt_irrefl _ hlt
  refine ⟨laid.reverse, hmem, ?_, hnodup, ?_, nodup_ids_walls d channel, ?_, ?_⟩
  · refine hordered.imp_of_mem fun hs ht hlt => reachedBefore_of_idxOf_lt ?_ ?_ hlt
    · exact mem_scan_iff.mpr ((hmem _).mp hs).2
    · exact mem_scan_iff.mpr ((hmem _).mp ht).2
  · rw [heq, List.forall₂_map_right_iff, List.forall₂_same]
    exact fun s _ => ⟨rfl, rfl⟩
  · rw [heq, List.map_map]
    refine hnodup.map_on fun s hs t ht hcorner => ?_
    have hs := (hmem s).mp hs
    have ht := (hmem t).mp ht
    exact hcorners ⟨hs.1, mem_scan_iff.mpr hs.2⟩ ⟨ht.1, mem_scan_iff.mpr ht.2⟩ hcorner
  · intro w hw
    rw [heq] at hw
    obtain ⟨s, -, rfl⟩ := List.mem_map.mp hw
    exact ⟨rfl, rfl⟩

/-- A world of fifteen by fifteen squares, which cuts off most of the mounds laid out for the
standard one. -/
def cramped : Dims := ⟨480, 480, 32, 16⟩

private theorem cellSize_inj : ∀ i < 15, ∀ j < 15,
    (Number.ofCount i * cramped.cellSize).toBits = (Number.ofCount j * cramped.cellSize).toBits →
      i = j := by
  decide +kernel

theorem exists_walled_cramped :
    ∃ squares, Walled cramped (Layout.ofChannel "channel-alpha").mounds squares
      (walls cramped "channel-alpha") := by
  refine exists_walled ?_
  rintro ⟨col, row⟩ ⟨⟨hcol, hrow⟩, -⟩ ⟨col', row'⟩ ⟨⟨hcol', hrow'⟩, -⟩ hcorner
  obtain ⟨hx, hy⟩ := Point.mk.injEq .. ▸ hcorner
  have heqcol : col = col' := cellSize_inj _ hcol _ hcol' (congrArg _ hx)
  have heqrow : row = row' := cellSize_inj _ hrow _ hrow' (congrArg _ hy)
  rw [heqcol, heqrow]

end Channel

end TileWorld
