import TileWorld.Geometry

/-! Points that compare equal lie in the same square, though they may differ in the signs of their
zeros. -/

namespace TileWorld

open Float.Model

namespace Number

theorem lt_iff_unpack (x y : Float32) : x < y ↔ x.toModel.unpack.lt y.toModel.unpack = true := by
  change decide (x.toModel.unpack.lt y.toModel.unpack = true) = true ↔ _
  exact decide_eq_true_iff

theorem le_iff_unpack (x y : Float32) : x ≤ y ↔ x.toModel.unpack.le y.toModel.unpack = true := by
  change decide (x.toModel.unpack.le y.toModel.unpack = true) = true ↔ _
  exact decide_eq_true_iff

theorem unpack_div (x y : Float32) :
    (x / y).toModel.unpack =
      (Float32.Model.pack (.div .binary32 x.toModel.unpack y.toModel.unpack)).unpack :=
  rfl

theorem count_eq_unpack (x : Float32) : count x = x.toModel.unpack.toUInt64.toNat :=
  rfl

/-- Numbers that compare equal are the same number or are both zero. -/
theorem unpack_eq_or_zero_of_beq {x y : Float32} (h : (x == y) = true) :
    x.toModel.unpack = y.toModel.unpack ∨
      ∃ s t, x.toModel.unpack = .zero s ∧ y.toModel.unpack = .zero t := by
  have hc : x.toModel.unpack.compare y.toModel.unpack = some .eq := by
    change (x.toModel.unpack.compare y.toModel.unpack == some .eq) = true at h
    simpa using h
  revert hc
  generalize x.toModel.unpack = a
  generalize y.toModel.unpack = b
  intro hc
  cases a with
  | notANumber => cases b <;> cases hc
  | infinity s =>
    cases b with
    | infinity t => cases s <;> cases t <;> first | exact .inl rfl | cases hc
    | _ => cases s <;> cases hc
  | zero s =>
    cases b with
    | zero t => exact .inr ⟨s, t, rfl, rfl⟩
    | notANumber => cases hc
    | infinity t | finite t _ _ _ => cases t <;> cases hc
  | finite s m e _ =>
    cases b with
    | notANumber => cases hc
    | infinity t => cases s <;> cases t <;> cases hc
    | zero t => cases s <;> cases hc
    | finite t n f _ =>
      have hparts : s = t ∧ e = f ∧ m = n := by
        cases s <;> cases t
        case negative.negative =>
          have hswap := Option.some.inj hc
          simpa using hswap
        case positive.positive =>
          have hthen := Option.some.inj hc
          simpa using hthen
        all_goals cases hc
      obtain ⟨rfl, rfl, rfl⟩ := hparts
      exact .inl rfl

/-- Every number but a NaN compares equal to itself. -/
theorem beq_self_of_isFinite {x : Float32} (h : x.isFinite = true) : (x == x) = true := by
  change x.toModel.unpack.isFinite = true at h
  change (x.toModel.unpack.compare x.toModel.unpack == some .eq) = true
  generalize x.toModel.unpack = a at h
  cases a with
  | notANumber => cases h
  | infinity s => cases h
  | zero s => cases s <;> rfl
  | finite s m e hm =>
    have hmagnitude : (compare e e).then (compare m m) = .eq := by simp
    cases s with
    | positive => exact beq_iff_eq.mpr (congrArg some hmagnitude)
    | negative => exact beq_iff_eq.mpr (congrArg (fun o => some (Ordering.swap o)) hmagnitude)

theorem not_lt_zero_of_unpack {x : Float32} {s : UnpackedFloat.Sign}
    (h : x.toModel.unpack = .zero s) : ¬ x < 0 := by
  have hz : (UnpackedFloat.zero s).lt (0 : Float32).toModel.unpack = false := by
    cases s <;> decide +kernel
  rw [lt_iff_unpack, h, hz]
  exact Bool.false_ne_true

/-- Zero divided by anything counts as zero, also where the quotient is not a number. -/
theorem count_zero_div {x : Float32} {s : UnpackedFloat.Sign} (h : x.toModel.unpack = .zero s)
    (size : Float32) : count (x / size) = 0 := by
  rw [count_eq_unpack, unpack_div, h]
  cases size.toModel.unpack with
  | notANumber => cases s <;> decide
  | zero t => cases s <;> cases t <;> decide
  | infinity t => cases s <;> cases t <;> decide
  | finite t m e hm =>
    have hdiv : UnpackedFloat.div .binary32 (.zero s) (.finite t m e hm) = .zero (s / t) := rfl
    rw [hdiv]
    cases s <;> cases t <;> decide

end Number

namespace Dims

open Number

private theorem index?_of_zero {x : Float32} {s : UnpackedFloat.Sign}
    (h : x.toModel.unpack = .zero s) (size : Float32) (count : Nat) :
    index? x size count = if 0 < count then some 0 else none := by
  have hf : x.isFinite = true := by
    change x.toModel.unpack.isFinite = true
    rw [h]
    rfl
  simp [index?, hf, not_lt_zero_of_unpack h, count_zero_div h]

theorem index?_of_beq {x y : Float32} (h : (x == y) = true) (size : Float32) (count : Nat) :
    index? x size count = index? y size count := by
  rcases unpack_eq_or_zero_of_beq h with h | ⟨s, t, hx, hy⟩
  · have hf : x.isFinite = y.isFinite := by
      change x.toModel.unpack.isFinite = y.toModel.unpack.isFinite
      rw [h]
    have hl : x < 0 ↔ y < 0 := by rw [lt_iff_unpack, lt_iff_unpack, h]
    have hc : Number.count (x / size) = Number.count (y / size) := by
      rw [count_eq_unpack, count_eq_unpack, unpack_div, unpack_div, h]
    simp only [index?, hf, hl, hc]
  · rw [index?_of_zero hx, index?_of_zero hy]

/-- Points that compare equal lie in the same square. -/
theorem square?_of_same (d : Dims) {p q : Point} (h : p.same q = true) :
    d.square? p = d.square? q := by
  have hxy : (p.x == q.x) = true ∧ (p.y == q.y) = true := by simpa [Point.same] using h
  simp only [square?, index?_of_beq hxy.1, index?_of_beq hxy.2]

theorem index?_of_not_isFinite {x : Float32} (h : x.isFinite = false) (size : Float32)
    (count : Nat) : index? x size count = none := by
  simp [index?, h]

/-- A point that does not even compare equal to itself lies in no square. -/
theorem square?_of_not_same (d : Dims) {p : Point} (h : p.same p = false) :
    d.square? p = none := by
  cases hx : p.x.isFinite with
  | false => simp [square?, index?_of_not_isFinite hx]
  | true =>
    cases hy : p.y.isFinite with
    | false => simp [square?, index?_of_not_isFinite hy]
    | true => simp [Point.same, beq_self_of_isFinite hx, beq_self_of_isFinite hy] at h

theorem square?_eq_some_iff {d : Dims} {p : Point} {s : Square} :
    d.square? p = some s ↔
      index? p.x d.cellSize d.gridCols = some s.col ∧
        index? p.y d.cellSize d.gridRows = some s.row := by
  obtain ⟨col, row⟩ := s
  simp [square?, Option.bind_eq_some_iff]

/-- A square that holds a point is a square of the grid. -/
theorem lt_of_square?_eq_some {d : Dims} {p : Point} {s : Square} (h : d.square? p = some s) :
    s.col < d.gridCols ∧ s.row < d.gridRows := by
  obtain ⟨hcol, hrow⟩ := square?_eq_some_iff.mp h
  exact ⟨lt_of_index?_eq_some hcol, lt_of_index?_eq_some hrow⟩

end Dims

end TileWorld
