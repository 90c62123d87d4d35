import Mathlib.Tactic.Linarith
import Mathlib.Tactic.NormNum
import TileWorld.Proofs.Number.Nearest

/-! Finite numbers compare as the rational numbers they stand for, and the result of an operation on
them is next to the exact one. -/

namespace TileWorld.Number

open Float.Model (UnpackedFloat)
open Float.Model.UnpackedFloat

/-- The rational number that a number stands for, zero if it is not finite. -/
def value (x : Float32) : ℚ := valueOf x.toModel.unpack

variable {u v : UnpackedFloat} {x y : Float32} {q : ℚ}

theorem unpack_add (x y : Float32) : (x + y).toModel.unpack =
    repack (.add .binary32 x.toModel.unpack y.toModel.unpack) :=
  rfl

theorem unpack_sub (x y : Float32) : (x - y).toModel.unpack =
    repack (.sub .binary32 x.toModel.unpack y.toModel.unpack) :=
  rfl

theorem unpack_mul (x y : Float32) : (x * y).toModel.unpack =
    repack (.mul .binary32 x.toModel.unpack y.toModel.unpack) :=
  rfl

theorem unpack_quotient (x y : Float32) : (x / y).toModel.unpack =
    repack (.div .binary32 x.toModel.unpack y.toModel.unpack) :=
  rfl

theorem unpack_sqrt (x : Float32) : x.sqrt.toModel.unpack =
    repack (.sqrt .binary32 x.toModel.unpack) :=
  rfl

/-! ## Order -/

theorem lt_of_exponent_lt {m n : ℕ} {e f : ℤ} (hm : Normalized m e) (hn : Normalized n f)
    (h : e < f) : (m : ℚ) * 2 ^ e < n * 2 ^ f := by
  have hmantissa : (m : ℚ) < 2 ^ 24 := by exact_mod_cast hm.mantissa_lt
  have hhidden : (2 : ℚ) ^ 23 ≤ n := by exact_mod_cast hn.hidden (hm.exponent_ge.trans_lt h)
  calc (m : ℚ) * 2 ^ e < 2 ^ 24 * 2 ^ e := by gcongr
    _ = 2 ^ 23 * 2 ^ (e + 1) := by rw [zpow_add_one₀ two_ne_zero]; ring
    _ ≤ n * 2 ^ f := by gcongr <;> [norm_num; omega]

theorem compare_digits {m n : ℕ} {e f : ℤ} (hm : Normalized m e) (hn : Normalized n f) :
    (compare e f).then (compare m n) = compare ((m : ℚ) * 2 ^ e) (n * 2 ^ f) := by
  rcases lt_trichotomy e f with h | rfl | h
  · rw [compare_lt_iff_lt.mpr h, compare_lt_iff_lt.mpr (lt_of_exponent_lt hm hn h)]
    rfl
  · rw [compare_eq_iff_eq.mpr rfl]
    have hpos : (0 : ℚ) < 2 ^ e := by positivity
    rcases lt_trichotomy m n with h | rfl | h
    · rw [compare_lt_iff_lt.mpr h, compare_lt_iff_lt.mpr]
      · rfl
      · gcongr
    · simp
    · rw [compare_gt_iff_gt.mpr h, compare_gt_iff_gt.mpr]
      · rfl
      · gcongr
  · rw [compare_gt_iff_gt.mpr h, compare_gt_iff_gt.mpr (lt_of_exponent_lt hn hm h)]
    rfl

theorem compare_neg_neg (a b : ℚ) : compare (-a) (-b) = (compare a b).swap := by
  rcases lt_trichotomy a b with h | rfl | h
  · rw [compare_lt_iff_lt.mpr h, compare_gt_iff_gt.mpr (neg_lt_neg h)]
    rfl
  · rw [compare_eq_iff_eq.mpr rfl, compare_eq_iff_eq.mpr rfl]
    rfl
  · rw [compare_gt_iff_gt.mpr h, compare_lt_iff_lt.mpr (neg_lt_neg h)]
    rfl

theorem valueOf_positive {m : ℕ} (e : ℤ) (hm : 0 < m) :
    valueOf (.finite .positive m e hm) = m * 2 ^ e :=
  rfl

theorem valueOf_negative {m : ℕ} (e : ℤ) (hm : 0 < m) :
    valueOf (.finite .negative m e hm) = -(m * 2 ^ e) := by
  simp [valueOf, Sign.apply]

theorem compare_of_single (hu : Single u) (hv : Single v) :
    u.compare v = some (compare (valueOf u) (valueOf v)) := by
  have hpos : ∀ {m : ℕ} (e : ℤ), 0 < m → (0 : ℚ) < m * 2 ^ e := fun e hm => by positivity
  rcases hu.zero_or_finite with ⟨s, rfl⟩ | ⟨s, m, e, hm, hmdigits, rfl⟩ <;>
    rcases hv.zero_or_finite with ⟨t, rfl⟩ | ⟨t, n, f, hn, hndigits, rfl⟩
  · exact congrArg some (compare_eq_iff_eq.mpr rfl).symm
  · have := hpos f hn
    cases t with
    | positive => exact congrArg some (compare_lt_iff_lt.mpr this).symm
    | negative =>
        rw [valueOf_negative]
        exact congrArg some (compare_gt_iff_gt.mpr (neg_neg_of_pos this)).symm
  · have := hpos e hm
    cases s with
    | positive => exact congrArg some (compare_gt_iff_gt.mpr this).symm
    | negative =>
        rw [valueOf_negative]
        exact congrArg some (compare_lt_iff_lt.mpr (neg_neg_of_pos this)).symm
  · have hmpos := hpos e hm
    have hnpos := hpos f hn
    have hdigits := compare_digits hmdigits hndigits
    cases s <;> cases t <;> simp only [valueOf_positive, valueOf_negative]
    · rw [compare_neg_neg, ← hdigits]
      rfl
    · rw [compare_lt_iff_lt.mpr (by linarith)]
      rfl
    · rw [compare_gt_iff_gt.mpr (by linarith : _ < _)]
      rfl
    · rw [← hdigits]
      rfl

theorem single_of_isFinite (hx : x.isFinite = true) : Single x.toModel.unpack := single_unpack hx

theorem le_iff_value_le (hx : x.isFinite = true) (hy : y.isFinite = true) :
    x ≤ y ↔ value x ≤ value y := by
  rw [le_iff_unpack, UnpackedFloat.le,
    compare_of_single (single_of_isFinite hx) (single_of_isFinite hy), ← compare_le_iff_le,
    Option.any_some, Ordering.isLE_iff_ne_gt]
  rfl

theorem lt_iff_value_lt (hx : x.isFinite = true) (hy : y.isFinite = true) :
    x < y ↔ value x < value y := by
  rw [lt_iff_unpack, UnpackedFloat.lt,
    compare_of_single (single_of_isFinite hx) (single_of_isFinite hy), ← compare_lt_iff_lt]
  exact beq_iff_eq.trans Option.some_inj

theorem value_nonneg_of_not_lt (hx : x.isFinite = true) (h : ¬ x < 0) : 0 ≤ value x :=
  not_lt.mp fun hlt => h ((lt_iff_value_lt (y := 0) hx rfl).mpr hlt)

theorem value_nonneg_of_le (hx : x.isFinite = true) (h : 0 ≤ x) : 0 ≤ value x :=
  (le_iff_value_le rfl hx).mp h

/-! ## Size -/

theorem abs_value_eq {s : Sign} {m : ℕ} {e : ℤ} (h : x.toModel.unpack = signed s m e) :
    |value x| = m * 2 ^ e := by
  rw [value, h, valueOf_signed, cast_apply, mul_assoc, abs_mul, abs_apply_one, one_mul,
    Int.cast_natCast]
  exact abs_of_nonneg (by positivity)

theorem abs_value_le (hx : x.isFinite = true) : |value x| ≤ 2 ^ 128 - 2 ^ 104 := by
  obtain ⟨s, m, e, hdigits, he, h⟩ := single_of_isFinite hx
  have hmantissa : (m : ℚ) ≤ 2 ^ 24 - 1 := by
    have : (m : ℚ) + 1 ≤ 2 ^ 24 := by exact_mod_cast hdigits.mantissa_lt
    linarith
  calc |value x| = m * 2 ^ e := abs_value_eq h
    _ ≤ (2 ^ 24 - 1) * 2 ^ (104 : ℤ) := by gcongr; norm_num
    _ = 2 ^ 128 - 2 ^ 104 := by norm_num

/-- The numbers next to one are one bit away. -/
theorem one_add_le_abs_value (hx : x.isFinite = true) (h : 1 < |value x|) :
    1 + 2 ^ (-23 : ℤ) ≤ |value x| := by
  obtain ⟨s, m, e, hdigits, he, heq⟩ := single_of_isFinite hx
  rw [abs_value_eq heq] at h ⊢
  have hlow : -23 ≤ e := by
    by_contra hlow
    have : (m : ℚ) * 2 ^ e ≤ 2 ^ 24 * 2 ^ (-24 : ℤ) := by
      have := hdigits.mantissa_lt
      gcongr
      · exact_mod_cast this.le
      · norm_num
      · omega
    norm_num at this
    linarith
  have hhidden : 2 ^ 23 ≤ m := hdigits.hidden (by omega)
  rcases hlow.lt_or_eq with hlow | rfl
  · calc (1 : ℚ) + 2 ^ (-23 : ℤ) ≤ 2 ^ 23 * 2 ^ (-22 : ℤ) := by norm_num
      _ ≤ m * 2 ^ e := by
          gcongr
          · exact_mod_cast hhidden
          · norm_num
          · omega
  · have hsome : 2 ^ 23 + 1 ≤ m := by
      rcases hhidden.lt_or_eq with hlt | heq
      · exact hlt
      · rw [← heq] at h
        norm_num at h
    calc (1 : ℚ) + 2 ^ (-23 : ℤ) = (2 ^ 23 + 1) * 2 ^ (-23 : ℤ) := by norm_num
      _ ≤ m * 2 ^ (-23 : ℤ) := by
          gcongr
          exact_mod_cast hsome

theorem value_one : value 1 = 1 := by
  have hunpack : (1 : Float32).toModel.unpack = .finite .positive (2 ^ 23) (-23) (by decide) := rfl
  rw [value, hunpack, valueOf_positive]
  norm_num

theorem value_neg_one : value (-1) = -1 := by
  have hunpack : (-1 : Float32).toModel.unpack = .finite .negative (2 ^ 23) (-23) (by decide) := rfl
  rw [value, hunpack, valueOf_negative]
  norm_num

/-! ## What is not finite -/

theorem isFinite_of_repack (h : (repack u).isFinite = true) : u.isFinite = true := by
  cases u with
  | notANumber =>
      rw [repack_notANumber] at h
      exact h
  | infinity s =>
      rw [repack_infinity] at h
      exact h
  | zero => rfl
  | finite => rfl

theorem isFinite_of_add (h : (x + y).isFinite = true) : x.isFinite = true ∧ y.isFinite = true := by
  have h := isFinite_of_repack (u := .add .binary32 x.toModel.unpack y.toModel.unpack) h
  change x.toModel.unpack.isFinite = true ∧ y.toModel.unpack.isFinite = true
  generalize x.toModel.unpack = u at h ⊢
  generalize y.toModel.unpack = v at h ⊢
  cases u <;> cases v <;> first | exact ⟨rfl, rfl⟩ | cases h | skip
  rename_i s t
  rw [UnpackedFloat.add] at h
  split at h <;> cases h

theorem isFinite_of_sub (h : (x - y).isFinite = true) : x.isFinite = true ∧ y.isFinite = true := by
  have h := isFinite_of_repack (u := .sub .binary32 x.toModel.unpack y.toModel.unpack) h
  change x.toModel.unpack.isFinite = true ∧ y.toModel.unpack.isFinite = true
  generalize x.toModel.unpack = u at h ⊢
  generalize y.toModel.unpack = v at h ⊢
  cases u <;> cases v <;> first | exact ⟨rfl, rfl⟩ | cases h | skip
  rename_i s t
  rw [UnpackedFloat.sub] at h
  split at h <;> cases h

theorem isFinite_of_mul (h : (x * y).isFinite = true) : x.isFinite = true ∧ y.isFinite = true := by
  have h := isFinite_of_repack (u := .mul .binary32 x.toModel.unpack y.toModel.unpack) h
  change x.toModel.unpack.isFinite = true ∧ y.toModel.unpack.isFinite = true
  generalize x.toModel.unpack = u at h ⊢
  generalize y.toModel.unpack = v at h ⊢
  cases u <;> cases v <;> first | exact ⟨rfl, rfl⟩ | cases h

theorem isFinite_of_div (h : (x / y).isFinite = true) : x.isFinite = true := by
  have h := isFinite_of_repack (u := .div .binary32 x.toModel.unpack y.toModel.unpack) h
  change x.toModel.unpack.isFinite = true
  generalize x.toModel.unpack = u at h ⊢
  generalize y.toModel.unpack = v at h
  cases u <;> cases v <;> first | rfl | cases h

theorem isFinite_of_sqrt (h : x.sqrt.isFinite = true) : x.isFinite = true := by
  have h := isFinite_of_repack (u := .sqrt .binary32 x.toModel.unpack) h
  change x.toModel.unpack.isFinite = true
  generalize x.toModel.unpack = u at h ⊢
  cases u with
  | notANumber => cases h
  | infinity s => cases s <;> cases h
  | zero => rfl
  | finite => rfl

/-! ## Nearest results -/

theorem nearest_add (hx : x.isFinite = true) (hy : y.isFinite = true) :
    Nearest (value x + value y) (x + y).toModel.unpack :=
  nearest_add_of_single (single_of_isFinite hx) (single_of_isFinite hy)

theorem nearest_sub (hx : x.isFinite = true) (hy : y.isFinite = true) :
    Nearest (value x - value y) (x - y).toModel.unpack :=
  nearest_sub_of_single (single_of_isFinite hx) (single_of_isFinite hy)

theorem nearest_mul (hx : x.isFinite = true) (hy : y.isFinite = true) :
    Nearest (value x * value y) (x * y).toModel.unpack :=
  nearest_mul_of_single (single_of_isFinite hx) (single_of_isFinite hy)

theorem nearest_div (hx : x.isFinite = true) (hy : y.isFinite = true) (hzero : value y ≠ 0) :
    Nearest (value x / value y) (x / y).toModel.unpack :=
  nearest_div_of_single (single_of_isFinite hx) (single_of_isFinite hy) hzero

theorem abs_value_sub_le (h : Nearest q x.toModel.unpack) (hx : x.isFinite = true) :
    |value x - q| ≤ |q| / 2 ^ 24 + tiny :=
  h.close hx

theorem abs_value_le_of_nearest (h : Nearest q x.toModel.unpack) (hx : x.isFinite = true) :
    |value x| ≤ 2 * |q| + tiny := by
  have hclose := abs_value_sub_le h hx
  have htriangle := abs_sub_abs_le_abs_sub (value x) q
  have hnonneg := abs_nonneg q
  linarith

theorem abs_value_le_of_mul_self (h : (x * x).isFinite = true) : |value x| ≤ 2 ^ 65 := by
  have hx := (isFinite_of_mul h).1
  have hclose := abs_value_sub_le (nearest_mul hx hx) h
  have hlow := (abs_le.mp hclose).1
  have hle := (abs_le.mp (abs_value_le h)).2
  rw [abs_mul_self] at hlow
  have hsquare : value x * value x ≤ 2 ^ 65 * 2 ^ 65 := by
    linarith [tiny_le_one]
  exact abs_le_of_sq_le_sq (by linarith) (by norm_num)

/-! ## Signs -/

theorem sign?_repack (u : UnpackedFloat) : sign? (repack u) = sign? u := sign?_unpack_pack u

theorem sign?_mul_self (x : Float32) :
    sign? (x * x).toModel.unpack = (sign? x.toModel.unpack).map fun _ => .positive := by
  rw [unpack_mul, sign?_repack]
  cases x.toModel.unpack with
  | notANumber => rfl
  | infinity s => cases s <;> rfl
  | zero s => cases s <;> rfl
  | finite s m e hm =>
      rw [UnpackedFloat.mul, sign?_roundWithAccuracy]
      cases s <;> rfl

theorem sign?_add_of_positive (hu : sign? u = some .positive) (hv : sign? v = some .positive) :
    sign? (UnpackedFloat.add .binary32 u v) = some .positive := by
  cases u <;> cases hu <;> cases v <;> cases hv <;> try rfl
  rename_i m e hm n f hn
  simp only [UnpackedFloat.add, Sign.apply]
  rw [UnpackedFloat.normalize]
  split
  · rename_i hlt
    have := Int.compare_eq_lt.mp hlt
    omega
  · rfl
  · exact sign?_roundWithAccuracy ..

theorem sign?_sqrt_of_positive (hu : sign? u = some .positive) :
    sign? (UnpackedFloat.sqrt .binary32 u) = some .positive := by
  cases u <;> cases hu
  · rfl
  · rfl
  · exact sign?_roundWithAccuracy ..

theorem eq_nan_of_sign? (hu : sign? u = none) : u = .notANumber := by
  cases u <;> first | rfl | cases hu

/-- The length of a displacement is never negative, and a number if both coordinates are. -/
theorem sign?_sqrt_add_mul_self (x y : Float32) :
    sign? (x * x + y * y).sqrt.toModel.unpack =
      (sign? x.toModel.unpack).bind fun _ => (sign? y.toModel.unpack).map fun _ => .positive := by
  have hx := sign?_mul_self x
  have hy := sign?_mul_self y
  rw [unpack_sqrt, unpack_add, sign?_repack]
  generalize (x * x).toModel.unpack = u at hx ⊢
  generalize (y * y).toModel.unpack = v at hy ⊢
  cases hxsign : sign? x.toModel.unpack with
  | none =>
      rw [hxsign] at hx
      rw [eq_nan_of_sign? hx, UnpackedFloat.add, repack_notANumber]
      rfl
  | some s =>
      rw [hxsign] at hx
      cases hysign : sign? y.toModel.unpack with
      | none =>
          rw [hysign] at hy
          have hadd : UnpackedFloat.add .binary32 u .notANumber = .notANumber := by cases u <;> rfl
          rw [eq_nan_of_sign? hy, hadd, repack_notANumber]
          rfl
      | some t =>
          rw [hysign] at hy
          refine sign?_sqrt_of_positive ?_
          rw [sign?_repack]
          exact sign?_add_of_positive hx hy

theorem sign?_isSome_of_isFinite (hx : x.isFinite = true) : (sign? x.toModel.unpack).isSome :=
  (ofSingle_ne_nan_iff x).mp (ofSingle_ne_nan_of_isFinite hx)

theorem sign?_length_of_isFinite (hx : x.isFinite = true) (hy : y.isFinite = true) :
    sign? (x * x + y * y).sqrt.toModel.unpack = some .positive := by
  obtain ⟨r, hr⟩ := Option.isSome_iff_exists.mp (sign?_isSome_of_isFinite hx)
  obtain ⟨s, hs⟩ := Option.isSome_iff_exists.mp (sign?_isSome_of_isFinite hy)
  rw [sign?_sqrt_add_mul_self, hr, hs]
  rfl

theorem sign?_length_ne_negative (x y : Float32) :
    sign? (x * x + y * y).sqrt.toModel.unpack ≠ some .negative := by
  rw [sign?_sqrt_add_mul_self]
  cases sign? x.toModel.unpack <;> cases sign? y.toModel.unpack <;> exact nofun

/-! ## Infinities -/

theorem eq_infinity {s : Sign} (hx : x.isFinite = false) (hs : sign? x.toModel.unpack = some s) :
    x.toModel.unpack = .infinity s := by
  have hfinite : x.toModel.unpack.isFinite = false := hx
  cases hunpack : x.toModel.unpack <;> rw [hunpack] at hfinite hs <;> cases hs <;>
    first | rfl | cases hfinite

theorem le_of_infinity (hx : (sign? x.toModel.unpack).isSome)
    (hy : y.toModel.unpack = .infinity .positive) : x ≤ y := by
  rw [le_iff_unpack, hy]
  cases hunpack : x.toModel.unpack with
  | notANumber =>
      rw [hunpack] at hx
      cases hx
  | infinity s => cases s <;> rfl
  | zero s => cases s <;> rfl
  | finite s => cases s <;> rfl

theorem not_le_of_nan (hy : y.toModel.unpack = .notANumber) : ¬ x ≤ y := by
  rw [le_iff_unpack, hy]
  cases x.toModel.unpack <;> exact Bool.noConfusion

theorem not_le_of_negative_infinity (hx : sign? x.toModel.unpack ≠ some .negative)
    (hy : y.toModel.unpack = .infinity .negative) : ¬ x ≤ y := by
  rw [le_iff_unpack, hy]
  cases hunpack : x.toModel.unpack with
  | notANumber => exact Bool.noConfusion
  | infinity s =>
      rw [hunpack] at hx
      cases s with
      | negative => exact absurd rfl hx
      | positive => exact Bool.noConfusion
  | zero s => exact Bool.noConfusion
  | finite s => cases s <;> exact Bool.noConfusion

theorem not_le_of_not_isFinite (hx : x.isFinite = false)
    (hsign : sign? x.toModel.unpack ≠ some .negative) (hy : y.isFinite = true) : ¬ x ≤ y := by
  have hxfinite : x.toModel.unpack.isFinite = false := hx
  have hyfinite : y.toModel.unpack.isFinite = true := hy
  rw [le_iff_unpack]
  cases hxunpack : x.toModel.unpack with
  | notANumber => exact Bool.noConfusion
  | infinity s =>
      rw [hxunpack] at hsign
      cases s with
      | negative => exact absurd rfl hsign
      | positive =>
          cases hyunpack : y.toModel.unpack with
          | notANumber => exact Bool.noConfusion
          | infinity t =>
              rw [hyunpack] at hyfinite
              cases hyfinite
          | zero t => exact Bool.noConfusion
          | finite t => exact Bool.noConfusion
  | zero s =>
      rw [hxunpack] at hxfinite
      cases hxfinite
  | finite s =>
      rw [hxunpack] at hxfinite
      cases hxfinite

theorem repack_of_single (hu : Single u) : repack u = u := by
  obtain ⟨s, m, e, hdigits, he, rfl⟩ := hu
  rw [repack_signed hdigits, if_pos he]

theorem isFinite_of_unpack_zero {s : Sign} (hx : x.toModel.unpack = .zero s) :
    x.isFinite = true := by
  change x.toModel.unpack.isFinite = true
  rw [hx]
  rfl

theorem add_infinity {s : Sign} (hx : x.toModel.unpack = .infinity s) (hy : y.isFinite = true) :
    (x + y).toModel.unpack = .infinity s := by
  rw [unpack_add, hx]
  rcases (single_of_isFinite hy).zero_or_finite with ⟨r, h⟩ | ⟨r, m, e, hm, -, h⟩ <;> rw [h] <;>
    exact repack_infinity s

theorem add_of_nan (hx : x.toModel.unpack = .notANumber) (y : Float32) :
    (x + y).toModel.unpack = .notANumber := by
  rw [unpack_add, hx]
  exact repack_notANumber

theorem mul_zero_of_not_isFinite (hx : x.isFinite = false) :
    (x * 0).toModel.unpack = .notANumber := by
  have hfinite : x.toModel.unpack.isFinite = false := hx
  have hzero : (0 : Float32).toModel.unpack = .zero .positive := rfl
  rw [unpack_mul, hzero]
  cases hunpack : x.toModel.unpack with
  | notANumber => exact repack_notANumber
  | infinity s => exact repack_notANumber
  | zero s => exact absurd (hunpack ▸ hfinite) nofun
  | finite s m e hm => exact absurd (hunpack ▸ hfinite) nofun

/-- A share of an infinite way is nothing. -/
theorem exists_div_infinity_mul_eq_zero {z : Float32} {s : Sign} (hx : x.isFinite = true)
    (hy : y.toModel.unpack = .infinity s) (hz : z.isFinite = true) :
    ∃ t, (x / y * z).toModel.unpack = .zero t := by
  have hdiv : ∃ t, (x / y).toModel.unpack = .zero t := by
    rw [unpack_quotient, hy]
    rcases (single_of_isFinite hx).zero_or_finite with ⟨t, h⟩ | ⟨t, m, e, hm, -, h⟩ <;> rw [h] <;>
      exact ⟨t / s, unpack_packedZero⟩
  obtain ⟨t, ht⟩ := hdiv
  rw [unpack_mul, ht]
  rcases (single_of_isFinite hz).zero_or_finite with ⟨r, h⟩ | ⟨r, m, e, hm, -, h⟩ <;> rw [h] <;>
    exact ⟨t * r, unpack_packedZero⟩

theorem add_zero_cases {z : Float32} {s : Sign} (hx : x.isFinite = true)
    (hz : z.toModel.unpack = .zero s) :
    (∃ r, (x + z).toModel.unpack = .zero r) ∨ (x + z).toModel.unpack = x.toModel.unpack := by
  have hsame := repack_of_single (single_of_isFinite hx)
  rw [unpack_add, hz]
  rcases (single_of_isFinite hx).zero_or_finite with ⟨r, h⟩ | ⟨r, m, e, hm, -, h⟩ <;>
    rw [h] at hsame ⊢
  · cases r <;> cases s <;> exact .inl ⟨_, unpack_packedZero⟩
  · exact .inr hsame

theorem isFinite_sub_zero {z : Float32} {s : Sign} (hx : x.isFinite = true)
    (hz : z.toModel.unpack = .zero s) : (x - z).isFinite = true := by
  have hsame := repack_of_single (single_of_isFinite hx)
  change (x - z).toModel.unpack.isFinite = true
  rw [unpack_sub, hz]
  rcases (single_of_isFinite hx).zero_or_finite with ⟨r, h⟩ | ⟨r, m, e, hm, -, h⟩ <;>
    rw [h] at hsame ⊢
  · cases r <;> cases s <;> rfl
  · exact (congrArg UnpackedFloat.isFinite hsame).trans rfl

/-- Adding a zero moves nothing: a difference that was finite stays so. -/
theorem isFinite_sub_add_zero {t z : Float32} {s : Sign} (ht : (t - x).isFinite = true)
    (hz : z.toModel.unpack = .zero s) :
    (x + z).isFinite = true ∧ (t - (x + z)).isFinite = true := by
  obtain ⟨htfinite, hx⟩ := isFinite_of_sub ht
  rcases add_zero_cases hx hz with ⟨r, hzero⟩ | hsame
  · exact ⟨isFinite_of_unpack_zero hzero, isFinite_sub_zero htfinite hzero⟩
  · refine ⟨(congrArg UnpackedFloat.isFinite hsame).trans hx, ?_⟩
    change (t - (x + z)).toModel.unpack.isFinite = true
    rw [unpack_sub, hsame]
    exact ht

theorem value_nonneg_of_sign? (h : sign? x.toModel.unpack = some .positive) : 0 ≤ value x := by
  rw [value]
  cases hunpack : x.toModel.unpack <;> rw [hunpack] at h <;> cases h
  · exact le_rfl
  · exact le_rfl
  · rw [valueOf_positive]
    positivity

theorem sign_of_value_nonneg {s : Sign} {m : ℕ} {e : ℤ} {hm : 0 < m}
    (hunpack : x.toModel.unpack = .finite s m e hm) (h : 0 ≤ value x) : s = .positive := by
  cases s with
  | positive => rfl
  | negative =>
      rw [value, hunpack, valueOf_negative] at h
      have : (0 : ℚ) < m * 2 ^ e := by positivity
      linarith

theorem mul_of_nonneg (hx : x.isFinite = true) (hy : y.isFinite = true) (hxnonneg : 0 ≤ value x)
    (hynonneg : 0 ≤ value y) : 0 ≤ value (x * y) ∧
      ((x * y).isFinite = true ∨ (x * y).toModel.unpack = .infinity .positive) := by
  have hzero : ∀ {s}, (x * y).toModel.unpack = .zero s → 0 ≤ value (x * y) ∧
      ((x * y).isFinite = true ∨ (x * y).toModel.unpack = .infinity .positive) := fun h =>
    ⟨by rw [value, h]; exact le_rfl, .inl (isFinite_of_unpack_zero h)⟩
  rcases (single_of_isFinite hx).zero_or_finite with ⟨s, hs⟩ | ⟨s, m, e, hm, -, hs⟩ <;>
    rcases (single_of_isFinite hy).zero_or_finite with ⟨t, ht⟩ | ⟨t, n, f, hn, -, ht⟩
  · exact hzero (s := s * t) (by rw [unpack_mul, hs, ht]; exact unpack_packedZero)
  · exact hzero (s := s * t) (by rw [unpack_mul, hs, ht]; exact unpack_packedZero)
  · exact hzero (s := s * t) (by rw [unpack_mul, hs, ht]; exact unpack_packedZero)
  · have hsign : sign? (x * y).toModel.unpack = some .positive := by
      rw [unpack_mul, sign?_repack, hs, ht, sign_of_value_nonneg hs hxnonneg,
        sign_of_value_nonneg ht hynonneg]
      exact sign?_roundWithAccuracy ..
    refine ⟨value_nonneg_of_sign? hsign, ?_⟩
    cases hfinite : (x * y).isFinite with
    | true => exact .inl rfl
    | false => exact .inr (eq_infinity hfinite hsign)

/-! ## Products that overflow -/

def longest : Float32 := .ofBits 0x7F7FFFFF

theorem value_longest : value longest = 2 ^ 128 - 2 ^ 104 := by
  have hunpack : longest.toModel.unpack = .finite .positive (2 ^ 24 - 1) 104 (by decide) := rfl
  rw [value, hunpack, valueOf_positive]
  norm_num

theorem isFinite_mul_longest (hx : x.isFinite = true) (h : 1 < |value x|) :
    (x * longest).isFinite = false := by
  rw [Bool.eq_false_iff]
  intro hfinite
  have hclose := abs_value_sub_le (nearest_mul hx (rfl : longest.isFinite = true)) hfinite
  have htriangle := abs_sub_abs_le_abs_sub (value x * value longest) (value (x * longest))
  have hle := abs_value_le hfinite
  have hlarge := mul_le_mul_of_nonneg_right (one_add_le_abs_value hx h)
    (abs_nonneg (value longest))
  have hlongest : |value longest| = 2 ^ 128 - 2 ^ 104 := by
    rw [value_longest]
    norm_num
  rw [abs_sub_comm] at hclose
  rw [abs_mul] at hclose htriangle
  rw [hlongest] at hclose htriangle hlarge
  norm_num at hlarge
  linarith [tiny_le_one]

theorem mul_longest_of_lt (hx : x.isFinite = true) (h : value x < -1) :
    (x * longest).toModel.unpack = .infinity .negative := by
  refine eq_infinity (isFinite_mul_longest hx (lt_abs.mpr (.inr (by linarith)))) ?_
  have hlongest : longest.toModel.unpack = .finite .positive (2 ^ 24 - 1) 104 (by decide) := rfl
  rw [unpack_mul, sign?_repack, hlongest]
  rcases (single_of_isFinite hx).zero_or_finite with ⟨s, hs⟩ | ⟨s, m, e, hm, -, hs⟩
  · have hzero : value x = 0 := by rw [value, hs]; rfl
    linarith
  · rw [hs]
    cases s with
    | negative => exact sign?_roundWithAccuracy ..
    | positive =>
        rw [value, hs, valueOf_positive] at h
        have : (0 : ℚ) < m * 2 ^ e := by positivity
        linarith

end TileWorld.Number
