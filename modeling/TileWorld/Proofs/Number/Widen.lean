import Mathlib
import TileWorld.Proofs.Number.Exact

/-! A finite number of single precision keeps its value in double precision and comes back
unchanged. The lemmas on the bits of floats come only with the whole library. -/

namespace TileWorld.Number

open Float.Model (UnpackedFloat)
open Float.Model.UnpackedFloat

variable {spec : Float.Model.Format}

/-! ## Finite numbers -/

theorem isFinite_unpack (b : BitVec spec.numBits) :
    (UnpackedFloat.unpack spec b).isFinite = decide (unpackExponent b ≠ -1#_) := by
  rw [UnpackedFloat.unpack]
  split
  · split <;> simp_all [UnpackedFloat.isFinite]
  · split
    · split <;> simp_all [UnpackedFloat.isFinite]
    · simp_all [UnpackedFloat.isFinite]

theorem toNat_unpackExponent (b : BitVec spec.numBits) :
    (unpackExponent b).toNat =
      b.toNat / 2 ^ spec.mantissaBitsWithoutImplicit % 2 ^ spec.exponentBits := by
  rw [unpackExponent_def, BitVec.extractLsb'_toNat, Nat.shiftRight_eq_div_pow]

theorem unpackExponent_ne_iff (b : BitVec spec.numBits) :
    unpackExponent b ≠ -1#_ ↔
      b.toNat % 2 ^ (spec.mantissaBitsWithoutImplicit + spec.exponentBits) <
        (2 ^ spec.exponentBits - 1) * 2 ^ spec.mantissaBitsWithoutImplicit := by
  have hfield : (unpackExponent b).toNat =
      b.toNat % 2 ^ (spec.mantissaBitsWithoutImplicit + spec.exponentBits) /
        2 ^ spec.mantissaBitsWithoutImplicit := by
    rw [toNat_unpackExponent, Nat.pow_add, Nat.mod_mul_right_div_self]
  have hlt := (unpackExponent b).isLt
  have hones : unpackExponent b = -1#_ ↔ (unpackExponent b).toNat = 2 ^ spec.exponentBits - 1 := by
    rw [← BitVec.toNat_inj, BitVec.neg_one_eq_allOnes, BitVec.toNat_allOnes]
  rw [← Nat.div_lt_iff_lt_mul (Nat.two_pow_pos _), ← hfield, Ne, hones]
  omega

theorem isFinite_single_iff (x : Float32) :
    x.isFinite = true ↔ x.toBits.toNat % Format.single.signWord < Format.single.infinityWord := by
  have hunpack : x.isFinite = (UnpackedFloat.unpack .binary32 x.toBits.toBitVec).isFinite := rfl
  rw [hunpack, isFinite_unpack, decide_eq_true_iff]
  exact unpackExponent_ne_iff _

theorem isFinite_double_iff (x : Float) :
    x.isFinite = true ↔ x.toBits.toNat % Format.double.signWord < Format.double.infinityWord := by
  have hunpack : x.isFinite = (UnpackedFloat.unpack .binary64 x.toBits.toBitVec).isFinite := rfl
  rw [hunpack, isFinite_unpack, decide_eq_true_iff]
  exact unpackExponent_ne_iff _

theorem toBits_ofBits_double {w : UInt64}
    (hfinite : w.toNat % Format.double.signWord < Format.double.infinityWord) :
    (Float.ofBits w).toBits = w := by
  have hexponent : @unpackExponent .binary64 w.toBitVec ≠ -1#_ :=
    (unpackExponent_ne_iff _).mpr hfinite
  have hword : UnpackedFloat.pack .binary64 (UnpackedFloat.unpack .binary64 w.toBitVec) =
      w.toBitVec := by
    rw [pack_unpack, if_neg]
    exact fun hnan => hexponent (decide_eq_true_iff.mp hnan).1
  exact congrArg UInt64.ofBitVec hword

/-- The word of an infinity or of what is no number is never that of a finite number. -/
theorem isFinite_ofBits_double_eq_false {w : UInt64}
    (hw : Format.double.infinityWord ≤ w.toNat % Format.double.signWord) :
    (Float.ofBits w).isFinite = false := by
  have hunpack : (Float.ofBits w).isFinite =
      (UnpackedFloat.unpack .binary64 (UnpackedFloat.pack .binary64
        (UnpackedFloat.unpack .binary64 w.toBitVec))).isFinite := rfl
  have hones : @unpackExponent .binary64 w.toBitVec = -1#_ :=
    Classical.not_not.mp fun h => absurd ((unpackExponent_ne_iff _).mp h) (Nat.not_lt.mpr hw)
  rw [hunpack, pack_unpack, isFinite_unpack, decide_eq_false_iff_not, not_not]
  split
  · exact unpackExponent_packComponents ..
  · exact hones

/-! ## From single to double precision and back -/

/-- A canonical value of single precision is written with a longer mantissa in double precision. -/
theorem exists_canonical_double {m : Nat} {e : Int} (h : Format.single.Canonical m e)
    (negative : Bool) :
    ∃ m' e', Format.double.Canonical m' e' ∧
      Format.double.encode (.finite negative m e) = Format.double.encode (.finite negative m' e') ∧
      Format.single.encode (.finite negative m' e') =
        Format.single.encode (.finite negative m e) := by
  have hsingle : Format.single.minExponent = -149 := by decide
  have hdouble : Format.double.minExponent = -1074 := by decide
  by_cases hm : m = 0
  · subst hm
    refine ⟨0, Format.double.minExponent, ⟨by decide, le_rfl, fun h => absurd h (lt_irrefl _), ?_⟩,
      by simp [Format.encode, Format.magnitudeWord], by simp [Format.encode, Format.magnitudeWord]⟩
    rw [Int.sub_self]
    decide
  · have hlog : m.log2 < 24 := (Nat.log2_lt hm).mpr h.mantissa_lt
    have hmin := h.minExponent_le
    have hmax := h.exponent_lt
    rw [hsingle] at hmin hmax
    have hmax : (e - -149).toNat + 2 < 256 := hmax
    have hlong : (m <<< (52 - m.log2)).log2 = 52 := by
      rw [Format.log2_shiftLeft hm]
      omega
    obtain ⟨hlow, hhigh⟩ :=
      (Nat.log2_eq_iff (Format.shiftLeft_ne_zero hm (52 - m.log2))).mp hlong
    have hcanonical : Format.double.Canonical (m <<< (52 - m.log2)) (e - (52 - m.log2 : Nat)) := by
      refine ⟨hhigh, ?_, fun _ => hlow, ?_⟩
      · rw [hdouble]
        omega
      · rw [hdouble]
        change _ < 2048
        omega
    refine ⟨_, _, hcanonical, ?_, ?_⟩
    · have hword := hcanonical.magnitudeWord_add hm
      rw [Int.sub_add_cancel] at hword
      rw [Format.encode, Format.encode, hword]
    · rw [Format.encode, Format.encode, h.magnitudeWord_sub hm]

/-- What is not finite is written as it was read: infinite or no number. -/
theorem infinityWord_le_encode {w : Nat}
    (hw : Format.single.infinityWord ≤ w % Format.single.signWord) :
    let word := Format.double.encode (Format.single.decode w)
    word < 2 ^ 64 ∧ Format.double.infinityWord ≤ word % Format.double.signWord := by
  intro word
  have hword : word = Format.double.encode (Format.single.decode w) := rfl
  rw [Format.decode] at hword
  split at hword
  · rw [hword]
    generalize (w / Format.single.signWord % 2 == 1) = negative
    cases negative <;> decide
  · rw [hword, if_pos (by omega)]
    decide

theorem toBits_lt (x : Float32) : x.toBits.toNat < 2 * Format.single.signWord :=
  x.toBits.toNat_lt

theorem exists_widen {x : Float32} (hx : x.isFinite = true) :
    ∃ negative m e, Format.double.Canonical m e ∧
      (widen x).toBits.toNat = Format.double.encode (.finite negative m e) ∧
      Format.single.encode (.finite negative m e) = x.toBits.toNat := by
  obtain ⟨negative, m, e, hdecode, hcanonical, hencode⟩ := Format.exists_canonical (f := .single)
    (by decide) (toBits_lt x) ((isFinite_single_iff x).mp hx)
  obtain ⟨m', e', hcanonical', hdouble, hsingle⟩ := exists_canonical_double hcanonical negative
  refine ⟨negative, m', e', hcanonical', ?_, hsingle.trans hencode⟩
  have hlt := hcanonical'.encode_lt negative
  have hword : (Format.double.encode (.finite negative m' e')).toUInt64.toNat =
      Format.double.encode (.finite negative m' e') :=
    Nat.mod_eq_of_lt hlt
  rw [widen, Exact.ofSingle, Exact.toDouble, hdecode, hdouble, toBits_ofBits_double, hword]
  rw [hword, hcanonical'.encode_mod]
  exact hcanonical'.word_lt

/-- A finite number comes back unchanged. -/
theorem narrow_widen {x : Float32} (hx : x.isFinite = true) : narrow (widen x) = x := by
  obtain ⟨negative, m, e, hcanonical, hwiden, hsingle⟩ := exists_widen hx
  rw [narrow, Exact.ofDouble, Exact.toSingle, hwiden, hcanonical.decode_encode, hsingle]
  exact (congrArg Float32.ofBits (UInt32.ofNat_toNat)).trans x.ofBits_toBits

theorem isFinite_widen (x : Float32) : (widen x).isFinite = x.isFinite := by
  cases hx : x.isFinite with
  | true =>
      obtain ⟨negative, m, e, hcanonical, hwiden, -⟩ := exists_widen hx
      rw [isFinite_double_iff, hwiden, hcanonical.encode_mod]
      exact hcanonical.word_lt
  | false =>
      have hinfinite : Format.single.infinityWord ≤ x.toBits.toNat % Format.single.signWord :=
        Nat.not_lt.mp fun h => by simp [(isFinite_single_iff x).mpr h] at hx
      obtain ⟨hlt, hword⟩ := infinityWord_le_encode hinfinite
      refine isFinite_ofBits_double_eq_false ?_
      rwa [UInt64.toNat_ofNat', Exact.ofSingle, Nat.mod_eq_of_lt hlt]

end TileWorld.Number
