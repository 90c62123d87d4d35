import Mathlib.Algebra.Order.Field.Power
import Mathlib.Data.Rat.Floor
import Mathlib.Tactic.Positivity
import TileWorld.Proofs.Geometry
import TileWorld.Proofs.Number.Widen

/-! The floor and the ceiling of a number as integers: exact while they fit 64 bits, saturated
otherwise. -/

namespace TileWorld.Number

open Float.Model (UnpackedFloat)
open Float.Model.UnpackedFloat

/-! ## Floor and ceiling -/

namespace Exact

/-- The rational number with a sign, a mantissa and an exponent. -/
def rational (negative : Bool) (mantissa : Nat) (exponent : Int) : ℚ :=
  (if negative then -mantissa else mantissa : ℚ) * 2 ^ exponent

/-- The value rounded down is at most `n`; an infinity is rounded to itself. -/
def FloorLe : Exact → Int → Prop
  | .nan, _ => False
  | .infinite negative, _ => negative = true
  | .finite negative mantissa exponent, n => ⌊rational negative mantissa exponent⌋ ≤ n

/-- `n` is less than the value rounded up; an infinity is rounded to itself. -/
def LtCeil : Int → Exact → Prop
  | _, .nan => False
  | _, .infinite negative => negative = false
  | n, .finite negative mantissa exponent => n < ⌈rational negative mantissa exponent⌉

instance (v : Exact) (n : Int) : Decidable (v.FloorLe n) :=
  match v with
  | .nan => .isFalse id
  | .infinite negative => decEq negative true
  | .finite negative m e => Int.decLe ⌊rational negative m e⌋ n

instance (v : Exact) (n : Int) : Decidable (v.LtCeil n) :=
  match v with
  | .nan => .isFalse id
  | .infinite negative => decEq negative false
  | .finite negative m e => Int.decLt n ⌈rational negative m e⌉

theorem rational_not (negative : Bool) (m : Nat) (e : Int) :
    rational (!negative) m e = -rational negative m e := by
  cases negative <;> simp [rational]

theorem floor_finite (negative : Bool) (m : Nat) (e low high : Int) :
    (finite negative m e).floor low high = max low (min high ⌊rational negative m e⌋) := by
  obtain ⟨signed, hsigned⟩ : ∃ signed : Int, signed = if negative then -(m : Int) else m := ⟨_, rfl⟩
  have hrational : rational negative m e = signed * 2 ^ e := by
    rw [rational, hsigned]
    cases negative <;> simp
  rw [floor, hrational, ← hsigned]
  congr 2
  split
  · next he =>
    obtain ⟨k, rfl⟩ := Int.eq_ofNat_of_zero_le he
    rw [Int.toNat_natCast, zpow_natCast]
    exact_mod_cast (Int.floor_intCast (R := ℚ) (signed * 2 ^ k)).symm
  · next he =>
    obtain ⟨k, rfl⟩ : ∃ k : Nat, e = -k := ⟨(-e).toNat, by omega⟩
    rw [neg_neg, Int.toNat_natCast, zpow_neg, zpow_natCast, ← div_eq_mul_inv]
    exact_mod_cast (Rat.floor_intCast_div_natCast signed (2 ^ k)).symm

theorem ceil_finite (negative : Bool) (m : Nat) (e low high : Int) :
    (finite negative m e).ceil low high = min high (max low ⌈rational negative m e⌉) := by
  rw [ceil, neg, floor_finite, rational_not, Int.floor_neg]
  omega

end Exact

variable {x y : Float32} {n : Int}

theorem floorInt64_le_iff (hx : Exact.ofSingle x ≠ .nan) (hlow : minInt64 ≤ n)
    (hhigh : n < maxInt64) : floorInt64 x ≤ n ↔ (Exact.ofSingle x).FloorLe n := by
  rw [floorInt64]
  cases hv : Exact.ofSingle x with
  | nan => exact absurd hv hx
  | infinite negative => cases negative <;> simp [Exact.floor, Exact.FloorLe, hlow, hhigh]
  | finite negative m e =>
    rw [Exact.floor_finite, Exact.FloorLe]
    omega

theorem lt_ceilInt64_iff (hx : Exact.ofSingle x ≠ .nan) (hlow : minInt64 ≤ n)
    (hhigh : n < maxInt64) : n < ceilInt64 x ↔ (Exact.ofSingle x).LtCeil n := by
  rw [ceilInt64]
  cases hv : Exact.ofSingle x with
  | nan => exact absurd hv hx
  | infinite negative =>
    cases negative <;> simp [Exact.ceil, Exact.neg, Exact.floor, Exact.LtCeil, hlow, hhigh]
  | finite negative m e =>
    rw [Exact.ceil_finite, Exact.LtCeil]
    omega

/-! ## Signs -/

/-- The sign of a number, none for a NaN. -/
def sign? : UnpackedFloat → Option Sign
  | .notANumber => none
  | .infinity s | .zero s | .finite s _ _ _ => some s

variable {spec : Float.Model.Format}

theorem sign?_unpack_packComponents (s : Sign) {e : BitVec spec.exponentBits} (he : e ≠ -1#_)
    (m : BitVec spec.mantissaBitsWithoutImplicit) :
    sign? (unpack spec (packComponents spec s e m)) = some s := by
  rw [unpack]
  simp only [unpackExponent_packComponents, unpackMantissa_packComponents,
    unpackSign_packComponents, Sign.ofBitVec_toBitVec, if_neg he]
  split
  · split <;> rfl
  · rfl

theorem sign?_unpack_packedInfinity (s : Sign) :
    sign? (unpack spec (packedInfinity spec s)) = some s := by
  simp [unpack, packedInfinity, sign?]

/-- Rounding to the format may reach an infinity or a zero, which keep the sign. -/
theorem sign?_unpack_pack (u : UnpackedFloat) : sign? (unpack spec (pack spec u)) = sign? u := by
  have hzero : BitVec.zero spec.exponentBits ≠ -1#_ := by simp [spec.he.ne']
  cases u with
  | notANumber => rw [pack, unpack_packedNaN]
  | infinity s => exact sign?_unpack_packedInfinity s
  | zero s => exact sign?_unpack_packComponents s hzero _
  | finite s m e hm =>
    rw [pack]
    split
    · exact sign?_unpack_packedInfinity s
    · next hlt =>
      split
      · refine sign?_unpack_packComponents s (fun h => ?_) _
        have h := congrArg BitVec.toNat h
        rw [BitVec.neg_one_eq_allOnes, BitVec.toNat_allOnes, BitVec.toNat_ofNat,
          Nat.mod_eq_of_lt (by omega)] at h
        omega
      · exact sign?_unpack_packComponents s hzero _

theorem sign?_roundWithAccuracy (s : Sign) (m : Nat) (e : Int) (a : Accuracy) :
    sign? (roundWithAccuracy spec s m e a) = some s := by
  simp only [roundWithAccuracy]
  split <;> rfl

theorem sign?_div_finite (u : UnpackedFloat) (s : Sign) (m : Nat) (e : Int) (hm : 0 < m) :
    sign? (UnpackedFloat.div spec u (.finite s m e hm)) = (sign? u).map (· / s) := by
  cases u with
  | finite => exact sign?_roundWithAccuracy ..
  | _ => rfl

theorem sign?_normalize_isSome (m e : Int) (s : Sign) :
    (sign? (UnpackedFloat.normalize spec m e s)).isSome := by
  rw [UnpackedFloat.normalize]
  split
  · exact congrArg Option.isSome (sign?_roundWithAccuracy ..)
  · rfl
  · exact congrArg Option.isSome (sign?_roundWithAccuracy ..)

theorem sign?_add_isSome {u v : UnpackedFloat} (hu : u.isFinite = true) (hv : v.isFinite = true) :
    (sign? (UnpackedFloat.add spec u v)).isSome := by
  cases u with
  | notANumber => cases hu
  | infinity => cases hu
  | zero s =>
    cases v with
    | notANumber => cases hv
    | infinity => cases hv
    | zero t => cases s <;> cases t <;> rfl
    | finite => rfl
  | finite s m e hm =>
    cases v with
    | notANumber => cases hv
    | infinity => cases hv
    | zero t => rfl
    | finite => exact sign?_normalize_isSome ..

/-! ## Words -/

def exactOf : UnpackedFloat → Exact
  | .notANumber => .nan
  | .infinity s => .infinite (s == .negative)
  | .zero s => .finite (s == .negative) 0 (-149)
  | .finite s m e _ => .finite (s == .negative) m e

def ofFields (negative : Bool) (biased fraction : Nat) : Exact :=
  if biased = 255 then if fraction = 0 then .infinite negative else .nan
  else if biased = 0 then .finite negative fraction (-149)
  else .finite negative (2 ^ 23 + fraction) (biased - 150)

theorem decode_single (w : Nat) :
    Format.single.decode w =
      ofFields (w / 2 ^ 31 % 2 == 1) (w / 2 ^ 23 % 2 ^ 8) (w % 2 ^ 23) := by
  have hword : Format.single.signWord = 2 ^ 31 := rfl
  have hbits : Format.single.fractionBits = 23 := rfl
  have hinfinity : Format.single.infinityWord = 255 * 2 ^ 23 := rfl
  have hmin : Format.single.minExponent = -149 := by decide
  have hbiased : w % 2 ^ 31 / 2 ^ 23 = w / 2 ^ 23 % 2 ^ 8 :=
    Nat.mod_mul_right_div_self w (2 ^ 23) (2 ^ 8)
  have hfraction : w % 2 ^ 31 % 2 ^ 23 = w % 2 ^ 23 := by omega
  have hsplit := Nat.div_add_mod (w % 2 ^ 31) (2 ^ 23)
  rw [hbiased, hfraction] at hsplit
  have hbiased_lt : w / 2 ^ 23 % 2 ^ 8 < 256 := Nat.mod_lt _ (by decide)
  have hfraction_lt : w % 2 ^ 23 < 2 ^ 23 := Nat.mod_lt _ (by decide)
  simp only [Format.decode, hword, hbits, hinfinity, hmin, hbiased, hfraction, ofFields]
  generalize w / 2 ^ 23 % 2 ^ 8 = biased at *
  generalize w % 2 ^ 23 = fraction at *
  by_cases hspecial : biased = 255
  · by_cases hempty : fraction = 0
    · rw [if_pos (by omega), if_pos hspecial, if_pos hempty]
    · rw [if_neg (by omega), if_pos (by omega), if_pos hspecial, if_neg hempty]
  · rw [if_neg (by omega), if_neg (by omega), if_neg hspecial]
    split
    · rfl
    · congr 1
      omega

theorem toNat_unpackMantissa (b : BitVec spec.numBits) :
    (unpackMantissa b).toNat = b.toNat % 2 ^ spec.mantissaBitsWithoutImplicit := by
  rw [unpackMantissa_def, BitVec.extractLsb'_toNat, Nat.shiftRight_zero]

theorem toNat_unpackSign (b : BitVec spec.numBits) :
    (unpackSign b).toNat =
      b.toNat / 2 ^ (spec.mantissaBitsWithoutImplicit + spec.exponentBits) % 2 := by
  rw [unpackSign_def, BitVec.extractLsb'_toNat, Nat.shiftRight_eq_div_pow, Nat.pow_one]

theorem ofBitVec_beq_negative (b : BitVec 1) :
    (Sign.ofBitVec b == .negative) = (b.toNat == 1) := by
  decide +revert

theorem toNat_one_append {n : Nat} (b : BitVec n) : (1#1 ++ b).toNat = 2 ^ n + b.toNat := by
  rw [BitVec.toNat_append, ← Nat.shiftLeft_add_eq_or_of_lt b.isLt, Nat.shiftLeft_eq]
  simp

theorem exactOf_unpack (b : BitVec 32) :
    exactOf (unpack .binary32 b) =
      ofFields (b.toNat / 2 ^ 31 % 2 == 1) (b.toNat / 2 ^ 23 % 2 ^ 8) (b.toNat % 2 ^ 23) := by
  have hsign : (Sign.ofBitVec (@unpackSign .binary32 b) == .negative) =
      (b.toNat / 2 ^ 31 % 2 == 1) := by
    rw [ofBitVec_beq_negative, toNat_unpackSign]
    rfl
  have hexponent : (@unpackExponent .binary32 b).toNat = b.toNat / 2 ^ 23 % 2 ^ 8 :=
    @toNat_unpackExponent .binary32 b
  have hmantissa : (@unpackMantissa .binary32 b).toNat = b.toNat % 2 ^ 23 :=
    @toNat_unpackMantissa .binary32 b
  have hones : @unpackExponent .binary32 b = -1#8 ↔ (@unpackExponent .binary32 b).toNat = 255 :=
    BitVec.toNat_inj.symm
  have hlow : @unpackExponent .binary32 b = 0#8 ↔ (@unpackExponent .binary32 b).toNat = 0 :=
    BitVec.toNat_inj.symm
  have hempty : @unpackMantissa .binary32 b = 0#23 ↔ (@unpackMantissa .binary32 b).toNat = 0 :=
    BitVec.toNat_inj.symm
  rw [unpack, ← hsign, ← hexponent, ← hmantissa, ofFields]
  dsimp only
  split
  · next h =>
    rw [if_pos (hones.mp h)]
    split
    · next hm => rw [if_pos (hempty.mp hm)]; rfl
    · next hm => rw [if_neg (mt hempty.mpr hm)]; rfl
  · next h =>
    rw [if_neg (mt hones.mpr h)]
    split
    · next hz =>
      rw [if_pos (hlow.mp hz), hz]
      split
      · next hm => rw [hm]; rfl
      · rfl
    · next hz =>
      rw [if_neg (mt hlow.mpr hz), exactOf, toNat_one_append]
      rfl

/-- Both ways to read a word agree. -/
theorem ofSingle_eq_exactOf (x : Float32) : Exact.ofSingle x = exactOf x.toModel.unpack :=
  (decode_single _).trans (exactOf_unpack x.toBits.toBitVec).symm

/-! ## Quotients by a length -/

theorem ofSingle_ne_nan_iff (x : Float32) :
    Exact.ofSingle x ≠ .nan ↔ (sign? x.toModel.unpack).isSome := by
  rw [ofSingle_eq_exactOf]
  cases x.toModel.unpack <;> simp [exactOf, sign?]

theorem exists_unpack_of_pos {m : Float32} (hm : m.isFinite = true) (hpos : 0 < m) :
    ∃ k e hk, m.toModel.unpack = .finite .positive k e hk := by
  have hfinite : m.toModel.unpack.isFinite = true := hm
  have hlt : (UnpackedFloat.zero .positive).lt m.toModel.unpack = true :=
    (lt_iff_unpack 0 m).mp hpos
  generalize m.toModel.unpack = u at hfinite hlt
  cases u with
  | notANumber => cases hfinite
  | infinity => cases hfinite
  | zero s => simp [UnpackedFloat.lt, UnpackedFloat.compare] at hlt
  | finite s k e hk =>
    cases s with
    | negative => simp [UnpackedFloat.lt, UnpackedFloat.compare] at hlt
    | positive => exact ⟨k, e, hk, rfl⟩

theorem sign?_unpack_div {m : Float32} (hm : m.isFinite = true) (hpos : 0 < m) (x : Float32) :
    sign? (x / m).toModel.unpack = sign? x.toModel.unpack := by
  obtain ⟨k, e, hk, hunpack⟩ := exists_unpack_of_pos hm hpos
  rw [unpack_div, hunpack]
  change sign? (unpack .binary32 (pack .binary32 _)) = _
  rw [sign?_unpack_pack, sign?_div_finite]
  cases sign? x.toModel.unpack with
  | none => rfl
  | some s => cases s <;> rfl

theorem ofSingle_div_ne_nan_iff {m : Float32} (hm : m.isFinite = true) (hpos : 0 < m)
    (x : Float32) : Exact.ofSingle (x / m) ≠ .nan ↔ Exact.ofSingle x ≠ .nan := by
  rw [ofSingle_ne_nan_iff, ofSingle_ne_nan_iff, sign?_unpack_div hm hpos]

theorem ofSingle_ne_nan_of_isFinite {x : Float32} (hx : x.isFinite = true) :
    Exact.ofSingle x ≠ .nan := by
  have hfinite : x.toModel.unpack.isFinite = true := hx
  rw [ofSingle_eq_exactOf]
  cases hu : x.toModel.unpack with
  | notANumber => simp [hu, UnpackedFloat.isFinite] at hfinite
  | _ => simp [exactOf]

theorem ofSingle_add_ne_nan {x y : Float32} (hx : x.isFinite = true) (hy : y.isFinite = true) :
    Exact.ofSingle (x + y) ≠ .nan := by
  rw [ofSingle_ne_nan_iff]
  change (sign? (unpack .binary32 (pack .binary32 _))).isSome
  rw [sign?_unpack_pack]
  exact sign?_add_isSome hx hy

theorem rational_true_nonpos (k : Nat) (e : Int) : Exact.rational true k e ≤ 0 := by
  have hpow : (0 : ℚ) ≤ 2 ^ e := by positivity
  simpa [Exact.rational] using mul_nonneg (Nat.cast_nonneg k) hpow

theorem not_ltCeil_exactOf {u : UnpackedFloat} (hu : sign? u = some .negative ∨ ∃ s, u = .zero s)
    {n : Int} (hn : 0 ≤ n) : ¬ (exactOf u).LtCeil n := by
  have hnonpos : ∀ k e, ¬ n < ⌈Exact.rational true k e⌉ := fun k e hlt =>
    absurd (Int.ceil_mono (rational_true_nonpos k e)) (by rw [Int.ceil_zero]; omega)
  rcases hu with hsign | ⟨s, rfl⟩
  · cases u with
    | notANumber => cases hsign
    | infinity s => cases hsign; exact Bool.noConfusion
    | zero s => cases hsign; exact hnonpos _ _
    | finite s k e hk => cases hsign; exact hnonpos _ _
  · have hzero : Exact.rational (s == .negative) 0 (-149) = 0 := by simp [Exact.rational]
    rw [exactOf, Exact.LtCeil, hzero, Int.ceil_zero]
    omega

theorem negative_or_zero_of_le_zero {x : Float32} (hx : x ≤ 0) :
    sign? x.toModel.unpack = some .negative ∨ ∃ s, x.toModel.unpack = .zero s := by
  have hle : x.toModel.unpack.le (.zero .positive) = true := (le_iff_unpack x 0).mp hx
  generalize x.toModel.unpack = u at hle
  cases u with
  | notANumber => simp [UnpackedFloat.le, UnpackedFloat.compare] at hle
  | zero s => exact .inr ⟨s, rfl⟩
  | infinity s | finite s k e hk =>
    cases s with
    | negative => exact .inl rfl
    | positive => simp [UnpackedFloat.le, UnpackedFloat.compare] at hle

/-- What is not above zero stays so when it is divided by a length. -/
theorem not_ltCeil_div {m x : Float32} (hm : m.isFinite = true) (hpos : 0 < m) (hx : x ≤ 0)
    {n : Int} (hn : 0 ≤ n) : ¬ (Exact.ofSingle (x / m)).LtCeil n := by
  rw [ofSingle_eq_exactOf]
  refine not_ltCeil_exactOf ?_ hn
  rcases negative_or_zero_of_le_zero hx with hsign | ⟨s, hzero⟩
  · exact .inl ((sign?_unpack_div hm hpos x).trans hsign)
  · obtain ⟨k, e, hk, hunpack⟩ := exists_unpack_of_pos hm hpos
    refine .inr ⟨s / .positive, ?_⟩
    rw [unpack_div, hunpack, hzero]
    exact unpack_packedZero

end TileWorld.Number
