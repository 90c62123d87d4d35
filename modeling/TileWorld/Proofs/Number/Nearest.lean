import Mathlib.Tactic.FieldSimp
import Mathlib.Tactic.LinearCombination
import Mathlib.Tactic.NormNum
import TileWorld.Proofs.Number.Rounding

/-! Every operation on finite numbers rounds to nearest. The bits shifted out of a mantissa leave a
round bit and a sticky bit, which tell on which side of a half it lies. -/

namespace TileWorld.Number

open Float.Model (UnpackedFloat totalExponent)
open Float.Model.UnpackedFloat

/-! ## Residual bits -/

/-- What a mantissa with its residual bits tells of the exact mantissa. -/
def Describes (em : ExtendedMantissa) (y : ℚ) : Prop :=
  match em with
  | ⟨m, false, false⟩ => y = m
  | ⟨m, false, true⟩ => m < y ∧ y < m + 1 / 2
  | ⟨m, true, false⟩ => y = m + 1 / 2
  | ⟨m, true, true⟩ => m + 1 / 2 < y ∧ y < m + 1

namespace Describes

variable {em : ExtendedMantissa} {y : ℚ}

theorem mantissa_le (h : Describes em y) : em.mantissa ≤ y := by
  obtain ⟨m, _ | _, _ | _⟩ := em <;> simp only [Describes] at h ⊢ <;> linarith

theorem shiftRightOne (h : Describes em y) : Describes em.shiftRightOne (y / 2) := by
  obtain ⟨m, round, sticky⟩ := em
  obtain ⟨half, bit, hm, hbit⟩ : ∃ half bit, m = 2 * half + bit ∧ (bit = 0 ∨ bit = 1) :=
    ⟨m / 2, m % 2, by omega, by omega⟩
  have hhalf : m / 2 = half := by omega
  have hparity : m % 2 = bit := by omega
  have hcast : (m : ℚ) = 2 * half + bit := by exact_mod_cast hm
  rcases hbit with rfl | rfl <;> cases round <;> cases sticky <;>
    simp [Describes, ExtendedMantissa.shiftRightOne, hhalf, hparity, hcast] at h ⊢ <;> grind

theorem shiftRight (h : Describes em y) (k : ℕ) : Describes (em >>> k) (y / 2 ^ k) := by
  change Describes (k.repeat ExtendedMantissa.shiftRightOne em) _
  induction k with
  | zero => simpa [Nat.repeat] using h
  | succ k ih =>
      have hsucc := ih.shiftRightOne
      rwa [div_div, ← pow_succ] at hsucc

theorem shiftRight_mantissa (em : ExtendedMantissa) (k : ℕ) :
    (em >>> k).mantissa = em.mantissa / 2 ^ k := by
  change (k.repeat ExtendedMantissa.shiftRightOne em).mantissa = _
  induction k with
  | zero => exact (Nat.div_one _).symm
  | succ k ih =>
      change (k.repeat ExtendedMantissa.shiftRightOne em).mantissa / 2 = _
      rw [ih, Nat.div_div_eq_div_mul, Nat.pow_succ]

theorem rounded_mem (em : ExtendedMantissa) :
    em.roundedMantissa = em.mantissa ∨ em.roundedMantissa = em.mantissa + 1 := by
  obtain ⟨m, _ | _, _ | _⟩ := em
  · exact .inl rfl
  · exact .inl rfl
  · change m + m % 2 = m ∨ m + m % 2 = m + 1
    omega
  · exact .inr rfl

theorem abs_rounded_sub_le (h : Describes em y) : |(em.roundedMantissa : ℚ) - y| ≤ 1 / 2 := by
  obtain ⟨m, round, sticky⟩ := em
  obtain hrounded | hrounded := rounded_mem ⟨m, round, sticky⟩ <;> rw [hrounded, abs_le] <;>
    cases round <;> cases sticky <;>
    simp_all [Describes, ExtendedMantissa.roundedMantissa, ExtendedMantissa.accuracy,
      Accuracy.roundToNearestEven] <;> grind

end Describes

/-! ## Digits -/

/-- The digits of a number of single precision: all bits of the mantissa are used, unless the
exponent is the least. -/
structure Normalized (m : ℕ) (e : ℤ) : Prop where
  mantissa_lt : m < 2 ^ 24
  exponent_ge : -149 ≤ e
  hidden : -149 < e → 2 ^ 23 ≤ m

def tiny : ℚ := 2 ^ (-150 : ℤ)

theorem tiny_pos : 0 < tiny := zpow_pos two_pos _

theorem tiny_le_one : tiny ≤ 1 := zpow_le_one_of_nonpos₀ one_le_two (by norm_num)

/-- The digits next to a number that is not negative. -/
structure Rounded (y : ℚ) (m : ℕ) (e : ℤ) : Prop extends Normalized m e where
  close : |m * 2 ^ e - y| ≤ y / 2 ^ 24 + tiny
  fits : y < 2 ^ 128 - 2 ^ 103 → e ≤ 104

/-- The number with a sign and digits, a signed zero if the mantissa is zero. -/
def signed (s : Sign) (m : ℕ) (e : ℤ) : UnpackedFloat :=
  if h : m = 0 then .zero s else .finite s m e (Nat.pos_of_ne_zero h)

theorem targetExponent_eq (m : ℕ) (e : ℤ) :
    Float.Model.Format.binary32.targetExponent (totalExponent m e) =
      max (m.log2 + e - 23) (-149) := by
  simp only [Float.Model.Format.targetExponent, totalExponent, Float.Model.Format.mantissaBits,
    Float.Model.Format.minExponent]
  norm_num
  omega

/-- How far a mantissa is shifted right to have 24 bits at most. -/
def excess (m : ℕ) (e : ℤ) : ℕ := (max (m.log2 + e - 23) (-149) - e).toNat

theorem roundWithAccuracy_eq (s : Sign) (m : ℕ) (e : ℤ) (a : Accuracy) :
    roundWithAccuracy .binary32 s m e a =
      let r := (ExtendedMantissa.ofMantissaAndAccuracy m a >>> excess m e).roundedMantissa
      let k := excess r (e + excess m e)
      signed s (r / 2 ^ k) (e + excess m e + k) := by
  simp only [roundWithAccuracy, shiftToTargetExponent, shiftToExponent, targetExponent_eq,
    Describes.shiftRight_mantissa]
  rfl

/-- Rounding can carry into a bit too many, which is shifted out without a loss. -/
theorem excess_of_le {r : ℕ} {t : ℤ} (hr : r ≤ 2 ^ 24) (ht : -149 ≤ t) :
    (r < 2 ^ 24 ∧ excess r t = 0) ∨ (r = 2 ^ 24 ∧ excess r t = 1) := by
  rcases hr.lt_or_eq with hlt | rfl
  · have hlog : r.log2 < 24 := by
      rcases eq_or_ne r 0 with rfl | hzero
      · decide
      · exact (Nat.log2_lt hzero).mpr hlt
    exact .inl ⟨hlt, by unfold excess; omega⟩
  · have hlog : (2 ^ 24 : ℕ).log2 = 24 := Nat.log2_two_pow
    exact .inr ⟨rfl, by unfold excess; omega⟩

/-- Half of the last bit is small, next to a number that uses all bits or next to the least one. -/
theorem half_bit_le {y : ℚ} {t : ℤ} (hnonneg : 0 ≤ y) (ht : -149 ≤ t)
    (hfull : -149 < t → 2 ^ 23 ≤ y) : (2 : ℚ) ^ t / 2 ≤ y * 2 ^ t / 2 ^ 24 + tiny := by
  have hpos : (0 : ℚ) < 2 ^ t := zpow_pos two_pos t
  rcases ht.lt_or_eq with hlow | rfl
  · have hscaled := mul_le_mul_of_nonneg_right (hfull hlow) hpos.le
    linarith [tiny_pos]
  · have hhalf : (2 : ℚ) ^ (-149 : ℤ) / 2 = tiny := by norm_num [tiny]
    have hscaled := mul_nonneg hnonneg hpos.le
    linarith

theorem rounded_of_describes {em : ExtendedMantissa} {y : ℚ} {t : ℤ} (h : Describes em y)
    (hlt : em.mantissa < 2 ^ 24) (ht : -149 ≤ t) (hidden : -149 < t → 2 ^ 23 ≤ em.mantissa) :
    Rounded (y * 2 ^ t) (em.roundedMantissa / 2 ^ excess em.roundedMantissa t)
      (t + excess em.roundedMantissa t) := by
  have hmem := Describes.rounded_mem em
  have hclose := h.abs_rounded_sub_le
  have hle := h.mantissa_le
  generalize em.roundedMantissa = r at hmem hclose ⊢
  have hpos : (0 : ℚ) < 2 ^ t := zpow_pos two_pos t
  have hnonneg : 0 ≤ y := (Nat.cast_nonneg _).trans hle
  have hfull : -149 < t → (2 : ℚ) ^ 23 ≤ y := fun hlow =>
    le_trans (by exact_mod_cast hidden hlow) hle
  have hhalf := half_bit_le hnonneg ht hfull
  have hvalue : |r * 2 ^ t - y * 2 ^ t| ≤ y * 2 ^ t / 2 ^ 24 + tiny := by
    rw [← sub_mul, abs_mul, abs_of_pos hpos]
    exact (mul_le_mul_of_nonneg_right hclose hpos.le).trans (by linarith)
  rcases excess_of_le (by omega : r ≤ 2 ^ 24) ht with ⟨hr, hk⟩ | ⟨rfl, hk⟩
  · rw [hk, pow_zero, Nat.div_one, Nat.cast_zero, add_zero]
    refine ⟨⟨hr, ht, fun hlow => ?_⟩, hvalue, fun hfits => ?_⟩
    · have := hidden hlow
      omega
    · by_contra hhigh
      have hpow : (2 : ℚ) ^ (105 : ℤ) ≤ 2 ^ t := zpow_le_zpow_right₀ one_le_two (by omega)
      have hscaled := mul_le_mul (hfull (by omega)) hpow (by positivity) hnonneg
      norm_num at hscaled hfits
      linarith
  · have hcarry : ((2 ^ 24 / 2 ^ 1 : ℕ) : ℚ) * 2 ^ (t + (1 : ℕ)) = (2 ^ 24 : ℕ) * 2 ^ t := by
      rw [Nat.cast_one, zpow_add_one₀ two_ne_zero]
      norm_num
      ring
    rw [hk]
    refine ⟨⟨by norm_num, by omega, fun _ => by norm_num⟩, hcarry ▸ hvalue, fun hfits => ?_⟩
    by_contra hhigh
    have hpow : (2 : ℚ) ^ (104 : ℤ) ≤ 2 ^ t := zpow_le_zpow_right₀ one_le_two (by omega)
    have hy : (2 : ℚ) ^ 24 - 1 / 2 ≤ y := by
      have := (abs_le.mp hclose).2
      push_cast at this
      linarith
    have hscaled := mul_le_mul hy hpow (by positivity) hnonneg
    norm_num at hscaled hfits
    linarith

/-- A mantissa of enough bits, or one whose last bit is below that of every number, is rounded to
the digits next to what it stands for. -/
theorem exists_rounded {s : Sign} {m : ℕ} {e : ℤ} {a : Accuracy} {y : ℚ}
    (hy : Describes (.ofMantissaAndAccuracy m a) y) (he : 23 ≤ m.log2 ∨ e ≤ -149) :
    ∃ n f, Rounded (y * 2 ^ e) n f ∧ roundWithAccuracy .binary32 s m e a = signed s n f := by
  obtain ⟨k, hk⟩ : ∃ k, k = excess m e := ⟨_, rfl⟩
  have hexponent : e + k = max (m.log2 + e - 23) (-149) := by
    rw [hk, excess]
    omega
  have hmantissa : (ExtendedMantissa.ofMantissaAndAccuracy m a >>> k).mantissa = m / 2 ^ k := by
    rw [Describes.shiftRight_mantissa]
    rcases a with _ | ⟨_ | _ | _⟩ <;> rfl
  have hscale : y * 2 ^ e = y / 2 ^ k * 2 ^ (e + k) := by
    rw [zpow_add₀ two_ne_zero, zpow_natCast]
    field_simp
  have hlt : m / 2 ^ k < 2 ^ 24 := by
    refine Nat.div_lt_of_lt_mul (Nat.lt_log2_self.trans_le ?_)
    rw [← pow_add]
    exact Nat.pow_le_pow_right two_pos (by omega)
  have hidden : -149 < e + k → 2 ^ 23 ≤ m / 2 ^ k := by
    intro hlow
    have hlog : m.log2 = 23 + k := by omega
    have hzero : m ≠ 0 := by
      rintro rfl
      rw [Nat.log2_zero] at hlog
      omega
    rw [Nat.le_div_iff_mul_le (Nat.two_pow_pos k), ← pow_add, ← hlog]
    exact Nat.log2_self_le hzero
  rw [roundWithAccuracy_eq, ← hk, hscale]
  exact ⟨_, _, rounded_of_describes (hy.shiftRight k) (hmantissa ▸ hlt) (by omega)
    (hmantissa ▸ hidden), rfl⟩

/-! ## Packing -/

/-- What is read back from the word of an unpacked number. -/
def repack (u : UnpackedFloat) : UnpackedFloat := unpack .binary32 (pack .binary32 u)

theorem repack_notANumber : repack .notANumber = .notANumber := unpack_packedNaN

theorem repack_infinity (s : Sign) : repack (.infinity s) = .infinity s := by
  simp [repack, pack, packedInfinity, unpack]

theorem unpack_packComponents_normal {m b : ℕ} (hlow : 2 ^ 23 ≤ m) (hlt : m < 2 ^ 24) (hb : 0 < b)
    (hmax : b < 255) (s : Sign) (hm : 0 < m) :
    unpack .binary32 (packComponents .binary32 s (BitVec.ofNat 8 b) (BitVec.ofNat 23 m)) =
      .finite s m (b - 150) hm := by
  have hexponent : (BitVec.ofNat 8 b).toNat = b := Nat.mod_eq_of_lt (by omega)
  have hones : BitVec.ofNat 8 b ≠ -1#8 := fun h => hmax.ne (hexponent ▸ congrArg BitVec.toNat h)
  have hzero : BitVec.ofNat 8 b ≠ 0#8 := fun h => hb.ne' (hexponent ▸ congrArg BitVec.toNat h)
  have hmantissa : (1#1 ++ BitVec.ofNat 23 m).toNat = m := by
    rw [toNat_one_append, BitVec.toNat_ofNat]
    omega
  rw [unpack]
  simp only [unpackExponent_packComponents, unpackMantissa_packComponents,
    unpackSign_packComponents, Sign.ofBitVec_toBitVec, if_neg hones, if_neg hzero, hmantissa,
    hexponent]
  rfl

theorem unpack_packComponents_subnormal {m : ℕ} (hlt : m < 2 ^ 23) (s : Sign) (hm : 0 < m) :
    unpack .binary32 (packComponents .binary32 s 0#8 (BitVec.ofNat 23 m)) =
      .finite s m (-149) hm := by
  have hmantissa : (BitVec.ofNat 23 m).toNat = m := Nat.mod_eq_of_lt hlt
  have hzero : BitVec.ofNat 23 m ≠ 0#23 := fun h => hm.ne' (hmantissa ▸ congrArg BitVec.toNat h)
  have hones : (0#8 : BitVec 8) ≠ -1#8 := by decide
  rw [unpack]
  simp only [unpackExponent_packComponents, unpackMantissa_packComponents,
    unpackSign_packComponents, Sign.ofBitVec_toBitVec, if_neg hones, if_true, dif_neg hzero,
    hmantissa]
  rfl

/-- Digits come back from their word, unless the exponent is beyond those of the format. -/
theorem repack_signed {m : ℕ} {e : ℤ} (h : Normalized m e) (s : Sign) :
    repack (signed s m e) = if e ≤ 104 then signed s m e else .infinity s := by
  obtain ⟨hlt, hge, hidden⟩ := h
  unfold signed
  split
  · rename_i hzero
    rw [if_pos (by omega)]
    exact unpack_packedZero
  · rename_i hzero
    obtain ⟨b, hb⟩ : ∃ b : ℕ, (b : ℤ) = e + 150 := ⟨(e + 150).toNat, by omega⟩
    have hbiased : (e + (Float.Model.Format.binary32.exponentBias : ℕ) + (23 : ℕ)).toNat = b := by
      have : (Float.Model.Format.binary32.exponentBias : ℤ) = 127 := rfl
      omega
    have hbits : Float.Model.Format.binary32.mantissaBits = 24 := rfl
    rw [repack, pack]
    simp only [hbiased, hbits]
    by_cases hfits : e ≤ 104
    · rw [if_pos hfits, if_neg (by omega)]
      split
      · rename_i hlog
        have hlow : 2 ^ 23 ≤ m := by
          rw [← Nat.le_log2 hzero]
          omega
        rw [unpack_packComponents_normal hlow hlt (by omega) (by omega) s
          (Nat.pos_of_ne_zero hzero)]
        congr 1
        omega
      · rename_i hlog
        have hhigh : m < 2 ^ 23 := by
          have := (Nat.log2_lt hzero).mpr hlt
          rw [← Nat.log2_lt hzero]
          omega
        rw [unpack_packComponents_subnormal hhigh s (Nat.pos_of_ne_zero hzero)]
        congr 1
        omega
    · rw [if_neg hfits, if_pos (by omega)]
      exact repack_infinity s

/-! ## Values -/

/-- The rational number that an unpacked number stands for, zero for what is not finite. -/
def valueOf : UnpackedFloat → ℚ
  | .finite s m e _ => s.apply m * 2 ^ e
  | _ => 0

/-- A finite number as it is read from a word. -/
def Single (u : UnpackedFloat) : Prop :=
  ∃ s m e, Normalized m e ∧ e ≤ 104 ∧ u = signed s m e

/-- A number next to an exact result: off by half of its last bit at most, and finite if the result
is less than half of the last bit beyond the largest number. -/
structure Nearest (q : ℚ) (u : UnpackedFloat) : Prop where
  isFinite : |q| < 2 ^ 128 - 2 ^ 103 → u.isFinite = true
  close : u.isFinite = true → |valueOf u - q| ≤ |q| / 2 ^ 24 + tiny

theorem valueOf_signed (s : Sign) (m : ℕ) (e : ℤ) :
    valueOf (signed s m e) = s.apply m * 2 ^ e := by
  unfold signed
  split
  · rename_i hzero
    subst hzero
    cases s <;> simp [valueOf, Sign.apply]
  · rfl

theorem isFinite_signed (s : Sign) (m : ℕ) (e : ℤ) : (signed s m e).isFinite = true := by
  unfold signed
  split <;> rfl

theorem cast_apply (s : Sign) (m : ℤ) : (s.apply m : ℚ) = s.apply 1 * m := by
  cases s <;> simp [Sign.apply]

theorem abs_apply_one (s : Sign) : |(s.apply 1 : ℚ)| = 1 := by
  cases s <;> simp [Sign.apply]

theorem signed_of_pos {m : ℕ} (hm : 0 < m) (s : Sign) (e : ℤ) :
    signed s m e = .finite s m e hm :=
  dif_neg hm.ne'

theorem single_zero (s : Sign) : Single (.zero s) :=
  ⟨s, 0, -149, ⟨by norm_num, le_rfl, fun h => absurd h (lt_irrefl _)⟩, by norm_num, rfl⟩

theorem single_unpack {b : BitVec 32} (h : (unpack .binary32 b).isFinite = true) :
    Single (unpack .binary32 b) := by
  have hmantissa : (@unpackMantissa .binary32 b).toNat < 2 ^ 23 :=
    (@unpackMantissa .binary32 b).isLt
  have hexponent : (@unpackExponent .binary32 b).toNat < 2 ^ 8 :=
    (@unpackExponent .binary32 b).isLt
  have hbias : (Float.Model.Format.binary32.exponentBias : ℤ) = 127 := rfl
  revert h
  rw [unpack]
  dsimp only
  split
  · split <;> exact fun h => nomatch h
  · rename_i hones
    have hmax : (@unpackExponent .binary32 b).toNat ≠ 255 := fun h =>
      hones (BitVec.eq_of_toNat_eq h)
    split
    · rename_i hleast
      split
      · exact fun _ => single_zero _
      · rename_i hzero
        have hpos : 0 < (@unpackMantissa .binary32 b).toNat :=
          Nat.pos_of_ne_zero fun h => hzero (BitVec.eq_of_toNat_eq h)
        have hnone : (@unpackExponent .binary32 b).toNat = 0 := congrArg BitVec.toNat hleast
        exact fun _ => ⟨_, _, _, ⟨by omega, by omega, fun h => by omega⟩, by omega,
          (signed_of_pos hpos _ _).symm⟩
    · rename_i hleast
      have hsome : (@unpackExponent .binary32 b).toNat ≠ 0 := fun h =>
        hleast (BitVec.eq_of_toNat_eq h)
      have hhidden : (1#1 ++ @unpackMantissa .binary32 b).toNat =
          2 ^ 23 + (@unpackMantissa .binary32 b).toNat := toNat_one_append _
      exact fun _ => ⟨_, _, _, ⟨by omega, by omega, fun h => by omega⟩, by omega,
        (signed_of_pos (by omega) _ _).symm⟩

/-! ## Rounded results -/

theorem nearest_of_eq {q : ℚ} {u : UnpackedFloat} (hu : u.isFinite = true) (hq : valueOf u = q) :
    Nearest q u := by
  refine ⟨fun _ => hu, fun _ => ?_⟩
  rw [hq, sub_self, abs_zero]
  linarith [tiny_pos, div_nonneg (abs_nonneg q) (by norm_num : (0 : ℚ) ≤ 2 ^ 24)]

theorem nearest_repack_of_single {u : UnpackedFloat} (hu : Single u) :
    Nearest (valueOf u) (repack u) := by
  obtain ⟨s, m, e, hdigits, he, rfl⟩ := hu
  rw [repack_signed hdigits, if_pos he]
  exact nearest_of_eq (isFinite_signed s m e) rfl

theorem nearest_repack_of_rounded {y : ℚ} {m : ℕ} {e : ℤ} (hy : 0 ≤ y) (h : Rounded y m e)
    (s : Sign) : Nearest (s.apply 1 * y) (repack (signed s m e)) := by
  have habs : |(s.apply 1 : ℚ) * y| = y := by rw [abs_mul, abs_apply_one, one_mul, abs_of_nonneg hy]
  rw [repack_signed h.toNormalized]
  refine ⟨fun hfits => ?_, fun hfinite => ?_⟩
  · rw [habs] at hfits
    rw [if_pos (h.fits hfits)]
    exact isFinite_signed s m e
  · by_cases hfits : e ≤ 104
    · rw [if_pos hfits, habs, valueOf_signed, cast_apply, Int.cast_natCast, mul_assoc, ← mul_sub,
        abs_mul, abs_apply_one, one_mul]
      exact h.close
    · rw [if_neg hfits] at hfinite
      cases hfinite

theorem describes_exact (m : ℕ) : Describes (.ofMantissaAndAccuracy m .exact) m := rfl

theorem nearest_roundWithAccuracy {m : ℕ} {e : ℤ} {a : Accuracy} {y : ℚ} (hnonneg : 0 ≤ y)
    (hy : Describes (.ofMantissaAndAccuracy m a) y) (he : 23 ≤ m.log2 ∨ e ≤ -149) (s : Sign) :
    Nearest (s.apply 1 * (y * 2 ^ e)) (repack (roundWithAccuracy .binary32 s m e a)) := by
  obtain ⟨n, f, hrounded, heq⟩ := exists_rounded (s := s) hy he
  rw [heq]
  exact nearest_repack_of_rounded (by positivity) hrounded s

theorem shiftLeft_mul_zpow (m k : ℕ) (e : ℤ) : ((m <<< k : ℕ) : ℚ) * 2 ^ (e - k) = m * 2 ^ e := by
  rw [Nat.shiftLeft_eq, zpow_sub₀ two_ne_zero, zpow_natCast]
  push_cast
  field_simp

theorem nearest_round {m : ℕ} (hm : m ≠ 0) (e : ℤ) (s : Sign) :
    Nearest (s.apply 1 * (m * 2 ^ e)) (repack (UnpackedFloat.round .binary32 s m e)) := by
  rw [UnpackedFloat.round, targetExponent_eq]
  obtain ⟨k, hk⟩ : ∃ k, k = (e - max (m.log2 + e - 23) (-149)).toNat := ⟨_, rfl⟩
  simp only [decreaseExponent, ← hk]
  rw [← shiftLeft_mul_zpow m k e]
  refine nearest_roundWithAccuracy (by positivity) (describes_exact _) ?_ s
  rw [Format.log2_shiftLeft hm]
  omega

theorem nearest_normalize (m : ℤ) (e : ℤ) (s : Sign) :
    Nearest (m * 2 ^ e) (repack (UnpackedFloat.normalize .binary32 m e s)) := by
  rw [UnpackedFloat.normalize]
  split
  · rename_i hlt
    have hneg : m < 0 := Int.compare_eq_lt.mp hlt
    have habs : (((-m).toNat : ℕ) : ℚ) = -m := by
      exact_mod_cast Int.toNat_of_nonneg (by omega : 0 ≤ -m)
    have h := nearest_round (by omega : (-m).toNat ≠ 0) e .negative
    rw [habs] at h
    simpa [Sign.apply] using h
  · rename_i heq
    rw [Int.compare_eq_eq.mp heq, Int.cast_zero, zero_mul]
    exact nearest_repack_of_single (single_zero s)
  · rename_i hgt
    have hpos : 0 < m := Int.compare_eq_gt.mp hgt
    have habs : ((m.toNat : ℕ) : ℚ) = m := by exact_mod_cast Int.toNat_of_nonneg hpos.le
    have h := nearest_round (by omega : m.toNat ≠ 0) e .positive
    rw [habs] at h
    simpa [Sign.apply] using h

/-! ## Operations -/

variable {u v : UnpackedFloat}

theorem Single.zero_or_finite (hu : Single u) :
    (∃ s, u = .zero s) ∨ ∃ s m e hm, Normalized m e ∧ u = .finite s m e hm := by
  obtain ⟨s, m, e, hdigits, -, rfl⟩ := hu
  rcases m.eq_zero_or_pos with rfl | hm
  · exact .inl ⟨s, rfl⟩
  · exact .inr ⟨s, m, e, hm, hdigits, signed_of_pos hm s e⟩

theorem apply_shiftLeft_mul_zpow (s : Sign) (m : ℕ) {e low : ℤ} (hlow : low ≤ e) :
    (s.apply (m <<< (e - low).toNat : ℕ) : ℚ) * 2 ^ low = s.apply m * 2 ^ e := by
  have h := shiftLeft_mul_zpow m (e - low).toNat e
  rw [Int.toNat_of_nonneg (by omega), sub_sub_cancel] at h
  rw [cast_apply s (m <<< _ : ℕ), cast_apply s m, Int.cast_natCast, Int.cast_natCast, mul_assoc, h,
    mul_assoc]

theorem nearest_repack_of_value {q : ℚ} (hu : Single u) (hq : valueOf u = q) :
    Nearest q (repack u) :=
  hq ▸ nearest_repack_of_single hu

theorem nearest_add_of_single (hu : Single u) (hv : Single v) :
    Nearest (valueOf u + valueOf v) (repack (UnpackedFloat.add .binary32 u v)) := by
  rcases hu.zero_or_finite with ⟨s, rfl⟩ | ⟨s, m, e, hm, -, rfl⟩ <;>
    rcases hv.zero_or_finite with ⟨t, rfl⟩ | ⟨t, n, f, hn, -, rfl⟩
  · have hzero : ∃ z, UnpackedFloat.add .binary32 (.zero s) (.zero t) = .zero z := by
      cases s <;> cases t <;> exact ⟨_, rfl⟩
    obtain ⟨z, hz⟩ := hzero
    rw [hz]
    exact nearest_repack_of_value (single_zero z) (add_zero _).symm
  · exact nearest_repack_of_value hv (zero_add _).symm
  · exact nearest_repack_of_value hu (add_zero _).symm
  · simp only [valueOf]
    rw [← apply_shiftLeft_mul_zpow s m (min_le_left e f),
      ← apply_shiftLeft_mul_zpow t n (min_le_right e f), ← add_mul, ← Int.cast_add]
    exact nearest_normalize _ _ _

theorem apply_neg (s : Sign) (m : ℤ) : (-s).apply m = -s.apply m := by
  cases s with
  | negative => exact (neg_neg m).symm
  | positive => rfl

theorem sub_eq_add (u v : UnpackedFloat) :
    UnpackedFloat.sub .binary32 u v = UnpackedFloat.add .binary32 u v.neg := by
  cases u <;> cases v <;> try rfl
  rename_i s m e hm t n f hn
  simp only [UnpackedFloat.sub, UnpackedFloat.add, UnpackedFloat.neg, apply_neg, sub_eq_add_neg]

theorem valueOf_neg (u : UnpackedFloat) : valueOf u.neg = -valueOf u := by
  cases u with
  | finite s m e hm => simp only [UnpackedFloat.neg, valueOf, apply_neg, Int.cast_neg, neg_mul]
  | _ => exact neg_zero.symm

theorem Single.neg (hu : Single u) : Single u.neg := by
  obtain ⟨s, m, e, hdigits, he, rfl⟩ := hu
  refine ⟨-s, m, e, hdigits, he, ?_⟩
  unfold signed
  split <;> rfl

theorem nearest_sub_of_single (hu : Single u) (hv : Single v) :
    Nearest (valueOf u - valueOf v) (repack (UnpackedFloat.sub .binary32 u v)) := by
  rw [sub_eq_add, sub_eq_add_neg, ← valueOf_neg]
  exact nearest_add_of_single hu hv.neg

/-- Mantissas of normalized digits have enough bits in their product. -/
theorem log2_mul_of_normalized {m n : ℕ} {e f : ℤ} (hm : 0 < m) (hn : 0 < n)
    (he : Normalized m e) (hf : Normalized n f) : 23 ≤ (m * n).log2 ∨ e + f ≤ -149 := by
  by_cases hleast : e = -149 ∧ f = -149
  · exact .inr (by omega)
  · refine .inl ((Nat.le_log2 (Nat.mul_pos hm hn).ne').mpr ?_)
    have hege := he.exponent_ge
    have hfge := hf.exponent_ge
    by_cases hlow : e = -149
    · exact (hf.hidden (by omega)).trans (Nat.le_mul_of_pos_left n hm)
    · exact (he.hidden (by omega)).trans (Nat.le_mul_of_pos_right m hn)

theorem apply_mul (s t : Sign) : (s * t).apply 1 = s.apply 1 * t.apply 1 := by
  cases s <;> cases t <;> rfl

theorem nearest_mul_of_single (hu : Single u) (hv : Single v) :
    Nearest (valueOf u * valueOf v) (repack (UnpackedFloat.mul .binary32 u v)) := by
  rcases hu.zero_or_finite with ⟨s, rfl⟩ | ⟨s, m, e, hm, hmdigits, rfl⟩ <;>
    rcases hv.zero_or_finite with ⟨t, rfl⟩ | ⟨t, n, f, hn, hndigits, rfl⟩
  · exact nearest_repack_of_value (single_zero (s * t)) (zero_mul _).symm
  · exact nearest_repack_of_value (single_zero (s * t)) (zero_mul _).symm
  · exact nearest_repack_of_value (single_zero (s * t)) (mul_zero _).symm
  · have h := nearest_roundWithAccuracy (by positivity) (describes_exact (m * n))
      (log2_mul_of_normalized hm hn hmdigits hndigits) (s * t)
    have hvalue : ((s * t).apply 1 : ℚ) * (((m * n : ℕ) : ℚ) * 2 ^ (e + f)) =
        s.apply m * 2 ^ e * (t.apply n * 2 ^ f) := by
      rw [apply_mul, cast_apply s m, cast_apply t n, zpow_add₀ two_ne_zero]
      push_cast
      ring
    rw [hvalue] at h
    exact h

/-- The fraction that a division of natural numbers leaves. -/
theorem describes_div (m : ℕ) {n : ℕ} (hn : 0 < n) :
    Describes (.ofMantissaAndAccuracy (m / n) (accuracyOfFraction (m % n) n)) ((m : ℚ) / n) := by
  have hpos : (0 : ℚ) < n := Nat.cast_pos.mpr hn
  have hrest : m % n < n := Nat.mod_lt m hn
  have hsplit : (m : ℚ) / n = (m / n : ℕ) + (m % n : ℕ) / n := by
    rw [div_eq_iff hpos.ne', add_mul, div_mul_cancel₀ _ hpos.ne']
    exact_mod_cast (Nat.div_add_mod' m n).symm
  rw [hsplit]
  generalize m / n = q
  generalize m % n = r at hrest ⊢
  have hfraction : (r : ℚ) / n < 1 := (div_lt_one hpos).mpr (by exact_mod_cast hrest)
  unfold accuracyOfFraction
  split
  · rename_i hzero
    rw [hzero, Nat.cast_zero, zero_div, add_zero]
    exact describes_exact q
  · rename_i hzero
    have hsome : (0 : ℚ) < r / n := div_pos (by exact_mod_cast Nat.pos_of_ne_zero hzero) hpos
    have hdouble : (2 : ℚ) * (r / n) = (2 * r : ℕ) / n := by
      push_cast
      ring
    rcases lt_trichotomy (2 * r) n with hlt | heq | hgt
    · rw [Nat.compare_eq_lt.mpr hlt]
      have : ((2 * r : ℕ) : ℚ) / n < 1 := (div_lt_one hpos).mpr (by exact_mod_cast hlt)
      exact ⟨by linarith, by linarith⟩
    · rw [Nat.compare_eq_eq.mpr heq]
      have : ((2 * r : ℕ) : ℚ) / n = 1 := (div_eq_one_iff_eq hpos.ne').mpr (by exact_mod_cast heq)
      exact by
        change (q : ℚ) + r / n = q + 1 / 2
        linarith
    · rw [Nat.compare_eq_gt.mpr hgt]
      have : 1 < ((2 * r : ℕ) : ℚ) / n := (one_lt_div hpos).mpr (by exact_mod_cast hgt)
      exact ⟨by linarith, by linarith⟩

/-- A quotient is computed with enough bits. -/
theorem log2_div_of_low {m n k : ℕ} (hm : 0 < m) (hn : 0 < n) (hk : 24 + n.log2 ≤ m.log2 + k) :
    23 ≤ ((m <<< k) / n).log2 := by
  have hlow : 2 ^ 23 ≤ (m <<< k) / n := by
    rw [Nat.le_div_iff_mul_le hn, Nat.shiftLeft_eq]
    calc 2 ^ 23 * n ≤ 2 ^ 23 * 2 ^ (n.log2 + 1) := Nat.mul_le_mul_left _ Nat.lt_log2_self.le
      _ = 2 ^ (24 + n.log2) := by rw [← pow_add]; congr 1; omega
      _ ≤ 2 ^ (m.log2 + k) := Nat.pow_le_pow_right two_pos hk
      _ = 2 ^ m.log2 * 2 ^ k := pow_add ..
      _ ≤ m * 2 ^ k := Nat.mul_le_mul_right _ (Nat.log2_self_le hm.ne')
  exact (Nat.le_log2 (by omega)).mpr hlow

theorem apply_div (s t : Sign) : (s / t).apply 1 = s.apply 1 * t.apply 1 := by
  cases s <;> cases t <;> rfl

theorem nearest_div_of_single (hu : Single u) (hv : Single v) (hzero : valueOf v ≠ 0) :
    Nearest (valueOf u / valueOf v) (repack (UnpackedFloat.div .binary32 u v)) := by
  rcases hv.zero_or_finite with ⟨t, rfl⟩ | ⟨t, n, f, hn, -, rfl⟩
  · exact absurd rfl hzero
  rcases hu.zero_or_finite with ⟨s, rfl⟩ | ⟨s, m, e, hm, -, rfl⟩
  · exact nearest_repack_of_value (single_zero (s / t)) (zero_div _).symm
  obtain ⟨low, hlow⟩ : ∃ low, low = min (e - f) (Float.Model.Format.binary32.targetExponent
    (totalExponent m e - totalExponent n f)) := ⟨_, rfl⟩
  obtain ⟨k, hk⟩ : ∃ k : ℕ, k = (e - f - low).toNat := ⟨_, rfl⟩
  have hbits : 23 ≤ ((m <<< k) / n).log2 ∨ low ≤ -149 := by
    rw [or_iff_not_imp_right]
    intro hhigh
    refine log2_div_of_low hm hn ?_
    simp only [Float.Model.Format.targetExponent, totalExponent, Float.Model.Format.mantissaBits,
      Float.Model.Format.minExponent] at hlow
    norm_num at hlow
    omega
  have h := nearest_roundWithAccuracy (by positivity) (describes_div (m <<< k) hn) hbits (s / t)
  have hvalue : ((s / t).apply 1 : ℚ) * (((m <<< k : ℕ) : ℚ) / n * 2 ^ low) =
      s.apply m * 2 ^ e / (t.apply n * 2 ^ f) := by
    have hsign : (t.apply 1 : ℚ) * t.apply 1 = 1 := by cases t <;> simp [Sign.apply]
    have hscale : (2 : ℚ) ^ low * 2 ^ k * 2 ^ f = 2 ^ e := by
      rw [← zpow_natCast, ← zpow_add₀ two_ne_zero, ← zpow_add₀ two_ne_zero]
      congr 1
      omega
    have hpos : (0 : ℚ) < n := Nat.cast_pos.mpr hn
    rw [apply_div, cast_apply s m, cast_apply t n, Nat.shiftLeft_eq, eq_div_iff]
    · push_cast
      field_simp
      linear_combination (s.apply 1 : ℚ) * ((2 : ℚ) ^ low * 2 ^ k * 2 ^ f * hsign + hscale)
    · exact fun h => hzero (by rw [valueOf, cast_apply]; exact h)
  rw [hvalue] at h
  subst hk hlow
  exact h

end TileWorld.Number
