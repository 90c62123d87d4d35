import TileWorld.Number.Binary
import Mathlib.Tactic.Ring

/-! Every finite word is the word of the value that it is decoded to. -/

namespace TileWorld.Number.Format

variable {f : Format} {m : Nat} {e : Int}

/-- A mantissa and an exponent as they are read from a finite word. -/
structure Canonical (f : Format) (m : Nat) (e : Int) : Prop where
  mantissa_lt : m < 2 ^ (f.fractionBits + 1)
  minExponent_le : f.minExponent ≤ e
  hidden : f.minExponent < e → 2 ^ f.fractionBits ≤ m
  exponent_lt : (e - f.minExponent).toNat + 2 < 2 ^ f.exponentBits

/-! ## The word of a canonical value -/

/-- The last bit of a canonical mantissa is the last bit that is kept. -/
theorem Canonical.last_eq (h : Canonical f m e) (hm : m ≠ 0) :
    max (m.log2 + e - f.fractionBits) f.minExponent = e := by
  have hlog : m.log2 < f.fractionBits + 1 := (Nat.log2_lt hm).mpr h.mantissa_lt
  have hmin := h.minExponent_le
  by_cases he : f.minExponent < e
  · have hhigh : f.fractionBits ≤ m.log2 := (Nat.le_log2 hm).mpr (h.hidden he)
    omega
  · omega

theorem Canonical.word_lt (h : Canonical f m e) :
    (e - f.minExponent).toNat * 2 ^ f.fractionBits + m < f.infinityWord := by
  have hm := h.mantissa_lt
  rw [Nat.pow_succ] at hm
  have hlast : (e - f.minExponent).toNat + 2 ≤ 2 ^ f.exponentBits - 1 := by
    have := h.exponent_lt
    omega
  calc (e - f.minExponent).toNat * 2 ^ f.fractionBits + m
      < (e - f.minExponent).toNat * 2 ^ f.fractionBits + 2 ^ f.fractionBits * 2 := by omega
    _ = ((e - f.minExponent).toNat + 2) * 2 ^ f.fractionBits := by ring
    _ ≤ f.infinityWord := Nat.mul_le_mul_right _ hlast

theorem Canonical.magnitudeWord_eq (h : Canonical f m e) :
    f.magnitudeWord m e = (e - f.minExponent).toNat * 2 ^ f.fractionBits + m := by
  by_cases hm : m = 0
  · subst hm
    have he : ¬ f.minExponent < e := fun he =>
      absurd (h.hidden he) (Nat.not_le.mpr (Nat.two_pow_pos _))
    have hzero : (e - f.minExponent).toNat = 0 := by omega
    simp [magnitudeWord, hzero]
  · rw [magnitudeWord, if_neg hm]
    dsimp only
    rw [h.last_eq hm, if_pos (Int.le_refl e), Int.sub_self]
    exact Nat.min_eq_left h.word_lt.le

theorem infinityWord_lt (f : Format) : f.infinityWord < f.signWord := by
  rw [infinityWord, signWord, Nat.pow_add, Nat.mul_comm]
  exact Nat.mul_lt_mul_of_pos_left (Nat.sub_lt (Nat.two_pow_pos _) Nat.one_pos) (Nat.two_pow_pos _)

theorem Canonical.encode_eq (h : Canonical f m e) (negative : Bool) :
    f.encode (.finite negative m e) = (if negative then f.signWord else 0) +
      ((e - f.minExponent).toNat * 2 ^ f.fractionBits + m) := by
  rw [encode, h.magnitudeWord_eq]

theorem Canonical.encode_mod (h : Canonical f m e) (negative : Bool) :
    f.encode (.finite negative m e) % f.signWord =
      (e - f.minExponent).toNat * 2 ^ f.fractionBits + m := by
  have hlt := h.word_lt.trans f.infinityWord_lt
  rw [h.encode_eq]
  cases negative <;> simp [Nat.mod_eq_of_lt hlt]

theorem Canonical.encode_lt (h : Canonical f m e) (negative : Bool) :
    f.encode (.finite negative m e) < 2 * f.signWord := by
  have hlt := h.word_lt.trans f.infinityWord_lt
  rw [h.encode_eq]
  split <;> omega

/-- A canonical value is read back from its word. -/
theorem Canonical.decode_encode (h : Canonical f m e) (negative : Bool) :
    f.decode (f.encode (.finite negative m e)) = .finite negative m e := by
  have hword := h.word_lt
  have hdiv : (f.encode (.finite negative m e) / f.signWord % 2 == 1) = negative := by
    have hpos : 0 < f.signWord := Nat.two_pow_pos _
    have hlt := hword.trans f.infinityWord_lt
    rw [h.encode_eq]
    cases negative <;> simp [Nat.div_eq_of_lt hlt, Nat.add_div_left _ hpos]
  rw [decode, h.encode_mod, hdiv, if_neg hword.ne, if_neg hword.not_gt]
  have hm := h.mantissa_lt
  rw [Nat.pow_succ] at hm
  have hmin := h.minExponent_le
  by_cases hlow : m < 2 ^ f.fractionBits
  · have he : e = f.minExponent := by
      have := mt h.hidden (Nat.not_le.mpr hlow)
      omega
    subst he
    simp [Nat.mod_eq_of_lt hlow, hlow]
  · obtain ⟨r, rfl⟩ := Nat.exists_eq_add_of_le (Nat.not_lt.mp hlow)
    have hr : r < 2 ^ f.fractionBits := by omega
    have hsplit : (e - f.minExponent).toNat * 2 ^ f.fractionBits + (2 ^ f.fractionBits + r) =
        r + 2 ^ f.fractionBits * ((e - f.minExponent).toNat + 1) := by ring
    have hpos : 0 < 2 ^ f.fractionBits := Nat.two_pow_pos _
    rw [hsplit, Nat.add_mul_div_left _ _ hpos, Nat.div_eq_of_lt hr, Nat.add_mul_mod_self_left,
      Nat.mod_eq_of_lt hr, Nat.zero_add, if_neg (Nat.succ_ne_zero _), Nat.add_sub_cancel,
      Int.toNat_of_nonneg (by omega)]
    congr 1
    omega

theorem sign_add_mod {w : Nat} (hw : w < 2 * f.signWord) :
    (if (w / f.signWord % 2 == 1) = true then f.signWord else 0) + w % f.signWord = w := by
  have hsplit := Nat.div_add_mod w f.signWord
  have hsign : w / f.signWord < 2 := Nat.div_lt_of_lt_mul (by rwa [Nat.mul_comm])
  rcases Nat.le_one_iff_eq_zero_or_eq_one.mp (Nat.le_of_lt_succ hsign) with hzero | hone
  · rw [hzero] at hsplit ⊢
    simpa using hsplit
  · rw [hone] at hsplit ⊢
    simpa using hsplit

/-- What is read from a finite word is canonical, and the word is written for it. -/
theorem exists_canonical {w : Nat} (hexponent : 2 ≤ f.exponentBits) (hw : w < 2 * f.signWord)
    (hfinite : w % f.signWord < f.infinityWord) :
    ∃ negative m e, f.decode w = .finite negative m e ∧ f.Canonical m e ∧
      f.encode (.finite negative m e) = w := by
  have hpos : 0 < 2 ^ f.fractionBits := Nat.two_pow_pos _
  have hfraction : w % f.signWord % 2 ^ f.fractionBits < 2 ^ f.fractionBits := Nat.mod_lt _ hpos
  have hsplit := Nat.div_add_mod (w % f.signWord) (2 ^ f.fractionBits)
  have hdecode : f.decode w = if w % f.signWord / 2 ^ f.fractionBits = 0
      then .finite (w / f.signWord % 2 == 1) (w % f.signWord % 2 ^ f.fractionBits) f.minExponent
      else .finite (w / f.signWord % 2 == 1)
        (2 ^ f.fractionBits + w % f.signWord % 2 ^ f.fractionBits)
        (f.minExponent + (w % f.signWord / 2 ^ f.fractionBits - 1 : Nat)) := by
    rw [decode, if_neg hfinite.ne, if_neg hfinite.not_gt]
  have hbiased : w % f.signWord / 2 ^ f.fractionBits < 2 ^ f.exponentBits - 1 :=
    Nat.div_lt_of_lt_mul (by rwa [Nat.mul_comm])
  generalize w % f.signWord / 2 ^ f.fractionBits = biased at *
  generalize w % f.signWord % 2 ^ f.fractionBits = fraction at *
  have hencode : ∀ m e, f.Canonical m e →
      (e - f.minExponent).toNat * 2 ^ f.fractionBits + m = w % f.signWord →
      f.encode (.finite (w / f.signWord % 2 == 1) m e) = w := by
    intro m e hcanonical hword
    rw [encode, hcanonical.magnitudeWord_eq, hword]
    exact sign_add_mod hw
  rw [hdecode]
  by_cases hzero : biased = 0
  · subst hzero
    have hfour : 2 ^ 2 ≤ 2 ^ f.exponentBits := Nat.pow_le_pow_right (by decide) hexponent
    have hcanonical : f.Canonical fraction f.minExponent :=
      ⟨by rw [Nat.pow_succ]; omega, le_rfl, fun h => absurd h (lt_irrefl _), by simp; omega⟩
    refine ⟨_, _, _, if_pos rfl, hcanonical, hencode _ _ hcanonical ?_⟩
    simpa using hsplit
  · have hcanonical : f.Canonical (2 ^ f.fractionBits + fraction)
        (f.minExponent + (biased - 1 : Nat)) := by
      refine ⟨?_, by omega, fun _ => Nat.le_add_right _ _, ?_⟩
      · rw [Nat.pow_succ]
        omega
      · rw [add_sub_cancel_left, Int.toNat_natCast]
        omega
    refine ⟨_, _, _, if_neg hzero, hcanonical, hencode _ _ hcanonical ?_⟩
    rw [add_sub_cancel_left, Int.toNat_natCast, ← hsplit]
    obtain ⟨n, rfl⟩ := Nat.exists_eq_add_one_of_ne_zero hzero
    rw [Nat.add_sub_cancel]
    ring

/-! ## Other ways to write a value -/

theorem shiftNearest_shiftLeft (m k : Nat) : shiftNearest (m <<< k) k = m := by
  have hone : 0 < 1 <<< k := by simp [Nat.shiftLeft_eq]
  simp [shiftNearest, Nat.shiftLeft_shiftRight, hone.ne]

theorem shiftLeft_ne_zero (hm : m ≠ 0) (k : Nat) : m <<< k ≠ 0 := by
  rw [Nat.shiftLeft_eq]
  exact Nat.mul_ne_zero hm (Nat.two_pow_pos k).ne'

theorem log2_shiftLeft (hm : m ≠ 0) (k : Nat) : (m <<< k).log2 = m.log2 + k := by
  have hlow : 2 ^ m.log2 ≤ m := Nat.log2_self_le hm
  have hhigh : m < 2 ^ (m.log2 + 1) := Nat.lt_log2_self
  rw [Nat.log2_eq_iff (shiftLeft_ne_zero hm k), Nat.shiftLeft_eq, Nat.add_right_comm, Nat.pow_add,
    Nat.pow_add 2 (m.log2 + 1)]
  exact ⟨Nat.mul_le_mul_right _ hlow, Nat.mul_lt_mul_of_pos_right hhigh (Nat.two_pow_pos k)⟩

/-- A mantissa that is too short may be lengthened before it is written. -/
theorem Canonical.magnitudeWord_add {k : Nat} (h : Canonical f (m <<< k) e) (hm : m ≠ 0) :
    f.magnitudeWord m (e + k) = f.magnitudeWord (m <<< k) e := by
  have hlast := h.last_eq (shiftLeft_ne_zero hm k)
  rw [log2_shiftLeft hm] at hlast
  have hsame : max (m.log2 + (e + k) - f.fractionBits) f.minExponent = e := by
    push_cast at hlast
    rwa [Int.add_right_comm, Int.add_assoc (m.log2 : Int) e] at hlast
  rw [magnitudeWord, if_neg hm, magnitudeWord, if_neg (shiftLeft_ne_zero hm k)]
  dsimp only
  rw [log2_shiftLeft hm, hlast, hsame, if_pos (by omega), if_pos le_rfl, Int.sub_self]
  rw [add_sub_cancel_left, Int.toNat_natCast]
  rfl

/-- A mantissa that is too long is cut back if it ends in zeros. -/
theorem Canonical.magnitudeWord_sub (h : Canonical f m e) (hm : m ≠ 0) (k : Nat) :
    f.magnitudeWord (m <<< k) (e - k) = f.magnitudeWord m e := by
  have hlast := h.last_eq hm
  have hsame : max ((m <<< k).log2 + (e - k) - f.fractionBits) f.minExponent = e := by
    rwa [log2_shiftLeft hm, Nat.cast_add, add_add_sub_cancel]
  rw [magnitudeWord, if_neg (shiftLeft_ne_zero hm k), magnitudeWord, if_neg hm]
  dsimp only
  rw [hlast, hsame, if_pos le_rfl, Int.sub_self]
  congr 2
  by_cases hk : k = 0
  · subst hk
    simp
  · rw [if_neg (by omega), Int.sub_sub_self, Int.toNat_natCast]
    exact shiftNearest_shiftLeft m k

end TileWorld.Number.Format
