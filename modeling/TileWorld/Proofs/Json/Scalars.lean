import TileWorld.Proofs.Json.Number
import TileWorld.Proofs.Json.Strings

/-! # Reading scalars by the grammar -/

namespace TileWorld.Json.Grammar

variable {cs rest : List Char}

/-! ## Numbers -/

def NoDigit (rest : List Char) : Prop := ∀ c, rest.head? = some c → Number.digit? c = none

/-- A number ends where the text goes on like this. -/
structure Ends (rest : List Char) : Prop where
  digit : NoDigit rest
  point : rest.head? ≠ some '.'
  exponent : ∀ e, e = 'e' ∨ e = 'E' → rest.head? ≠ some e

theorem Digits.ne_nil {ds : List Nat} (h : Digits cs ds rest) : ds ≠ [] := by
  cases h <;> simp

theorem Digits.head? {ds : List Nat} (h : Digits cs ds rest) :
    ∃ c left, cs = c :: left ∧ Number.digit? c ≠ none := by
  cases h with
  | last rest hc => exact ⟨_, _, rfl, by simp [hc]⟩
  | cons hc _ => exact ⟨_, _, rfl, by simp [hc]⟩

theorem digits_of_noDigit (h : NoDigit rest) : Number.digits rest = ([], rest) := by
  cases rest with
  | nil => rfl
  | cons c rest => rw [Number.digits, h c rfl]

theorem Digits.digits_eq {ds : List Nat} (h : Digits cs ds rest) (hrest : NoDigit rest) :
    Number.digits cs = (ds, rest) := by
  induction h with
  | last rest hc => rw [Number.digits, hc, digits_of_noDigit hrest]
  | cons hc _ ih => rw [Number.digits, hc, ih hrest]

theorem snd_digits (h : (Number.digits cs).1 = []) : (Number.digits cs).2 = cs := by
  cases cs with
  | nil => rfl
  | cons c cs =>
    rw [Number.digits] at h ⊢
    cases hc : Number.digit? c with
    | none => rfl
    | some d => simp [hc] at h

theorem digits_of_digits {ds : List Nat} (h : Number.digits cs = (ds, rest)) (hds : ds ≠ []) :
    Digits cs ds rest := by
  induction cs generalizing ds with
  | nil =>
    cases h
    exact absurd rfl hds
  | cons c cs ih =>
    rw [Number.digits] at h
    cases hc : Number.digit? c with
    | none =>
      rw [hc] at h
      cases h
      exact absurd rfl hds
    | some d =>
      rw [hc] at h
      obtain ⟨rfl, rfl⟩ := Prod.mk.inj h
      cases hmore : (Number.digits cs).1 with
      | nil =>
        rw [snd_digits hmore]
        exact .last cs hc
      | cons e es => exact .cons hc (ih (Prod.ext hmore rfl) (by simp))

theorem digitRun_sound {ds : List Nat} (h : digitRun cs = some (ds, rest)) :
    Digits cs ds rest := by
  rw [digitRun] at h
  split at h
  · cases h
  · next hne => exact digits_of_digits (Option.some.inj h) (fun hnil => hne rest (by simp_all))

theorem Digits.digitRun {ds : List Nat} (h : Digits cs ds rest) (hrest : NoDigit rest) :
    digitRun cs = some (ds, rest) := by
  rw [Json.digitRun, h.digits_eq hrest]
  split
  · next heq => exact absurd (Prod.mk.inj heq).1 h.ne_nil
  · rfl

theorem eq_zero_of_digit? {c : Char} (h : Number.digit? c = some 0) : c = '0' := by
  rw [Number.digit?] at h
  split at h
  · next hc =>
    have hle : '0'.toNat ≤ c.toNat := hc.1
    have hzero : c.toNat - '0'.toNat = 0 := Option.some.inj h
    exact Char.toNat_inj.mp (by omega)
  · cases h

theorem wholeDigits_sound {ds : List Nat} (h : wholeDigits cs = some (ds, rest)) :
    Whole cs ds rest := by
  rw [wholeDigits] at h
  split at h
  · cases h
  · cases h
  · next hnil hzero =>
    have hdigits := Option.some.inj h
    have hds : ds ≠ [] := fun hds => hnil rest (hds ▸ hdigits)
    have hrun := digits_of_digits hdigits hds
    cases hrun with
    | @last c d _ hc =>
      by_cases hd : d = 0
      · subst hd
        obtain rfl := eq_zero_of_digit? hc
        exact .zero rest
      · exact .digits (.last rest hc) (by simpa using hd)
    | @cons c d cs _ ds hc hrun =>
      obtain ⟨e, es, rfl⟩ := List.exists_cons_of_ne_nil hrun.ne_nil
      refine .digits (.cons hc hrun) fun hd => ?_
      cases hd
      exact hzero e es rest hdigits

theorem Whole.wholeDigits {ds : List Nat} (h : Whole cs ds rest) (hrest : NoDigit rest) :
    wholeDigits cs = some (ds, rest) := by
  cases h with
  | zero =>
    have hdigits : Number.digits ('0' :: rest) = ([0], rest) :=
      (Digits.last rest rfl).digits_eq hrest
    rw [Json.wholeDigits, hdigits]
    rfl
  | digits h hzero =>
    rw [Json.wholeDigits, h.digits_eq hrest]
    split
    · next heq => exact absurd (Prod.mk.inj heq).1 h.ne_nil
    · next heq =>
      rw [(Prod.mk.inj heq).1] at hzero
      exact absurd rfl hzero
    · rfl

theorem fractionDigits_sound {fraction : Option (List Nat)}
    (h : fractionDigits cs = some (fraction, rest)) : Fraction cs fraction rest := by
  unfold fractionDigits at h
  split at h
  · obtain ⟨⟨ds, left⟩, hrun, heq⟩ := Option.map_eq_some_iff.mp h
    cases heq
    exact .present (digitRun_sound hrun)
  · cases h
    exact .absent _

theorem Fraction.fractionDigits {fraction : Option (List Nat)} (h : Fraction cs fraction rest)
    (hrest : NoDigit rest) (hpoint : rest.head? ≠ some '.') :
    fractionDigits cs = some (fraction, rest) := by
  cases h with
  | absent => exact fractionDigits_of_ne hpoint
  | present h => rw [Json.fractionDigits, h.digitRun hrest, Option.map_some]

theorem exponentDigits_sound {exponent : Option Int}
    (h : exponentDigits cs = some (exponent, rest)) : Exponent cs exponent rest := by
  cases cs with
  | nil =>
    cases h
    exact .absent []
  | cons e cs =>
    rw [exponentDigits] at h
    split at h
    · next he =>
      cases hsign : exponentSign cs with
      | mk negative left =>
        rw [hsign] at h
        obtain ⟨⟨ds, left'⟩, hrun, heq⟩ := Option.map_eq_some_iff.mp h
        obtain ⟨rfl, rfl⟩ := Prod.mk.inj heq
        have hdigits := digitRun_sound hrun
        unfold exponentSign at hsign
        split at hsign
        · cases hsign
          exact .minus he hdigits
        · cases hsign
          exact .plus he hdigits
        · cases hsign
          exact .bare he hdigits
    · cases h
      exact .absent _

theorem Exponent.exponentDigits {exponent : Option Int} (h : Exponent cs exponent rest)
    (hrest : Ends rest) : exponentDigits cs = some (exponent, rest) := by
  cases h with
  | absent =>
    cases cs with
    | nil => rfl
    | cons c cs => rw [Json.exponentDigits, if_neg fun he => hrest.exponent c he rfl]
  | bare he h =>
    obtain ⟨c, left, rfl, hc⟩ := h.head?
    have hsign : exponentSign (c :: left) = (false, c :: left) := by
      unfold exponentSign
      split
      · next heq => cases heq; exact absurd rfl hc
      · next heq => cases heq; exact absurd rfl hc
      · rfl
    simp [Json.exponentDigits, he, hsign, h.digitRun hrest.digit]
  | plus he h => simp [Json.exponentDigits, he, exponentSign, h.digitRun hrest.digit]
  | minus he h => simp [Json.exponentDigits, he, exponentSign, h.digitRun hrest.digit]

/-- What an exponent begins with continues neither digits nor a fraction. -/
theorem Exponent.ends {exponent : Option Int} (h : Exponent cs exponent rest)
    (hrest : Ends rest) : NoDigit cs ∧ cs.head? ≠ some '.' := by
  have hletter : ∀ {e : Char} {left : List Char}, e = 'e' ∨ e = 'E' →
      NoDigit (e :: left) ∧ (e :: left).head? ≠ some '.' := by
    rintro e left (rfl | rfl) <;> exact ⟨fun c hc => by cases hc; rfl, by simp⟩
  cases h with
  | absent => exact ⟨hrest.digit, hrest.point⟩
  | bare he _ => exact hletter he
  | plus he _ => exact hletter he
  | minus he _ => exact hletter he

theorem Fraction.noDigit {fraction : Option (List Nat)} (h : Fraction cs fraction rest)
    (hrest : NoDigit rest) : NoDigit cs := by
  cases h with
  | absent => exact hrest
  | present _ =>
    intro c hc
    cases hc
    rfl

theorem Whole.head? {ds : List Nat} (h : Whole cs ds rest) :
    ∃ c left, cs = c :: left ∧ Number.digit? c ≠ none := by
  cases h with
  | zero => exact ⟨'0', rest, rfl, by decide⟩
  | digits h _ => exact h.head?

theorem magnitude_sound {negative : Bool} {l : Number.Literal}
    (h : magnitude negative cs = some (l, rest)) :
    ∃ whole fraction exponent left left', l = ⟨negative, whole, fraction, exponent⟩ ∧
      Whole cs whole left ∧ Fraction left fraction left' ∧ Exponent left' exponent rest := by
  obtain ⟨⟨whole, left⟩, hwhole, h⟩ := Option.bind_eq_some_iff.mp h
  obtain ⟨⟨fraction, left'⟩, hfraction, h⟩ := Option.bind_eq_some_iff.mp h
  obtain ⟨⟨exponent, left''⟩, hexponent, h⟩ := Option.bind_eq_some_iff.mp h
  cases h
  exact ⟨whole, fraction, exponent, left, left', rfl, wholeDigits_sound hwhole,
    fractionDigits_sound hfraction, exponentDigits_sound hexponent⟩

theorem numeral_sound {l : Number.Literal} (h : numeral cs = some (l, rest)) :
    Numeral cs l rest := by
  by_cases hminus : cs.head? = some '-'
  · obtain ⟨left, rfl⟩ := List.head?_eq_some_iff.mp hminus
    rw [numeral_minus] at h
    obtain ⟨_, _, _, _, _, rfl, hwhole, hfraction, hexponent⟩ := magnitude_sound h
    exact .mk (.minus left) hwhole hfraction hexponent
  · rw [numeral_of_ne hminus] at h
    obtain ⟨_, _, _, _, _, rfl, hwhole, hfraction, hexponent⟩ := magnitude_sound h
    exact .mk (.plus cs) hwhole hfraction hexponent

theorem Numeral.numeral {l : Number.Literal} (h : Numeral cs l rest) (hrest : Ends rest) :
    numeral cs = some (l, rest) := by
  cases h with
  | @mk left _ _ _ _ whole fraction exponent hsign hwhole hfraction hexponent =>
    obtain ⟨hdigit, hpoint⟩ := hexponent.ends hrest
    have hmagnitude : ∀ negative,
        magnitude negative left = some (⟨negative, whole, fraction, exponent⟩, rest) := by
      intro negative
      simp only [magnitude, hwhole.wholeDigits (hfraction.noDigit hdigit), Option.bind_some,
        hfraction.fractionDigits hdigit hpoint, hexponent.exponentDigits hrest]
    cases hsign with
    | minus => exact (numeral_minus _).trans (hmagnitude true)
    | plus =>
      obtain ⟨c, left, rfl, hc⟩ := hwhole.head?
      refine (numeral_of_ne ?_).trans (hmagnitude false)
      rintro heq
      cases heq
      exact hc rfl

theorem Numeral.begins {l : Number.Literal} (h : Numeral cs l rest) :
    ∃ c left, cs = c :: left ∧ BeginsNumeral c := by
  obtain ⟨hsign, hwhole, -, -⟩ := h
  cases hsign with
  | minus => exact ⟨'-', _, rfl, .inl rfl⟩
  | plus =>
    obtain ⟨c, left, rfl, hc⟩ := hwhole.head?
    exact ⟨c, left, rfl, .inr hc⟩

/-! ## Scalars -/

theorem word?_eq_some_iff {word : List Char} : word? word cs = some rest ↔ cs = word ++ rest := by
  induction word generalizing cs with
  | nil => simp [word?]
  | cons w ws ih =>
    cases cs with
    | nil => simp [word?]
    | cons c cs =>
      by_cases hc : w = c
      · simp [word?, hc, ih]
      · simp [word?, hc, Ne.symm hc]

theorem scalar_sound {j : Json} (h : scalar cs = some (j, rest)) : Scalar cs j rest := by
  unfold scalar at h
  split at h
  · obtain ⟨⟨s, left⟩, hbody, heq⟩ := Option.map_eq_some_iff.mp h
    cases heq
    exact .string (stringBody_eq_some_iff.mp hbody)
  · obtain ⟨left, hword, heq⟩ := Option.map_eq_some_iff.mp h
    cases heq
    rw [word?_eq_some_iff.mp hword]
    exact .null rest
  · obtain ⟨left, hword, heq⟩ := Option.map_eq_some_iff.mp h
    cases heq
    rw [word?_eq_some_iff.mp hword]
    exact .true rest
  · obtain ⟨left, hword, heq⟩ := Option.map_eq_some_iff.mp h
    cases heq
    rw [word?_eq_some_iff.mp hword]
    exact .false rest
  · obtain ⟨⟨l, left⟩, hnumeral, h⟩ := Option.bind_eq_some_iff.mp h
    obtain ⟨r, hr, h⟩ := Option.bind_eq_some_iff.mp h
    cases h
    exact .number (numeral_sound hnumeral) hr

theorem Scalar.scalar {j : Json} (h : Scalar cs j rest) (hrest : Ends rest) :
    scalar cs = some (j, rest) := by
  cases h with
  | null => rfl
  | true => rfl
  | false => rfl
  | string h => rw [Json.scalar, stringBody_eq_some_iff.mpr h, Option.map_some]
  | number h hr =>
    obtain ⟨c, left, rfl, hc⟩ := h.begins
    rw [hc.scalar, h.numeral hrest, Option.bind_some, hr, Option.map_some]

theorem skimScalar_sound (h : skimScalar cs = some rest) : PassedScalar cs rest := by
  unfold skimScalar at h
  split at h
  · exact .string (skimString_eq_some_iff.mp h)
  · rw [word?_eq_some_iff.mp h]
    exact .null rest
  · rw [word?_eq_some_iff.mp h]
    exact .true rest
  · rw [word?_eq_some_iff.mp h]
    exact .false rest
  · obtain ⟨⟨l, left⟩, hnumeral, rfl⟩ := Option.map_eq_some_iff.mp h
    exact .number (numeral_sound hnumeral)

theorem PassedScalar.skimScalar (h : PassedScalar cs rest) (hrest : Ends rest) :
    skimScalar cs = some rest := by
  cases h with
  | null => rfl
  | true => rfl
  | false => rfl
  | string h => exact h.skimString
  | number h =>
    have hnumeral := h.numeral hrest
    obtain ⟨c, left, rfl, hc⟩ := h.begins
    unfold Json.skimScalar
    split
    next heq => exact absurd heq (hc.cons_ne (by decide))
    next heq => exact absurd heq (hc.cons_ne (by decide))
    next heq => exact absurd heq (hc.cons_ne (by decide))
    next heq => exact absurd heq (hc.cons_ne (by decide))
    · rw [hnumeral, Option.map_some]

end TileWorld.Json.Grammar
