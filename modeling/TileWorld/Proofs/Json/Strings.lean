import TileWorld.Proofs.Json.Locality

/-! # Reading strings by the grammar -/

namespace TileWorld.Json.Grammar

variable {cs rest : List Char}

/-! ## Blanks -/

theorem blanks_skipBlanks (cs : List Char) : Blanks cs (skipBlanks cs) := by
  induction cs with
  | nil => exact .none []
  | cons c cs ih =>
    cases hc : isBlank c with
    | true =>
      have hskip : skipBlanks (c :: cs) = skipBlanks cs := by simp [skipBlanks, hc]
      rw [hskip]
      exact .cons hc ih
    | false =>
      have hskip : skipBlanks (c :: cs) = c :: cs := by simp [skipBlanks, hc]
      rw [hskip]
      exact .none _

theorem Blanks.skipBlanks_eq (h : Blanks cs rest) : skipBlanks cs = skipBlanks rest := by
  induction h with
  | none => rfl
  | cons hc _ ih => simpa [skipBlanks, hc] using ih

theorem Blanks.trans {left : List Char} (h : Blanks cs left) (h' : Blanks left rest) :
    Blanks cs rest := by
  induction h with
  | none => exact h'
  | cons hc _ ih => exact .cons hc (ih h')

/-- The blanks in front of a character that is not blank are all of them. -/
theorem Blanks.skipBlanks_eq_cons {c : Char} (h : Blanks cs (c :: rest))
    (hc : isBlank c = false) : skipBlanks cs = c :: rest := by
  rw [h.skipBlanks_eq]
  simp [skipBlanks, hc]

/-! ## Strings -/

/-- What a step of a scan leads to. -/
def resume (step : Option Step) (done cs : List Char) : Option (List Char × List Char) :=
  match step with
  | none => none
  | some .close => some (done.reverse, cs)
  | some (.skip next) => scan next done cs
  | some (.emit made next) => scan next (made :: done) cs

theorem scan_cons (s : Scan) (done : List Char) (c : Char) (cs : List Char) :
    scan s done (c :: cs) = resume (s.step? c) done cs := by
  rw [scan]
  rfl

variable {leading : Option Nat} {done : List Char} {r : List Char × List Char}

theorem scan_digit_iff {digits value : Nat} :
    scan (.unit leading digits value) done cs = some r ↔
      ∃ c d left, cs = c :: left ∧ hexDigit? c = some d ∧
        resume (if digits = 3 then closeUnit? leading (value * 16 + d)
          else some (.skip (.unit leading (digits + 1) (value * 16 + d)))) done left = some r := by
  cases cs with
  | nil => simp [scan]
  | cons c cs =>
    rw [scan_cons, Scan.step?]
    constructor
    · intro h
      cases hd : hexDigit? c with
      | none => simp [hd, resume] at h
      | some d => exact ⟨c, d, cs, rfl, hd, by simpa [hd] using h⟩
    · rintro ⟨_, d, _, heq, hd, h⟩
      cases heq
      simpa [hd] using h

theorem scan_unit_iff :
    scan (.unit leading 0 0) done cs = some r ↔
      ∃ u left, CodeUnit cs u left ∧ resume (closeUnit? leading u) done left = some r := by
  constructor
  · intro h
    obtain ⟨a, i, left, rfl, ha, h⟩ := scan_digit_iff.mp h
    obtain ⟨b, j, left, rfl, hb, h⟩ := scan_digit_iff.mp h
    obtain ⟨c, k, left, rfl, hc, h⟩ := scan_digit_iff.mp h
    obtain ⟨d, l, left, rfl, hd, h⟩ := scan_digit_iff.mp h
    rw [if_pos rfl, Nat.zero_mul, Nat.zero_add] at h
    exact ⟨_, left, .mk left ha hb hc hd, h⟩
  · rintro ⟨_, left, ⟨_, ha, hb, hc, hd⟩, h⟩
    refine scan_digit_iff.mpr ⟨_, _, _, rfl, ha, scan_digit_iff.mpr ?_⟩
    refine ⟨_, _, _, rfl, hb, scan_digit_iff.mpr ⟨_, _, _, rfl, hc, scan_digit_iff.mpr ?_⟩⟩
    refine ⟨_, _, _, rfl, hd, ?_⟩
    rwa [if_pos rfl, Nat.zero_mul, Nat.zero_add]

theorem scan_partner_iff {u : Nat} :
    scan (.partner u) done cs = some r ↔
      ∃ left, cs = '\\' :: 'u' :: left ∧ scan (.unit (some u) 0 0) done left = some r := by
  cases cs with
  | nil => simp [scan]
  | cons c cs =>
    rw [scan_cons, Scan.step?]
    by_cases hslash : c = '\\'
    · cases cs with
      | nil => simp [hslash, resume, scan]
      | cons d cs =>
        rw [if_pos hslash, resume, scan_cons, Scan.step?]
        by_cases hu : d = 'u'
        · simp [hslash, hu, resume]
        · simp [hu, resume]
    · simp [hslash, resume]

/-- What a complete unit leads to where no half of a pair is open. -/
theorem resume_closeUnit?_none_iff {u : Nat} :
    resume (closeUnit? none u) done cs = some r ↔
      (¬ Leading u ∧ ¬ Trailing u ∧ scan .plain (.ofNat u :: done) cs = some r) ∨
        Leading u ∧ ∃ v left left', cs = '\\' :: 'u' :: left ∧ CodeUnit left v left' ∧ Trailing v ∧
          scan .plain (.ofNat (0x10000 + (u - 0xD800) * 0x400 + (v - 0xDC00)) :: done) left' =
            some r := by
  by_cases hlead : Leading u
  · have hclose : closeUnit? none u = some (.skip (.partner u)) := if_pos hlead
    rw [hclose, resume, scan_partner_iff]
    simp only [hlead, not_true_eq_false, false_and, true_and, false_or, scan_unit_iff]
    constructor
    · rintro ⟨left, rfl, v, left', hv, h⟩
      by_cases htrail : Trailing v
      · have hpair : closeUnit? (some u) v = _ := if_pos htrail
        rw [hpair] at h
        exact ⟨v, left, left', rfl, hv, htrail, h⟩
      · have hpair : closeUnit? (some u) v = none := if_neg htrail
        rw [hpair] at h
        cases h
    · rintro ⟨v, left, left', rfl, hv, htrail, h⟩
      have hpair : closeUnit? (some u) v = _ := if_pos htrail
      exact ⟨left, rfl, v, left', hv, by rw [hpair]; exact h⟩
  · have hclose : closeUnit? none u = if Trailing u then none
        else some (Step.emit (.ofNat u) .plain) := if_neg hlead
    rw [hclose]
    by_cases htrail : Trailing u
    · simp [htrail, hlead, resume]
    · simp [htrail, hlead, resume]

theorem scan_escape_cons (c : Char) (cs : List Char) :
    scan .plain done ('\\' :: c :: cs) =
      if c = 'u' then scan (.unit none 0 0) done cs
      else resume ((unescape? c).map fun d => .emit d .plain) done cs := by
  rw [scan_cons, Scan.step?, if_neg (by decide), if_pos rfl, resume, scan_cons, Scan.step?]
  split <;> rfl

theorem scan_plain_cons {c : Char} (hquote : c ≠ '"') (hslash : c ≠ '\\') (cs : List Char) :
    scan .plain done (c :: cs) = if c.toNat < 0x20 then none else scan .plain (c :: done) cs := by
  rw [scan_cons, Scan.step?, if_neg hquote, if_neg hslash]
  split <;> rfl

/-- Units have no one-letter escape. -/
theorem ne_of_unescape? {c d : Char} (hc : unescape? c = some d) : c ≠ 'u' := by
  rintro rfl
  cases hc

theorem Letter.scan {c : Char} (h : Letter cs c rest)
    (hscan : scan .plain (c :: done) rest = some r) : scan .plain done cs = some r := by
  cases h with
  | plain _ hquote hslash hc =>
    rwa [scan_plain_cons hquote hslash, if_neg (Nat.not_lt.mpr hc)]
  | escape _ hc =>
    rw [scan_escape_cons, if_neg (ne_of_unescape? hc), hc]
    exact hscan
  | unit hu hlead htrail =>
    rw [scan_escape_cons, if_pos rfl]
    have hresume := resume_closeUnit?_none_iff.mpr (.inl ⟨hlead, htrail, hscan⟩)
    exact scan_unit_iff.mpr ⟨_, _, hu, hresume⟩
  | pair hu hlead hv htrail =>
    rw [scan_escape_cons, if_pos rfl]
    have hresume :=
      resume_closeUnit?_none_iff.mpr (.inr ⟨hlead, _, _, _, rfl, hv, htrail, hscan⟩)
    exact scan_unit_iff.mpr ⟨_, _, hu, hresume⟩

theorem exists_letter_of_scan_escape (h : scan .plain done ('\\' :: cs) = some r) :
    ∃ c left, Letter ('\\' :: cs) c left ∧ scan .plain (c :: done) left = some r := by
  cases cs with
  | nil => simp [scan, Scan.step?] at h
  | cons c cs =>
    rw [scan_escape_cons] at h
    split at h
    · next hc =>
      subst hc
      obtain ⟨u, left, hu, h⟩ := scan_unit_iff.mp h
      rcases resume_closeUnit?_none_iff.mp h with
        ⟨hlead, htrail, h⟩ | ⟨hlead, v, left, left', rfl, hv, htrail, h⟩
      · exact ⟨_, _, .unit hu hlead htrail, h⟩
      · exact ⟨_, _, .pair hu hlead hv htrail, h⟩
    · cases hc : unescape? c with
      | none => simp [hc, resume] at h
      | some d =>
        rw [hc] at h
        exact ⟨d, cs, .escape cs hc, h⟩

/-- A scan in the middle of a string either finds its end or one more character. -/
theorem exists_letter_of_scan (h : scan .plain done cs = some r) :
    (∃ rest, cs = '"' :: rest ∧ r = (done.reverse, rest)) ∨
      ∃ c left, Letter cs c left ∧ scan .plain (c :: done) left = some r := by
  cases cs with
  | nil => simp [scan] at h
  | cons c cs =>
    by_cases hquote : c = '"'
    · rw [hquote, scan_cons, Scan.step?, if_pos rfl, resume] at h
      exact .inl ⟨cs, by rw [hquote], (Option.some.inj h).symm⟩
    by_cases hslash : c = '\\'
    · subst hslash
      exact .inr (exists_letter_of_scan_escape h)
    · rw [scan_plain_cons hquote hslash] at h
      split at h
      · cases h
      · next hc => exact .inr ⟨c, cs, .plain cs hquote hslash (Nat.not_lt.mp hc), h⟩

theorem Spells.scan {s : List Char} (h : Spells cs s rest) (done : List Char) :
    scan .plain done cs = some (done.reverse ++ s, rest) := by
  induction h generalizing done with
  | close rest => simp [scan_cons, Scan.step?, resume]
  | @letter c _ _ _ _ hc _ ih =>
    refine hc.scan ?_
    rw [ih (c :: done)]
    simp

theorem spells_of_scan {s : List Char} (h : scan .plain done cs = some (s, rest)) :
    ∃ t, Spells cs t rest ∧ s = done.reverse ++ t := by
  -- A character may be several steps of the scan, so the induction is on the length.
  induction hn : cs.length using Nat.strongRecOn generalizing cs done with
  | ind n ih =>
    rcases exists_letter_of_scan h with ⟨left, rfl, heq⟩ | ⟨c, left, hc, h⟩
    · cases heq
      exact ⟨[], .close rest, by simp⟩
    · have hlt := (local_letter c hc).length_lt nofun
      obtain ⟨t, ht, rfl⟩ := ih _ (hn ▸ hlt) h rfl
      exact ⟨c :: t, .letter hc ht, by simp⟩

theorem stringBody_eq_some_iff {s : List Char} :
    stringBody cs = some (s, rest) ↔ Spells cs s rest := by
  constructor
  · intro h
    obtain ⟨t, ht, rfl⟩ := spells_of_scan h
    exact ht
  · exact fun h => h.scan []

/-! ## Strings that are passed over -/

theorem skimString_nil (state : SkimString) : skimString state [] = none := by
  cases state <;> rfl

theorem skimString_cons (c : Char) (cs : List Char) :
    skimString .plain (c :: cs) =
      if c = '"' then some cs
      else if c = '\\' then skimString .escape cs
      else if c.toNat < 0x20 then none
      else skimString .plain cs := rfl

theorem skimString_unit_cons (digits : Nat) (c : Char) (cs : List Char) :
    skimString (.unit digits) (c :: cs) =
      if (hexDigit? c).isNone then none
      else if digits = 3 then skimString .plain cs
      else skimString (.unit (digits + 1)) cs := rfl

theorem skimString_digit_iff {digits : Nat} :
    skimString (.unit digits) cs = some rest ↔
      ∃ c d left, cs = c :: left ∧ hexDigit? c = some d ∧
        skimString (if digits = 3 then .plain else .unit (digits + 1)) left = some rest := by
  cases cs with
  | nil => simp [skimString_nil]
  | cons c cs =>
    rw [skimString_unit_cons]
    constructor
    · intro h
      cases hd : hexDigit? c with
      | none => simp [hd] at h
      | some d =>
        refine ⟨c, d, cs, rfl, hd, ?_⟩
        rw [hd] at h
        split <;> simp_all
    · rintro ⟨_, d, _, heq, hd, h⟩
      cases heq
      rw [hd]
      split at h <;> simp_all

theorem skimString_unit_iff :
    skimString (.unit 0) cs = some rest ↔
      ∃ u left, CodeUnit cs u left ∧ skimString .plain left = some rest := by
  constructor
  · intro h
    obtain ⟨a, i, left, rfl, ha, h⟩ := skimString_digit_iff.mp h
    obtain ⟨b, j, left, rfl, hb, h⟩ := skimString_digit_iff.mp h
    obtain ⟨c, k, left, rfl, hc, h⟩ := skimString_digit_iff.mp h
    obtain ⟨d, l, left, rfl, hd, h⟩ := skimString_digit_iff.mp h
    exact ⟨_, left, .mk left ha hb hc hd, h⟩
  · rintro ⟨_, left, ⟨_, ha, hb, hc, hd⟩, h⟩
    refine skimString_digit_iff.mpr ⟨_, _, _, rfl, ha, skimString_digit_iff.mpr ?_⟩
    refine ⟨_, _, _, rfl, hb, skimString_digit_iff.mpr ⟨_, _, _, rfl, hc, ?_⟩⟩
    exact skimString_digit_iff.mpr ⟨_, _, _, rfl, hd, h⟩

theorem skimString_escape_cons (c : Char) (cs : List Char) :
    skimString .plain ('\\' :: c :: cs) =
      if c = 'u' then skimString (.unit 0) cs
      else if (unescape? c).isSome then skimString .plain cs else none := by
  rw [skimString_cons, if_neg (by decide), if_pos rfl]
  rfl

theorem skimString_plain_cons {c : Char} (hquote : c ≠ '"') (hslash : c ≠ '\\')
    (cs : List Char) :
    skimString .plain (c :: cs) = if c.toNat < 0x20 then none else skimString .plain cs := by
  rw [skimString_cons, if_neg hquote, if_neg hslash]

theorem PassedLetter.skimString {left : List Char} (h : PassedLetter cs left)
    (hskim : skimString .plain left = some rest) : skimString .plain cs = some rest := by
  cases h with
  | plain _ hquote hslash hc =>
    rwa [skimString_plain_cons hquote hslash, if_neg (Nat.not_lt.mpr hc)]
  | escape _ hc =>
    rwa [skimString_escape_cons, if_neg (ne_of_unescape? hc), hc, Option.isSome_some, if_pos rfl]
  | unit hu =>
    rw [skimString_escape_cons, if_pos rfl]
    exact skimString_unit_iff.mpr ⟨_, _, hu, hskim⟩

theorem exists_letter_of_skimString_escape (h : skimString .plain ('\\' :: cs) = some rest) :
    ∃ left, PassedLetter ('\\' :: cs) left ∧ skimString .plain left = some rest := by
  cases cs with
  | nil => simp [skimString_cons, skimString_nil] at h
  | cons c cs =>
    rw [skimString_escape_cons] at h
    split at h
    · next hc =>
      subst hc
      obtain ⟨u, left, hu, h⟩ := skimString_unit_iff.mp h
      exact ⟨left, .unit hu, h⟩
    split at h
    · next hc =>
      obtain ⟨d, hc⟩ := Option.isSome_iff_exists.mp hc
      exact ⟨cs, .escape cs hc, h⟩
    · cases h

theorem exists_letter_of_skimString (h : skimString .plain cs = some rest) :
    cs = '"' :: rest ∨ ∃ left, PassedLetter cs left ∧ skimString .plain left = some rest := by
  cases cs with
  | nil => simp [skimString_nil] at h
  | cons c cs =>
    by_cases hquote : c = '"'
    · rw [hquote, skimString_cons, if_pos rfl] at h
      exact .inl (by rw [hquote, Option.some.inj h])
    by_cases hslash : c = '\\'
    · subst hslash
      exact .inr (exists_letter_of_skimString_escape h)
    · rw [skimString_plain_cons hquote hslash] at h
      split at h
      · cases h
      · next hc => exact .inr ⟨cs, .plain cs hquote hslash (Nat.not_lt.mp hc), h⟩

theorem PassedString.skimString (h : PassedString cs rest) :
    skimString .plain cs = some rest := by
  induction h with
  | close rest => rw [skimString_cons, if_pos rfl]
  | letter hc _ ih => exact hc.skimString ih

theorem passedString_of_skimString (h : skimString .plain cs = some rest) :
    PassedString cs rest := by
  induction hn : cs.length using Nat.strongRecOn generalizing cs with
  | ind n ih =>
    rcases exists_letter_of_skimString h with rfl | ⟨left, hc, h⟩
    · exact .close rest
    · have hlt := (local_passedLetter hc).length_lt nofun
      exact .letter hc (ih _ (hn ▸ hlt) h rfl)

theorem skimString_eq_some_iff : skimString .plain cs = some rest ↔ PassedString cs rest :=
  ⟨passedString_of_skimString, PassedString.skimString⟩

end TileWorld.Json.Grammar
