import TileWorld.Json.Parser
import TileWorld.Json.Printer

/-! A number has no closing character: it ends where the text goes on with something else. -/

namespace TileWorld.Json

variable {α β : Type}

/-- Text that may follow a value: nothing, a comma or a closing bracket and what comes after it. -/
def Delimited (rest : List Char) : Prop :=
  ∀ c, rest.head? = some c → c = ',' ∨ c = ']' ∨ c = '\x7d'

theorem delimited_cons {c : Char} {rest : List Char} :
    Delimited (c :: rest) ↔ c = ',' ∨ c = ']' ∨ c = '\x7d' := by simp [Delimited]

theorem Delimited.eq_nil_or_cons {rest : List Char} (h : Delimited rest) :
    rest = [] ∨ ∃ tail, rest = ',' :: tail ∨ rest = ']' :: tail ∨ rest = '\x7d' :: tail := by
  cases rest with
  | nil => exact .inl rfl
  | cons c tail => exact .inr ⟨tail, by simpa using delimited_cons.mp h⟩

theorem Delimited.head?_append_ne {rest cs : List Char} (h : Delimited rest) {x : Char}
    (hx : ¬ Delimited [x]) (hcs : cs.head? ≠ some x) : (cs ++ rest).head? ≠ some x := by
  cases cs with
  | nil => exact fun hhead => hx (delimited_cons.mpr (h x hhead))
  | cons c cs => exact hcs

/-! ## Readers that stop before a delimiter -/

/-- The reader finds the end of what it reads before a delimiter, whatever comes after that. -/
def Stops (read : List Char → Option (α × List Char)) : Prop :=
  ∀ cs rest, Delimited rest → read (cs ++ rest) = (read cs).map (Prod.map id (· ++ rest))

theorem stops_pure (a : α) : Stops fun cs => some (a, cs) := fun _ _ _ => rfl

theorem Stops.bind {first : List Char → Option (α × List Char)}
    {next : α → List Char → Option (β × List Char)} (hfirst : Stops first)
    (hnext : ∀ a, Stops (next a)) :
    Stops fun cs => (first cs).bind fun (a, left) => next a left := by
  intro cs rest h
  simp only [hfirst cs rest h]
  cases first cs with
  | none => rfl
  | some p => exact hnext p.1 p.2 rest h

theorem digits_append {rest : List Char} (h : Delimited rest) (cs : List Char) :
    Number.digits (cs ++ rest) = Prod.map id (· ++ rest) (Number.digits cs) := by
  induction cs with
  | nil => rcases h.eq_nil_or_cons with rfl | ⟨tail, rfl | rfl | rfl⟩ <;> rfl
  | cons c cs ih =>
      rw [List.cons_append, Number.digits, Number.digits]
      cases Number.digit? c with
      | none => rfl
      | some d => simp only [ih, Prod.map, id]

theorem stops_digitRun : Stops digitRun := by
  intro cs rest h
  rw [digitRun, digitRun, digits_append h]
  rcases Number.digits cs with ⟨_ | ⟨d, ds⟩, left⟩ <;> rfl

theorem stops_wholeDigits : Stops wholeDigits := by
  intro cs rest h
  rw [wholeDigits, wholeDigits, digits_append h]
  rcases Number.digits cs with ⟨_ | ⟨_ | d, _ | ⟨e, ds⟩⟩, left⟩ <;> rfl

theorem fractionDigits_of_ne {cs : List Char} (h : cs.head? ≠ some '.') :
    fractionDigits cs = some (none, cs) := by
  unfold fractionDigits
  split
  · exact absurd rfl h
  · rfl

theorem stops_fractionDigits : Stops fractionDigits := by
  intro cs rest h
  by_cases hpoint : cs.head? = some '.'
  · obtain ⟨cs, rfl⟩ := List.head?_eq_some_iff.mp hpoint
    rw [List.cons_append, fractionDigits, fractionDigits, stops_digitRun cs rest h]
    cases digitRun cs <;> rfl
  · have happend := h.head?_append_ne (by simp [delimited_cons]) hpoint
    rw [fractionDigits_of_ne hpoint, fractionDigits_of_ne happend]
    rfl

theorem exponentSign_append {rest : List Char} (h : Delimited rest) (cs : List Char) :
    exponentSign (cs ++ rest) = Prod.map id (· ++ rest) (exponentSign cs) := by
  cases cs with
  | nil => rcases h.eq_nil_or_cons with rfl | ⟨tail, rfl | rfl | rfl⟩ <;> rfl
  | cons c cs =>
      unfold exponentSign
      rw [List.cons_append]
      split <;> simp_all

theorem stops_exponentDigits : Stops exponentDigits := by
  intro cs rest h
  cases cs with
  | nil => rcases h.eq_nil_or_cons with rfl | ⟨tail, rfl | rfl | rfl⟩ <;> rfl
  | cons c cs =>
      rw [List.cons_append, exponentDigits, exponentDigits, exponentSign_append h]
      simp only [Prod.map_fst, Prod.map_snd, stops_digitRun _ rest h]
      split
      · cases digitRun (exponentSign cs).2 <;> rfl
      · rfl

/-- A numeral behind its sign. -/
def magnitude (negative : Bool) (cs : List Char) : Option (Number.Literal × List Char) :=
  (wholeDigits cs).bind fun (whole, cs) =>
    (fractionDigits cs).bind fun (fraction, cs) =>
      (exponentDigits cs).bind fun (exponent, cs) =>
        some (⟨negative, whole, fraction, exponent⟩, cs)

theorem numeral_minus (cs : List Char) : numeral ('-' :: cs) = magnitude true cs := rfl

theorem numeral_of_ne {cs : List Char} (h : cs.head? ≠ some '-') :
    numeral cs = magnitude false cs := by
  unfold numeral
  split
  rename_i negative left hsign
  split at hsign
  · exact absurd rfl h
  · obtain ⟨rfl, rfl⟩ := Prod.mk.inj hsign
    rfl

theorem stops_magnitude (negative : Bool) : Stops (magnitude negative) :=
  stops_wholeDigits.bind fun _ => stops_fractionDigits.bind fun _ =>
    stops_exponentDigits.bind fun _ => stops_pure _

theorem stops_numeral : Stops numeral := by
  intro cs rest h
  by_cases hminus : cs.head? = some '-'
  · obtain ⟨cs, rfl⟩ := List.head?_eq_some_iff.mp hminus
    exact stops_magnitude true cs rest h
  · have happend := h.head?_append_ne (by simp [delimited_cons]) hminus
    rw [numeral_of_ne hminus, numeral_of_ne happend, stops_magnitude false cs rest h]

/-! ## Values that are numbers -/

def BeginsNumeral (c : Char) : Prop := c = '-' ∨ Number.digit? c ≠ none

instance : DecidablePred BeginsNumeral := fun c =>
  inferInstanceAs (Decidable (c = '-' ∨ Number.digit? c ≠ none))

theorem exists_cons_of_numeral {cs : List Char} {p : Number.Literal × List Char}
    (h : numeral cs = some p) : ∃ c tail, cs = c :: tail ∧ BeginsNumeral c := by
  cases cs with
  | nil => cases h
  | cons c tail =>
      refine ⟨c, tail, rfl, Decidable.or_iff_not_imp_left.mpr fun hminus hdigit => ?_⟩
      have hdigits : Number.digits (c :: tail) = ([], c :: tail) := by rw [Number.digits, hdigit]
      have hhead : (c :: tail).head? ≠ some '-' := fun hc => hminus (Option.some.inj hc)
      rw [numeral_of_ne hhead, magnitude, wholeDigits, hdigits] at h
      cases h

variable {c : Char} {tail : List Char}

theorem BeginsNumeral.ne (hc : BeginsNumeral c) {x : Char} (hx : ¬ BeginsNumeral x) : c ≠ x := by
  rintro rfl
  exact hx hc

theorem BeginsNumeral.cons_ne (hc : BeginsNumeral c) {x : Char} (hx : ¬ BeginsNumeral x)
    {cs : List Char} : c :: tail ≠ x :: cs := fun h => hc.ne hx (List.cons.inj h).1

theorem BeginsNumeral.isBlank (hc : BeginsNumeral c) : isBlank c = false := by
  simp [Json.isBlank, hc.ne (x := ' ') (by decide), hc.ne (x := '\t') (by decide),
    hc.ne (x := '\n') (by decide), hc.ne (x := '\r') (by decide)]

theorem skipBlanks_cons (h : isBlank c = false) (cs : List Char) :
    skipBlanks (c :: cs) = c :: cs :=
  List.dropWhile_cons_of_neg (by simp [h])

theorem BeginsNumeral.scalar (hc : BeginsNumeral c) :
    scalar (c :: tail) =
      (numeral (c :: tail)).bind fun p => p.1.reading?.map fun r => (ofReading r, p.2) := by
  unfold Json.scalar
  split
  next heq => exact absurd heq (hc.cons_ne (by decide))
  next heq => exact absurd heq (hc.cons_ne (by decide))
  next heq => exact absurd heq (hc.cons_ne (by decide))
  next heq => exact absurd heq (hc.cons_ne (by decide))
  · exact congrArg _ (funext fun _ => (Option.map_eq_bind ..).symm)

theorem BeginsNumeral.value (hc : BeginsNumeral c) (bound depth : Nat) :
    value bound depth (c :: tail) = Json.scalar (c :: tail) := by
  cases depth with
  | zero => rw [Json.value, skipBlanks_cons hc.isBlank]
  | succ depth =>
      rw [Json.value, skipBlanks_cons hc.isBlank]
      split
      next heq => exact absurd heq (hc.cons_ne (by decide))
      next heq => exact absurd heq (hc.cons_ne (by decide))
      · rfl

/-- The text is a number and nothing else. -/
def IsNumeral (cs : List Char) (r : Number.Reading) : Prop :=
  ∃ l, numeral cs = some (l, []) ∧ l.reading? = some r

theorem isNumeral_of_scalar {cs : List Char} {r : Number.Reading}
    (h : scalar cs = some (ofReading r, [])) : IsNumeral cs r := by
  unfold scalar at h
  -- Strings and the three words have first characters of their own and are no numbers.
  split at h
  · obtain ⟨_, -, hx⟩ := Option.map_eq_some_iff.mp h
    cases r <;> cases hx
  · obtain ⟨_, -, hx⟩ := Option.map_eq_some_iff.mp h
    cases r <;> cases hx
  · obtain ⟨_, -, hx⟩ := Option.map_eq_some_iff.mp h
    cases r <;> cases hx
  · obtain ⟨_, -, hx⟩ := Option.map_eq_some_iff.mp h
    cases r <;> cases hx
  · obtain ⟨⟨l, left⟩, hl, h⟩ := Option.bind_eq_some_iff.mp h
    obtain ⟨q, hq, h⟩ := Option.bind_eq_some_iff.mp h
    obtain ⟨hqr, rfl⟩ := Prod.mk.inj (Option.some.inj h)
    refine ⟨l, hl, hq.trans (congrArg some ?_)⟩
    cases q <;> cases r <;> cases hqr <;> rfl

/-- What is a number by itself is the same number before a delimiter. -/
theorem IsNumeral.value_append {cs rest : List Char} {r : Number.Reading} (h : IsNumeral cs r)
    (hrest : Delimited rest) (bound depth : Nat) :
    value bound depth (cs ++ rest) = some (ofReading r, rest) := by
  obtain ⟨l, hl, hr⟩ := h
  obtain ⟨c, tail, rfl, hc⟩ := exists_cons_of_numeral hl
  have hnumeral : numeral (c :: (tail ++ rest)) = some (l, rest) := by
    rw [← List.cons_append, stops_numeral _ _ hrest, hl]
    rfl
  rw [List.cons_append, hc.value, hc.scalar, hnumeral, Option.bind_some, hr, Option.map_some]

/-! ## Integers -/

def digitValue (c : Char) : Nat := c.toNat - '0'.toNat

theorem digit?_of_isDigit {c : Char} (h : c.isDigit = true) :
    Number.digit? c = some (digitValue c) := by
  rw [Char.isDigit, Bool.and_eq_true, decide_eq_true_eq, decide_eq_true_eq] at h
  exact if_pos h

theorem digitValue_ne_zero {c : Char} (h : c.isDigit = true) (hzero : c ≠ '0') :
    digitValue c ≠ 0 := by
  rw [Char.isDigit, Bool.and_eq_true, decide_eq_true_eq, decide_eq_true_eq] at h
  have hlow : '0'.toNat ≤ c.toNat := h.1
  have hne : c.toNat ≠ '0'.toNat := fun heq => hzero (Char.toNat_inj.mp heq)
  rw [digitValue]
  omega

theorem digits_of_isDigit {cs : List Char} (h : ∀ c ∈ cs, c.isDigit = true) :
    Number.digits cs = (cs.map digitValue, []) := by
  induction cs with
  | nil => rfl
  | cons c cs ih =>
      obtain ⟨hc, hcs⟩ := List.forall_mem_cons.mp h
      rw [Number.digits, digit?_of_isDigit hc, ih hcs]
      rfl

theorem isDigit_of_mem_digitChars {n : Nat} {c : Char} (h : c ∈ Number.digitChars n) :
    c.isDigit = true :=
  Nat.isDigit_of_mem_toDigits (by decide) (by decide) h

theorem head?_digitChars {n : Nat} (hn : 0 < n) : (Number.digitChars n).head? ≠ some '0' := by
  induction n using Nat.strongRecOn with
  | ind n ih =>
      rw [Number.digitChars]
      rcases Nat.lt_or_ge n 10 with hlt | hge
      · rw [Nat.toDigits_of_lt_base hlt]
        intro hzero
        have hnat := congrArg Char.toNat (Option.some.inj hzero)
        rw [Nat.toNat_digitChar_of_lt_ten hlt] at hnat
        have hcode : '0'.toNat = 48 := rfl
        omega
      · rw [Nat.toDigits_of_base_le (by decide) hge, List.head?_append,
          Option.or_of_isSome (List.isSome_head?.mpr Nat.toDigits_ne_nil)]
        exact ih (n / 10) (by omega) (by omega)

theorem wholeDigits_digitChars (n : Nat) :
    wholeDigits (Number.digitChars n) = some ((Number.digitChars n).map digitValue, []) := by
  rcases Nat.eq_zero_or_pos n with rfl | hn
  · rfl
  · have hzero := head?_digitChars hn
    have hdigits := fun c => isDigit_of_mem_digitChars (n := n) (c := c)
    rw [wholeDigits, digits_of_isDigit hdigits]
    cases hchars : Number.digitChars n with
    | nil => exact absurd hchars Nat.toDigits_ne_nil
    | cons c cs =>
        rw [hchars] at hzero hdigits
        have hc := digitValue_ne_zero (hdigits c List.mem_cons_self) fun h => hzero (by rw [h]; rfl)
        obtain ⟨d, hd⟩ := Nat.exists_eq_succ_of_ne_zero hc
        rw [List.map_cons, hd]
        rfl

theorem le_foldl_digits (n : Nat) (ds : List Nat) : n ≤ ds.foldl (fun n d => n * 10 + d) n := by
  induction ds generalizing n with
  | nil => exact Nat.le_refl n
  | cons d ds ih => exact Nat.le_trans (by omega) (ih (n * 10 + d))

theorem wholeSignificand_of_lt {n : Nat} {ds : List Nat}
    (h : ds.foldl (fun n d => n * 10 + d) n < 2 ^ 64) :
    Number.wholeSignificand n ds = (ds.foldl (fun n d => n * 10 + d) n, 0) := by
  induction ds generalizing n with
  | nil => rfl
  | cons d ds ih =>
      rw [List.foldl_cons] at h ⊢
      rw [Number.wholeSignificand, if_pos (Nat.lt_of_le_of_lt (le_foldl_digits _ ds) h), ih h]

theorem wholeSignificand_digitChars {n : Nat} (h : n < 2 ^ 64) :
    Number.wholeSignificand 0 ((Number.digitChars n).map digitValue) = (n, 0) := by
  have hvalue : ((Number.digitChars n).map digitValue).foldl (fun n d => n * 10 + d) 0 = n := by
    have hread : Nat.ofDigitChars 10 (Number.digitChars n) 0 = n :=
      Nat.ofDigitChars_toDigits (by decide) (by decide)
    rw [List.foldl_map]
    simpa only [Nat.ofDigitChars, Nat.mul_comm 10, digitValue] using hread
  rw [wholeSignificand_of_lt (by rwa [hvalue]), hvalue]

theorem magnitude_digitChars (negative : Bool) (n : Nat) :
    magnitude negative (Number.digitChars n) =
      some (⟨negative, (Number.digitChars n).map digitValue, none, none⟩, []) := by
  rw [magnitude, wholeDigits_digitChars]
  rfl

/-- The text of an integer is read as that integer, in the range of signed and unsigned words. -/
theorem isNumeral_intChars {n : Int} (hlow : -2 ^ 63 ≤ n) (hhigh : n < 2 ^ 64) :
    IsNumeral (Number.intChars n) (.integer n) := by
  rw [Number.intChars]
  split
  next hneg =>
    refine ⟨_, (numeral_minus _).trans (magnitude_digitChars true n.natAbs), ?_⟩
    have hread : 0 < n.natAbs ∧ n.natAbs ≤ 2 ^ 63 := by omega
    have hn : -(n.natAbs : Int) = n := by omega
    rw [Number.Literal.reading?, wholeSignificand_digitChars (by omega)]
    simp only [hread, hn, Option.isNone_none, and_self, implies_true, if_true]
  next hneg =>
    have hhead : (Number.digitChars n.natAbs).head? ≠ some '-' := fun hdash =>
      absurd (isDigit_of_mem_digitChars (List.mem_of_head? hdash)) (by decide)
    refine ⟨_, (numeral_of_ne hhead).trans (magnitude_digitChars false n.natAbs), ?_⟩
    have hn : (n.natAbs : Int) = n := by omega
    rw [Number.Literal.reading?, wholeSignificand_digitChars (by omega)]
    simp [hn]

end TileWorld.Json
