import TileWorld.Proofs.Json.Recognition

/-! The skim passes over what the grammar of passed values allows. The skim keeps the brackets that
are open; the grammar says what each of them waits for. -/

namespace TileWorld.Json.Grammar

variable {b : Bracket} {brackets outer : List Bracket} {cs left rest : List Char}

/-! ## What is skimmed is well formed -/

/-- Parts one behind the other. -/
inductive PassedAll : List Part → List Char → List Char → Prop where
  | nil (rest : List Char) : PassedAll [] rest rest
  | cons {part : Part} {parts : List Part} {cs left rest : List Char} (h : Passed part cs left)
      (hparts : PassedAll parts left rest) : PassedAll (part :: parts) cs rest

/-- What has to follow inside the open brackets, the innermost first. -/
def pending : List Bracket → Expect → List Part
  | brackets, .value => .value :: brackets.map .further
  | [], .first => []
  | b :: outer, .first => .inside b :: outer.map .further
  | brackets, .further => brackets.map .further

/-- What comes after a value: nothing more, or what follows it in the innermost bracket. -/
def proceed (bound : Nat) (brackets : List Bracket) (rest : List Char) : Option (List Char) :=
  if brackets.isEmpty then some rest else skimFrom bound brackets .further rest

/-- Begins an item in a bracket: a field has a name in front of its value. -/
def skimItem (bound : Nat) (b : Bracket) (brackets : List Bracket) (cs : List Char) :
    Option (List Char) :=
  match b with
  | .square => skimFrom bound brackets .value cs
  | .brace =>
    match skimName cs with
    | none => none
    | some left => skimFrom bound brackets .value left

section Steps

variable (bound : Nat)

theorem skimFrom_value (brackets : List Bracket) (cs : List Char) :
    skimFrom (bound + 1) brackets .value cs =
      match skipBlanks cs with
      | '[' :: left => skimFrom bound (.square :: brackets) .first left
      | '\x7b' :: left => skimFrom bound (.brace :: brackets) .first left
      | left =>
        match skimScalar left with
        | none => none
        | some rest => proceed bound brackets rest := by
  rw [skimFrom]
  rfl

theorem skimFrom_first (b : Bracket) (outer : List Bracket) (cs : List Char) :
    skimFrom (bound + 1) (b :: outer) .first cs =
      match skipBlanks cs with
      | [] => none
      | c :: left =>
        if c = b.close then proceed bound outer left
        else skimItem bound b (b :: outer) (c :: left) := by
  rw [skimFrom]
  rfl

theorem skimFrom_further (b : Bracket) (outer : List Bracket) (cs : List Char) :
    skimFrom (bound + 1) (b :: outer) .further cs =
      match skipBlanks cs with
      | [] => none
      | c :: left =>
        if c = b.close then proceed bound outer left
        else if c = ',' then skimItem bound b (b :: outer) left else none := by
  rw [skimFrom]
  rfl

end Steps

theorem skimName_eq_some_iff :
    skimName cs = some rest ↔ ∃ left left', Blanks cs ('"' :: left) ∧ PassedString left left' ∧
      Blanks left' (':' :: rest) := by
  constructor
  · intro h
    unfold skimName at h
    split at h
    · next left hskip =>
      obtain ⟨left', hstring, h⟩ := Option.bind_eq_some_iff.mp h
      have hquote := blanks_skipBlanks cs
      rw [hskip] at hquote
      have hcolon := blanks_skipBlanks left'
      split at h
      · next hskip' =>
        rw [hskip'] at hcolon
        cases h
        exact ⟨left, left', hquote, skimString_eq_some_iff.mp hstring, hcolon⟩
      · cases h
    · cases h
  · rintro ⟨left, left', hquote, hstring, hcolon⟩
    rw [skimName, hquote.skipBlanks_eq_cons rfl]
    simp only [hstring.skimString, Option.bind_eq_bind, Option.bind_some,
      hcolon.skipBlanks_eq_cons rfl]

theorem PassedAll.of_proceed {bound : Nat} (h : proceed bound brackets cs = some rest)
    (hfurther : skimFrom bound brackets .further cs = some rest →
      PassedAll (pending brackets .further) cs rest) :
    PassedAll (brackets.map .further) cs rest := by
  cases brackets with
  | nil =>
    cases h
    exact .nil cs
  | cons b outer => exact hfurther h

theorem PassedAll.of_skimItem {bound : Nat} (h : skimItem bound b brackets cs = some rest)
    (hvalue : ∀ {left}, skimFrom bound brackets .value left = some rest →
      PassedAll (pending brackets .value) left rest) :
    PassedAll (.item b :: brackets.map .further) cs rest := by
  cases b with
  | square =>
    obtain _ | ⟨hvalue, hparts⟩ := hvalue h
    exact .cons (.element hvalue) hparts
  | brace =>
    rw [skimItem] at h
    split at h
    · cases h
    · next left hname =>
      obtain ⟨_, _, hquote, hstring, hcolon⟩ := skimName_eq_some_iff.mp hname
      obtain _ | ⟨hvalue, hparts⟩ := hvalue h
      exact .cons (.field hquote hstring hcolon hvalue) hparts

/-- A skim that succeeds has found what every open bracket was waiting for. -/
theorem passedAll_of_skimFrom {bound : Nat} {expect : Expect}
    (h : skimFrom bound brackets expect cs = some rest) :
    PassedAll (pending brackets expect) cs rest := by
  induction bound generalizing brackets expect cs with
  | zero => simp [skimFrom] at h
  | succ bound ih =>
    have hblanks := blanks_skipBlanks cs
    cases expect with
    | value =>
      rw [skimFrom_value] at h
      split at h
      · next left hskip =>
        rw [hskip] at hblanks
        obtain _ | ⟨hinside, hparts⟩ := ih h
        exact .cons (.square hblanks hinside) hparts
      · next left hskip =>
        rw [hskip] at hblanks
        obtain _ | ⟨hinside, hparts⟩ := ih h
        exact .cons (.brace hblanks hinside) hparts
      · split at h
        · cases h
        · next left hscalar =>
          exact .cons (.scalar hblanks (skimScalar_sound hscalar)) (.of_proceed h ih)
    | first =>
      cases brackets with
      | nil => simp [skimFrom] at h
      | cons b outer =>
        rw [skimFrom_first] at h
        split at h
        · cases h
        · next c left hskip =>
          rw [hskip] at hblanks
          split at h
          · next hc => exact .cons (.empty (hc ▸ hblanks)) (.of_proceed h ih)
          · obtain _ | ⟨hitem, _ | ⟨hfurther, hparts⟩⟩ := PassedAll.of_skimItem h ih
            exact .cons (.items hblanks hitem hfurther) hparts
    | further =>
      cases brackets with
      | nil => simp [skimFrom] at h
      | cons b outer =>
        rw [skimFrom_further] at h
        split at h
        · cases h
        · next c left hskip =>
          rw [hskip] at hblanks
          split at h
          · next hc => exact .cons (.close (hc ▸ hblanks)) (.of_proceed h ih)
          split at h
          · next hc =>
            obtain _ | ⟨hitem, _ | ⟨hfurther, hparts⟩⟩ := PassedAll.of_skimItem h ih
            exact .cons (.further (hc ▸ hblanks) hitem hfurther) hparts
          · cases h

/-! ## What is well formed is skimmed -/

def skimPart (bound : Nat) (outer : List Bracket) (cs : List Char) :
    Part → Option (List Char)
  | .value => skimFrom bound outer .value cs
  | .inside b => skimFrom bound (b :: outer) .first cs
  | .item b => skimItem bound b outer cs
  | .further b => skimFrom bound (b :: outer) .further cs

/-- The skim passes over a part in fewer steps than twice the characters it has. -/
def Skims (part : Part) (cs rest : List Char) : Prop :=
  ∃ steps, steps + 2 * rest.length < 2 * cs.length ∧
    ∀ bound outer, skimPart (steps + bound) outer cs part = proceed bound outer rest

theorem skipBlanks_skipBlanks (cs : List Char) : skipBlanks (skipBlanks cs) = skipBlanks cs :=
  (blanks_skipBlanks cs).skipBlanks_eq.symm

theorem skimItem_skipBlanks (bound : Nat) (b : Bracket) (cs : List Char) :
    skimItem bound b brackets (skipBlanks cs) = skimItem bound b brackets cs := by
  cases b with
  | square =>
    cases bound with
    | zero => rfl
    | succ bound => simp only [skimItem, skimFrom_value, skipBlanks_skipBlanks]
  | brace => simp only [skimItem, skimName, skipBlanks_skipBlanks]

theorem PassedScalar.begins (h : PassedScalar cs rest) :
    ∃ c left, cs = c :: left ∧ Begins c ∧ c ≠ '[' ∧ c ≠ '\x7b' := by
  cases h with
  | null => exact ⟨'n', _, rfl, by decide, by decide, by decide⟩
  | true => exact ⟨'t', _, rfl, by decide, by decide, by decide⟩
  | false => exact ⟨'f', _, rfl, by decide, by decide, by decide⟩
  | string h => exact ⟨'"', _, rfl, by decide, by decide, by decide⟩
  | number h =>
    obtain ⟨c, left, rfl, hc⟩ := h.begins
    exact ⟨c, left, rfl, hc.begins, hc.ne (by decide), hc.ne (by decide)⟩

/-- An item begins with something else than the closing bracket. -/
theorem Passed.begins (h : Passed (.item b) cs rest) :
    ∃ c left, skipBlanks cs = c :: left ∧ Begins c := by
  cases h with
  | element h =>
    cases h with
    | scalar hblanks h =>
      obtain ⟨c, left, rfl, hc, -⟩ := h.begins
      exact ⟨c, left, hblanks.skipBlanks_eq_cons hc.1, hc⟩
    | square hblanks h => exact ⟨'[', _, hblanks.skipBlanks_eq_cons rfl, by decide⟩
    | brace hblanks h => exact ⟨'\x7b', _, hblanks.skipBlanks_eq_cons rfl, by decide⟩
  | field hquote => exact ⟨'"', _, hquote.skipBlanks_eq_cons rfl, by decide⟩

theorem Passed.ends (h : Passed (.further b) cs rest) : Ends cs := by
  have hclose : Delimited (b.close :: rest) := by cases b <;> exact delimited_cons.mpr (by decide)
  cases h with
  | close h => exact h.ends (ends_of_delimited hclose)
  | further hcomma => exact hcomma.ends (ends_of_delimited (delimited_cons.mpr (.inl rfl)))

theorem ne_close_of_begins {c : Char} (hc : Begins c) (b : Bracket) : c ≠ b.close := by
  cases b with
  | square => exact hc.2.1
  | brace => exact hc.2.2

theorem isBlank_close (b : Bracket) : isBlank b.close = false := by cases b <;> rfl

theorem comma_ne_close (b : Bracket) : ',' ≠ b.close := by cases b <;> decide

theorem Blanks.length_lt {c : Char} (h : Blanks cs (c :: rest)) : rest.length < cs.length :=
  h.length_le

/-- What is well formed is passed over, if the text behind it does not continue a number. -/
theorem Passed.skims {part : Part} (h : Passed part cs rest) (hrest : Ends rest) :
    Skims part cs rest := by
  induction h with
  | scalar hblanks h =>
    have hle := hblanks.length_le
    have hlt := (local_passedScalar h).length_lt fun hnil => by simpa using hnil.begins
    obtain ⟨c, tail, rfl, hc, hsquare, hbrace⟩ := h.begins
    refine ⟨1, by omega, fun bound outer => ?_⟩
    rw [Nat.add_comm, skimPart, skimFrom_value, hblanks.skipBlanks_eq_cons hc.1]
    split
    · next heq => exact absurd (List.cons.inj heq).1 hsquare
    · next heq => exact absurd (List.cons.inj heq).1 hbrace
    · rw [h.skimScalar hrest]
  | square hblanks h ih =>
    have hlt := hblanks.length_lt
    obtain ⟨steps, hsteps, hskim⟩ := ih hrest
    refine ⟨steps + 1, by omega, fun bound outer => ?_⟩
    rw [Nat.add_right_comm, skimPart, skimFrom_value, hblanks.skipBlanks_eq_cons rfl]
    exact hskim bound outer
  | brace hblanks h ih =>
    have hlt := hblanks.length_lt
    obtain ⟨steps, hsteps, hskim⟩ := ih hrest
    refine ⟨steps + 1, by omega, fun bound outer => ?_⟩
    rw [Nat.add_right_comm, skimPart, skimFrom_value, hblanks.skipBlanks_eq_cons rfl]
    exact hskim bound outer
  | @empty b _ _ h =>
    have hlt := h.length_lt
    refine ⟨1, by omega, fun bound outer => ?_⟩
    rw [Nat.add_comm, skimPart, skimFrom_first, h.skipBlanks_eq_cons (isBlank_close b)]
    exact if_pos rfl
  | @items b _ left left' rest hblanks hitem h ihitem ih =>
    have hle := hblanks.length_le
    obtain ⟨c, tail, hskip, hc⟩ := hitem.begins
    obtain ⟨steps, hsteps, hfirst⟩ := ihitem h.ends
    obtain ⟨steps', hsteps', hskim⟩ := ih hrest
    refine ⟨steps + steps' + 1, by omega, fun bound outer => ?_⟩
    rw [Nat.add_right_comm, skimPart, skimFrom_first, hblanks.skipBlanks_eq, hskip]
    simp only [if_neg (ne_close_of_begins hc b)]
    rw [← hskip, skimItem_skipBlanks, Nat.add_assoc]
    exact (hfirst (steps' + bound) (b :: outer)).trans (hskim bound outer)
  | element h ih => exact ih hrest
  | field hquote hname hcolon h ih =>
    have hlt := hquote.length_lt
    have hle := (local_passedString hname).length_le
    have hlt' := hcolon.length_lt
    obtain ⟨steps, hsteps, hskim⟩ := ih hrest
    refine ⟨steps, by omega, fun bound outer => ?_⟩
    rw [skimPart, skimItem, skimName_eq_some_iff.mpr ⟨_, _, hquote, hname, hcolon⟩]
    exact hskim bound outer
  | @close b _ _ h =>
    have hlt := h.length_lt
    refine ⟨1, by omega, fun bound outer => ?_⟩
    rw [Nat.add_comm, skimPart, skimFrom_further, h.skipBlanks_eq_cons (isBlank_close b)]
    exact if_pos rfl
  | @further b _ left left' rest hcomma hitem h ihitem ih =>
    have hlt := hcomma.length_lt
    obtain ⟨steps, hsteps, hfirst⟩ := ihitem h.ends
    obtain ⟨steps', hsteps', hskim⟩ := ih hrest
    refine ⟨steps + steps' + 1, by omega, fun bound outer => ?_⟩
    rw [Nat.add_right_comm, skimPart, skimFrom_further, hcomma.skipBlanks_eq_cons rfl]
    simp only [if_neg (comma_ne_close b), if_true]
    rw [Nat.add_assoc]
    exact (hfirst (steps' + bound) (b :: outer)).trans (hskim bound outer)

/-- A value is passed over if it is well formed. -/
theorem skim_sound {bound : Nat} (h : skim bound cs = some rest) : Passed .value cs rest := by
  obtain _ | ⟨hvalue, ⟨⟩⟩ := passedAll_of_skimFrom h
  exact hvalue

theorem Passed.skim (h : Passed .value cs rest) (hrest : Ends rest) {bound : Nat}
    (hbound : cs.length ≤ bound) : skim bound cs = some rest := by
  obtain ⟨steps, hsteps, hskim⟩ := h.skims hrest
  have hfuel : 2 * bound + 2 = steps + (2 * bound + 2 - steps) := by omega
  rw [Json.skim, hfuel]
  exact hskim _ []

end TileWorld.Json.Grammar
