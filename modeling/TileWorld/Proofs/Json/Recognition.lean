import TileWorld.Proofs.Json.Locality
import TileWorld.Proofs.Json.RoundTrip
import TileWorld.Proofs.Json.Scalars

/-! The reader of values finds what the grammar says, if its bound covers the text and the text
behind the value does not continue a number. -/

namespace TileWorld.Json.Grammar

variable {α : Type} {cs left rest : List Char}

/-! ## What may follow -/

theorem ends_nil : Ends [] := ⟨nofun, nofun, nofun⟩

theorem ends_cons {c : Char} (hc : Number.digit? c = none) (hpoint : c ≠ '.') (he : c ≠ 'e')
    (hE : c ≠ 'E') (rest : List Char) : Ends (c :: rest) where
  digit := fun _ heq => by cases heq; exact hc
  point := fun heq => hpoint (Option.some.inj heq)
  exponent := by
    rintro e (rfl | rfl) heq
    · exact he (Option.some.inj heq)
    · exact hE (Option.some.inj heq)

theorem Blanks.ends (h : Blanks cs rest) (hrest : Ends rest) : Ends cs := by
  cases h with
  | none => exact hrest
  | cons hc _ =>
    simp only [isBlank, Bool.or_eq_true, beq_iff_eq] at hc
    rcases hc with ((rfl | rfl) | rfl) | rfl <;>
      exact ends_cons (by decide) (by decide) (by decide) (by decide) _

theorem ends_of_delimited (h : Delimited rest) : Ends rest := by
  rcases h.eq_nil_or_cons with rfl | ⟨tail, rfl | rfl | rfl⟩
  · exact ends_nil
  all_goals exact ends_cons (by decide) (by decide) (by decide) (by decide) _

/-- The first character behind the blanks is determined, and so is what follows it. -/
theorem Blanks.unique {c d : Char} (h : Blanks cs (c :: left)) (h' : Blanks cs (d :: rest))
    (hc : isBlank c = false) (hd : isBlank d = false) : c = d ∧ left = rest :=
  List.cons.inj ((h.skipBlanks_eq_cons hc).symm.trans (h'.skipBlanks_eq_cons hd))

theorem Blanks.length_le (h : Blanks cs rest) : rest.length ≤ cs.length :=
  (local_blanks h).length_le

/-! ## Sequences -/

/-- The reader finds what the grammar says. -/
structure Recognizes (bound : Nat) (read : List Char → Option (α × List Char))
    (Item : List Char → α → List Char → Prop) : Prop where
  pieces : ∀ a, Local (Item · a ·)
  begins : ∀ {cs a rest}, Item cs a rest →
    ∃ c left, skipBlanks cs = c :: left ∧ Begins c ∧ Item (c :: left) a rest
  sound : ∀ {cs a rest}, read cs = some (a, rest) → Item cs a rest
  complete : ∀ {cs a rest}, Item cs a rest → Ends rest → cs.length ≤ bound →
    read cs = some (a, rest)

/-- What stands in front of text that ends a number can be read in one way only. -/
theorem Recognizes.unique {Item : List Char → α → List Char → Prop}
    {read : Nat → List Char → Option (α × List Char)}
    (hread : ∀ bound, Recognizes bound (read bound) Item) {a a' : α} (h : Item cs a left)
    (h' : Item cs a' rest) (hleft : Ends left) (hrest : Ends rest) : a = a' ∧ left = rest := by
  have heq := ((hread cs.length).complete h hleft (Nat.le_refl _)).symm.trans
    ((hread cs.length).complete h' hrest (Nat.le_refl _))
  exact Prod.mk.inj (Option.some.inj heq)

section Sequences

variable {bound : Nat} {read : List Char → Option (α × List Char)}
  {Item : List Char → α → List Char → Prop} {close : Char} {as : List α}
  (hclose : close = ']' ∨ close = '\x7d') (hread : Recognizes bound read Item)

include hclose in
theorem Further.ends (h : Further close Item cs as rest) : Ends cs := by
  cases h with
  | close h => exact h.ends (ends_of_delimited (delimited_cons.mpr (.inr hclose)))
  | item hcomma _ _ => exact hcomma.ends (ends_of_delimited (delimited_cons.mpr (.inl rfl)))

include hread

theorem furtherItems_sound {fuel : Nat} {done : List α}
    (h : furtherItems close read fuel done cs = some (as, rest)) :
    ∃ more, as = done.reverse ++ more ∧ Further close Item cs more rest := by
  induction fuel generalizing done cs with
  | zero => cases h
  | succ fuel ih =>
    have hblanks := blanks_skipBlanks cs
    rw [furtherItems] at h
    split at h
    · cases h
    · next c left hskip =>
      rw [hskip] at hblanks
      split at h
      · next hc =>
        cases h
        exact ⟨[], by simp, .close (hc ▸ hblanks)⟩
      split at h
      · next hc =>
        cases hitem : read left with
        | none => simp [hitem] at h
        | some p =>
          rw [hitem] at h
          obtain ⟨more, rfl, hmore⟩ := ih h
          exact ⟨p.1 :: more, by simp, .item (hc ▸ hblanks) (hread.sound hitem) hmore⟩
      · cases h

theorem sequence_sound (h : sequence close read bound cs = some (as, rest)) :
    Sequence close Item cs as rest := by
  have hblanks := blanks_skipBlanks cs
  rw [sequence] at h
  split at h
  · cases h
  · next c left hskip =>
    rw [hskip] at hblanks
    split at h
    · next hc =>
      cases h
      exact .empty (hc ▸ hblanks)
    · cases hitem : read (c :: left) with
      | none => simp [hitem] at h
      | some p =>
        rw [hitem] at h
        obtain ⟨more, rfl, hmore⟩ := furtherItems_sound hread h
        exact .items hblanks (hread.sound hitem) hmore

include hclose

/-- A comma is consumed in every round, so that the length of the text is fuel enough. -/
theorem Further.furtherItems (h : Further close Item cs as rest) {fuel : Nat} (done : List α)
    (hfuel : cs.length ≤ fuel) (hbound : cs.length ≤ bound) :
    furtherItems close read fuel done cs = some (done.reverse ++ as, rest) := by
  have hblank : isBlank close = false := by rcases hclose with rfl | rfl <;> rfl
  have hne : ',' ≠ close := by rcases hclose with rfl | rfl <;> decide
  induction h generalizing fuel done with
  | close h =>
    have hle := h.length_le
    rw [List.length_cons] at hle
    obtain ⟨fuel, rfl⟩ := Nat.exists_eq_add_one.mpr (show 0 < fuel by omega)
    rw [Json.furtherItems, h.skipBlanks_eq_cons hblank]
    simp
  | @item cs left left' rest a as hcomma ha h ih =>
    have hle := hcomma.length_le
    have hle' := (hread.pieces a ha).length_le
    rw [List.length_cons] at hle
    obtain ⟨fuel, rfl⟩ := Nat.exists_eq_add_one.mpr (show 0 < fuel by omega)
    rw [Json.furtherItems, hcomma.skipBlanks_eq_cons rfl]
    simp only [if_neg hne, if_true, hread.complete ha (h.ends hclose) (by omega)]
    rw [ih (a :: done) (by omega) (by omega)]
    simp

theorem Sequence.sequence (h : Sequence close Item cs as rest) (hbound : cs.length ≤ bound) :
    sequence close read bound cs = some (as, rest) := by
  have hblank : isBlank close = false := by rcases hclose with rfl | rfl <;> rfl
  cases h with
  | empty h =>
    rw [Json.sequence, h.skipBlanks_eq_cons hblank]
    simp
  | items hblanks ha h =>
    obtain ⟨c, tail, hskip, hc, ha'⟩ := hread.begins ha
    have hne : c ≠ close := by
      rcases hclose with rfl | rfl
      · exact hc.2.1
      · exact hc.2.2
    have hle := hblanks.length_le
    have hle' := (hread.pieces _ ha).length_le
    have htail := (blanks_skipBlanks cs).length_le
    rw [hblanks.skipBlanks_eq, hskip] at htail
    rw [Json.sequence, hblanks.skipBlanks_eq, hskip]
    simp only [if_neg hne, hread.complete ha' (h.ends hclose) (by omega)]
    rw [h.furtherItems hclose hread _ (by omega) (by omega)]
    simp

end Sequences

/-! ## Names -/

theorem fieldName_eq_some_iff {name : String} :
    fieldName cs = some (name, rest) ↔ Name cs name rest := by
  constructor
  · intro h
    unfold fieldName at h
    split at h
    · next left hskip =>
      obtain ⟨⟨s, left'⟩, hbody, h⟩ := Option.bind_eq_some_iff.mp h
      have hquote := blanks_skipBlanks cs
      rw [hskip] at hquote
      have hcolon := blanks_skipBlanks left'
      simp only at h
      split at h
      · next hskip' =>
        rw [hskip'] at hcolon
        cases h
        exact .mk hquote (stringBody_eq_some_iff.mp hbody) hcolon
      · cases h
    · cases h
  · rintro ⟨hquote, hname, hcolon⟩
    rw [fieldName, hquote.skipBlanks_eq_cons rfl]
    simp only [stringBody_eq_some_iff.mpr hname, Option.bind_eq_bind, Option.bind_some,
      hcolon.skipBlanks_eq_cons rfl]
    rfl

theorem Name.unique {name name' : String} (h : Name cs name left) (h' : Name cs name' rest) :
    name = name' ∧ left = rest := by
  have heq := (fieldName_eq_some_iff.mpr h).symm.trans (fieldName_eq_some_iff.mpr h')
  exact Prod.mk.inj (Option.some.inj heq)

theorem Name.of_blanks {name : String} (h : Name left name rest) (hblanks : Blanks cs left) :
    Name cs name rest := by
  obtain ⟨hquote, hname, hcolon⟩ := h
  exact .mk (hblanks.trans hquote) hname hcolon

theorem Name.begins {name : String} (h : Name cs name rest) :
    ∃ left, skipBlanks cs = '"' :: left ∧ Name ('"' :: left) name rest := by
  obtain ⟨hquote, hname, hcolon⟩ := h
  exact ⟨_, hquote.skipBlanks_eq_cons rfl, .mk (.none _) hname hcolon⟩

theorem spells_escape (cs rest : List Char) : Spells (escape cs rest) cs rest :=
  stringBody_eq_some_iff.mp (stringBody_escape cs rest)

theorem name_stringOnto (name : String) (rest : List Char) :
    Name (stringOnto name (':' :: rest)) name rest := by
  have hname := Name.mk (.none _) (spells_escape name.toList (':' :: rest)) (.none _)
  rwa [String.ofList_toList] at hname

theorem recognizes_namedItem {bound : Nat} {read : List Char → Option (α × List Char)}
    {Item : List Char → α → List Char → Prop} (hread : Recognizes bound read Item) :
    Recognizes bound (namedItem read) (Field Item) where
  pieces := local_field hread.pieces
  begins := by
    rintro cs _ rest ⟨hname, ha⟩
    obtain ⟨left, hskip, hname⟩ := hname.begins
    exact ⟨'"', left, hskip, by decide, .mk hname ha⟩
  sound := by
    intro cs field rest h
    obtain ⟨⟨name, left⟩, hname, h⟩ := Option.bind_eq_some_iff.mp h
    obtain ⟨⟨a, rest⟩, ha, h⟩ := Option.bind_eq_some_iff.mp h
    cases h
    exact .mk (fieldName_eq_some_iff.mp hname) (hread.sound ha)
  complete := by
    rintro cs _ rest ⟨hname, ha⟩ hrest hbound
    have hle := (local_name _ hname).length_le
    simp [namedItem, fieldName_eq_some_iff.mpr hname, hread.complete ha hrest (by omega)]

/-! ## Values -/

theorem Scalar.begins {j : Json} (h : Scalar cs j rest) :
    ∃ c left, cs = c :: left ∧ Begins c ∧ c ≠ '[' ∧ c ≠ '\x7b' := by
  cases h with
  | null => exact ⟨'n', _, rfl, by decide, by decide, by decide⟩
  | true => exact ⟨'t', _, rfl, by decide, by decide, by decide⟩
  | false => exact ⟨'f', _, rfl, by decide, by decide, by decide⟩
  | string h => exact ⟨'"', _, rfl, by decide, by decide, by decide⟩
  | number h hr =>
    obtain ⟨c, left, rfl, hc⟩ := h.begins
    exact ⟨c, left, rfl, hc.begins, hc.ne (by decide), hc.ne (by decide)⟩

theorem Level.begins {Inner : List Char → Json → List Char → Prop} {j : Json}
    (h : Level Inner cs j rest) : ∃ c left, cs = c :: left ∧ Begins c := by
  cases h with
  | scalar h =>
    obtain ⟨c, left, rfl, hc, -⟩ := h.begins
    exact ⟨c, left, rfl, hc⟩
  | array h => exact ⟨'[', _, rfl, by decide⟩
  | object h => exact ⟨'\x7b', _, rfl, by decide⟩

theorem skipBlanks_eq_of_begins (hblanks : Blanks cs left)
    (h : ∃ c tail, left = c :: tail ∧ Begins c) : skipBlanks cs = left := by
  obtain ⟨c, tail, rfl, hc⟩ := h
  exact hblanks.skipBlanks_eq_cons hc.1

theorem Value.begins {depth : Nat} {j : Json} (h : Value depth cs j rest) :
    ∃ c left, skipBlanks cs = c :: left ∧ Begins c ∧ Value depth (c :: left) j rest := by
  cases depth with
  | zero =>
    obtain ⟨left, hblanks, h⟩ := h
    obtain ⟨c, left, rfl, hc, -⟩ := h.begins
    exact ⟨c, left, hblanks.skipBlanks_eq_cons hc.1, hc, _, .none _, h⟩
  | succ depth =>
    obtain ⟨left, hblanks, h⟩ := h
    obtain ⟨c, left, rfl, hc⟩ := h.begins
    exact ⟨c, left, hblanks.skipBlanks_eq_cons hc.1, hc, _, .none _, h⟩

variable {bound depth : Nat} {j : Json}

theorem value_sound_zero (h : value bound 0 cs = some (j, rest)) : Value 0 cs j rest := by
  rw [value] at h
  exact ⟨_, blanks_skipBlanks cs, scalar_sound h⟩

theorem value_sound_succ (hread : Recognizes bound (value bound depth) (Value depth))
    (h : value bound (depth + 1) cs = some (j, rest)) : Value (depth + 1) cs j rest := by
  refine ⟨_, blanks_skipBlanks cs, ?_⟩
  rw [value] at h
  split at h
  · next hskip =>
    obtain ⟨⟨items, left⟩, hseq, heq⟩ := Option.map_eq_some_iff.mp h
    cases heq
    rw [hskip]
    exact .array (sequence_sound hread hseq)
  · next hskip =>
    obtain ⟨⟨fields, left⟩, hseq, heq⟩ := Option.map_eq_some_iff.mp h
    cases heq
    rw [hskip]
    exact .object (sequence_sound (recognizes_namedItem hread) hseq)
  · exact .scalar (scalar_sound h)

theorem Level.value (hread : Recognizes bound (value bound depth) (Value depth))
    (h : Level (Value depth) left j rest) (hblanks : Blanks cs left) (hrest : Ends rest)
    (hbound : left.length ≤ bound) : value bound (depth + 1) cs = some (j, rest) := by
  rw [Json.value, skipBlanks_eq_of_begins hblanks h.begins]
  cases h with
  | scalar h =>
    obtain ⟨c, tail, rfl, -, hsquare, hbrace⟩ := h.begins
    split
    · next heq => exact absurd (List.cons.inj heq).1 hsquare
    · next heq => exact absurd (List.cons.inj heq).1 hbrace
    · exact h.scalar hrest
  | array h =>
    rw [List.length_cons] at hbound
    simp only [h.sequence (.inl rfl) hread (by omega), Option.map_some]
  | object h =>
    rw [List.length_cons] at hbound
    simp only [h.sequence (.inr rfl) (recognizes_namedItem hread) (by omega), Option.map_some]

/-- The reader of values finds what the grammar says. -/
theorem recognizes_value (bound depth : Nat) :
    Recognizes bound (value bound depth) (Value depth) := by
  induction depth with
  | zero =>
    refine ⟨local_value 0, Value.begins, value_sound_zero, ?_⟩
    rintro cs j rest ⟨left, hblanks, h⟩ hrest -
    obtain ⟨c, left, rfl, hc, -⟩ := h.begins
    rw [value, hblanks.skipBlanks_eq_cons hc.1]
    exact h.scalar hrest
  | succ depth ih =>
    refine ⟨local_value (depth + 1), Value.begins, value_sound_succ ih, ?_⟩
    rintro cs j rest ⟨left, hblanks, h⟩ hrest hbound
    exact h.value ih hblanks hrest (Nat.le_trans hblanks.length_le hbound)

end TileWorld.Json.Grammar
