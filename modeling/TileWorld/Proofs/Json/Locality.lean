import TileWorld.Proofs.Json.Grammar

/-! What the grammar finds at the front of a text, it finds in front of any other rest. -/

namespace TileWorld.Json.Grammar

/-- What is found ends at `rest`, and would be found in front of any text. -/
def Splits (R : List Char → List Char → Prop) (cs rest : List Char) : Prop :=
  ∃ piece, cs = piece ++ rest ∧ ∀ rest', R (piece ++ rest') rest'

/-- The relation finds pieces of texts. -/
def Local (R : List Char → List Char → Prop) : Prop :=
  ∀ ⦃cs rest⦄, R cs rest → Splits R cs rest

def Both (R S : List Char → List Char → Prop) (cs rest : List Char) : Prop :=
  ∃ left, R cs left ∧ S left rest

section Splits

variable {R S : List Char → List Char → Prop} {cs left rest : List Char}

theorem Splits.length_le (h : Splits R cs rest) : rest.length ≤ cs.length := by
  obtain ⟨piece, rfl, -⟩ := h
  simp

theorem Splits.length_lt (h : Splits R cs rest) (hnil : ¬ R [] []) : rest.length < cs.length := by
  obtain ⟨piece, rfl, h⟩ := h
  cases piece with
  | nil => exact absurd (h []) hnil
  | cons c piece =>
    simp only [List.cons_append, List.length_cons, List.length_append]
    omega

theorem Splits.refl (h : ∀ rest, R rest rest) : Splits R rest rest := ⟨[], rfl, h⟩

theorem Splits.mono (h : Splits R cs rest) (hmono : ∀ {cs rest}, R cs rest → S cs rest) :
    Splits S cs rest := by
  obtain ⟨piece, hpiece, h⟩ := h
  exact ⟨piece, hpiece, fun rest' => hmono (h rest')⟩

theorem Splits.prepend (front : List Char) (h : Splits R cs rest)
    (hfront : ∀ {cs rest}, R cs rest → S (front ++ cs) rest) : Splits S (front ++ cs) rest := by
  obtain ⟨piece, rfl, h⟩ := h
  refine ⟨front ++ piece, by simp, fun rest' => ?_⟩
  rw [List.append_assoc]
  exact hfront (h rest')

theorem Splits.seq (h : Splits R cs left) (h' : Splits S left rest) :
    Splits (Both R S) cs rest := by
  obtain ⟨first, rfl, h⟩ := h
  obtain ⟨second, rfl, h'⟩ := h'
  refine ⟨first ++ second, by simp, fun rest' => ?_⟩
  rw [List.append_assoc]
  exact ⟨second ++ rest', h _, h' rest'⟩

theorem Splits.before {c : Char} (h : Splits R cs (c :: rest)) :
    Splits (fun cs rest => R cs (c :: rest)) cs rest := by
  obtain ⟨piece, rfl, h⟩ := h
  refine ⟨piece ++ [c], by simp, fun rest' => ?_⟩
  rw [List.append_assoc]
  exact h (c :: rest')

end Splits

/-! ## Strings -/

theorem local_blanks : Local Blanks := by
  intro cs rest h
  induction h with
  | none rest => exact .refl .none
  | cons hc _ ih => exact ih.prepend [_] (.cons hc)

theorem local_codeUnit (u : Nat) : Local (CodeUnit · u ·) := by
  rintro _ rest ⟨_, ha, hb, hc, hd⟩
  exact ⟨[_, _, _, _], rfl, fun rest' => .mk rest' ha hb hc hd⟩

theorem local_letter (c : Char) : Local (Letter · c ·) := by
  intro cs rest h
  cases h with
  | plain _ hquote hslash hc => exact ⟨[_], rfl, fun rest' => .plain rest' hquote hslash hc⟩
  | escape _ hc => exact ⟨['\\', _], rfl, fun rest' => .escape rest' hc⟩
  | unit hu hlead htrail =>
    exact (local_codeUnit _ hu).prepend ['\\', 'u'] fun hu => .unit hu hlead htrail
  | pair hu hlead hv htrail =>
    exact ((local_codeUnit _ hu).before.before.seq (local_codeUnit _ hv)).prepend ['\\', 'u']
      fun ⟨_, hu, hv⟩ => .pair hu hlead hv htrail

theorem local_spells (s : List Char) : Local (Spells · s ·) := by
  intro cs rest h
  induction h with
  | close rest => exact ⟨['"'], rfl, .close⟩
  | letter hc _ ih => exact ((local_letter _ hc).seq ih).mono fun ⟨_, hc, h⟩ => .letter hc h

theorem local_passedLetter : Local PassedLetter := by
  intro cs rest h
  cases h with
  | plain _ hquote hslash hc => exact ⟨[_], rfl, fun rest' => .plain rest' hquote hslash hc⟩
  | escape _ hc => exact ⟨['\\', _], rfl, fun rest' => .escape rest' hc⟩
  | unit hu => exact (local_codeUnit _ hu).prepend ['\\', 'u'] .unit

theorem local_passedString : Local PassedString := by
  intro cs rest h
  induction h with
  | close rest => exact ⟨['"'], rfl, .close⟩
  | letter hc _ ih => exact ((local_passedLetter hc).seq ih).mono fun ⟨_, hc, h⟩ => .letter hc h

/-! ## Numbers -/

theorem local_digits (ds : List Nat) : Local (Digits · ds ·) := by
  intro cs rest h
  induction h with
  | last rest hc => exact ⟨[_], rfl, fun rest' => .last rest' hc⟩
  | cons hc _ ih => exact ih.prepend [_] (.cons hc)

theorem local_sign (negative : Bool) : Local (Sign · negative ·) := by
  intro cs rest h
  cases h with
  | plus => exact .refl .plus
  | minus => exact ⟨['-'], rfl, .minus⟩

theorem local_whole (ds : List Nat) : Local (Whole · ds ·) := by
  intro cs rest h
  cases h with
  | zero => exact ⟨['0'], rfl, .zero⟩
  | digits h hzero => exact (local_digits ds h).mono fun h => .digits h hzero

theorem local_fraction (fraction : Option (List Nat)) : Local (Fraction · fraction ·) := by
  intro cs rest h
  cases h with
  | absent => exact .refl .absent
  | present h => exact (local_digits _ h).prepend ['.'] .present

theorem local_exponent (exponent : Option Int) : Local (Exponent · exponent ·) := by
  intro cs rest h
  cases h with
  | absent => exact .refl .absent
  | bare he h => exact (local_digits _ h).prepend [_] (.bare he)
  | plus he h => exact (local_digits _ h).prepend [_, '+'] (.plus he)
  | minus he h => exact (local_digits _ h).prepend [_, '-'] (.minus he)

theorem local_numeral (l : Number.Literal) : Local (Numeral · l ·) := by
  rintro cs rest ⟨hsign, hwhole, hfraction, hexponent⟩
  have hpieces := (local_sign _ hsign).seq ((local_whole _ hwhole).seq
    ((local_fraction _ hfraction).seq (local_exponent _ hexponent)))
  exact hpieces.mono fun ⟨_, hsign, _, hwhole, _, hfraction, hexponent⟩ =>
    .mk hsign hwhole hfraction hexponent

/-! ## Sequences -/

section Sequences

variable {α : Type} {close : Char} {Item : List Char → α → List Char → Prop}
  (hitem : ∀ a, Local (Item · a ·))

theorem local_name (name : String) : Local (Name · name ·) := by
  rintro cs rest ⟨hquote, hname, hcolon⟩
  have hpieces := (local_blanks hquote).before.seq
    ((local_spells _ hname).seq (local_blanks hcolon).before)
  exact hpieces.mono fun ⟨_, hquote, _, hname, hcolon⟩ => .mk hquote hname hcolon

include hitem

theorem local_further (as : List α) : Local (Further close Item · as ·) := by
  intro cs rest h
  induction h with
  | close h => exact (local_blanks h).before.mono .close
  | item hcomma ha _ ih =>
    exact ((local_blanks hcomma).before.seq ((hitem _ ha).seq ih)).mono
      fun ⟨_, hcomma, _, ha, h⟩ => .item hcomma ha h

theorem local_sequence (as : List α) : Local (Sequence close Item · as ·) := by
  intro cs rest h
  cases h with
  | empty h => exact (local_blanks h).before.mono .empty
  | items hblanks ha h =>
    exact ((local_blanks hblanks).seq ((hitem _ ha).seq (local_further hitem _ h))).mono
      fun ⟨_, hblanks, _, ha, h⟩ => .items hblanks ha h

theorem local_field (field : String × α) : Local (Field Item · field ·) := by
  rintro cs rest ⟨hname, ha⟩
  exact ((local_name _ hname).seq (hitem _ ha)).mono fun ⟨_, hname, ha⟩ => .mk hname ha

end Sequences

/-! ## Values -/

theorem local_scalar (j : Json) : Local (Scalar · j ·) := by
  intro cs rest h
  cases h with
  | null => exact ⟨['n', 'u', 'l', 'l'], rfl, .null⟩
  | true => exact ⟨['t', 'r', 'u', 'e'], rfl, .true⟩
  | false => exact ⟨['f', 'a', 'l', 's', 'e'], rfl, .false⟩
  | string h => exact (local_spells _ h).prepend ['"'] .string
  | number h hr => exact (local_numeral _ h).mono fun h => .number h hr

theorem local_level {Inner : List Char → Json → List Char → Prop}
    (hinner : ∀ j, Local (Inner · j ·)) (j : Json) : Local (Level Inner · j ·) := by
  intro cs rest h
  cases h with
  | scalar h => exact (local_scalar j h).mono .scalar
  | array h => exact (local_sequence hinner _ h).prepend ['['] .array
  | object h => exact (local_sequence (local_field hinner) _ h).prepend ['\x7b'] .object

theorem local_value (depth : Nat) (j : Json) : Local (Value depth · j ·) := by
  induction depth generalizing j with
  | zero =>
    rintro cs rest ⟨left, hblanks, h⟩
    exact (local_blanks hblanks).seq (local_scalar j h)
  | succ depth ih =>
    rintro cs rest ⟨left, hblanks, h⟩
    exact (local_blanks hblanks).seq (local_level ih j h)

/-! ## Values that are passed over -/

theorem local_passedScalar : Local PassedScalar := by
  intro cs rest h
  cases h with
  | null => exact ⟨['n', 'u', 'l', 'l'], rfl, .null⟩
  | true => exact ⟨['t', 'r', 'u', 'e'], rfl, .true⟩
  | false => exact ⟨['f', 'a', 'l', 's', 'e'], rfl, .false⟩
  | string h => exact (local_passedString h).prepend ['"'] .string
  | number h => exact (local_numeral _ h).mono .number

theorem local_passed (part : Part) : Local (Passed part) := by
  intro cs rest h
  induction h with
  | scalar hblanks h =>
    exact ((local_blanks hblanks).seq (local_passedScalar h)).mono
      fun ⟨_, hblanks, h⟩ => .scalar hblanks h
  | square hblanks _ ih =>
    exact ((local_blanks hblanks).before.seq ih).mono fun ⟨_, hblanks, h⟩ => .square hblanks h
  | brace hblanks _ ih =>
    exact ((local_blanks hblanks).before.seq ih).mono fun ⟨_, hblanks, h⟩ => .brace hblanks h
  | empty h => exact (local_blanks h).before.mono .empty
  | items hblanks _ _ ihitem ih =>
    exact ((local_blanks hblanks).seq (ihitem.seq ih)).mono
      fun ⟨_, hblanks, _, hitem, h⟩ => .items hblanks hitem h
  | element _ ih => exact ih.mono .element
  | field hquote hname hcolon _ ih =>
    exact ((local_blanks hquote).before.seq ((local_passedString hname).seq
      ((local_blanks hcolon).before.seq ih))).mono
      fun ⟨_, hquote, _, hname, _, hcolon, h⟩ => .field hquote hname hcolon h
  | close h => exact (local_blanks h).before.mono .close
  | further hcomma _ _ ihitem ih =>
    exact ((local_blanks hcomma).before.seq (ihitem.seq ih)).mono
      fun ⟨_, hcomma, _, hitem, h⟩ => .further hcomma hitem h

end TileWorld.Json.Grammar
