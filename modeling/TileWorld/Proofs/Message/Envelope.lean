import TileWorld.Message.Envelope
import TileWorld.Proofs.Json.Passing

/-! The grammar of envelopes, stated without the reader, and the agreement of the two. -/

namespace TileWorld.Envelope

open Json Json.Grammar

variable {cs left rest : List Char}

/-- The names that a body goes by. -/
def BodyName (name : String) : Prop := name = "data" ∨ name = "payload"

inductive Member : List Char → Part → List Char → Prop where
  | type {cs left left' rest name : List Char} (hname : Name cs "type" left)
      (hquote : Blanks left ('"' :: left')) (h : Spells left' name rest) :
      Member cs (.type (.ofList name)) rest
  | body {cs left rest : List Char} {name : String} {j : Json} (hname : Name cs name left)
      (hbody : BodyName name) (h : Value (maxDepth - 1) left j rest) : Member cs (.body j) rest
  | other {cs left rest : List Char} {name : String} (hname : Name cs name left)
      (htype : name ≠ "type") (hbody : ¬ BodyName name) (h : Passed .value left rest) :
      Member cs .other rest

/-- The text is an envelope and nothing else. A body that is left out is null. -/
inductive IsEnvelope : List Char → Envelope → Prop where
  | object {cs left rest : List Char} {parts : List Part} {type : String} {body : Json}
      (hopen : Blanks cs ('\x7b' :: left)) (hparts : Sequence '\x7d' Member left parts rest)
      (htype : parts.filterMap Part.type? = [type])
      (hbody : parts.filterMap Part.body? = [body] ∨
        parts.filterMap Part.body? = [] ∧ body = .null)
      (hend : Blanks rest []) : IsEnvelope cs ⟨type, body⟩
  | array {cs left rest : List Char} {type : String} {body : Json} (hopen : Blanks cs ('[' :: left))
      (hitems : Sequence ']' (Value (maxDepth - 1)) left [.string type, body] rest)
      (hend : Blanks rest []) : IsEnvelope cs ⟨type, body⟩
  | bare {cs left rest : List Char} {type : String} (hopen : Blanks cs ('[' :: left))
      (hitems : Sequence ']' (Value (maxDepth - 1)) left [.string type] rest)
      (hend : Blanks rest []) : IsEnvelope cs ⟨type, .null⟩

/-! ## Fields of an envelope -/

theorem isBodyName_iff {name : String} : isBodyName name = true ↔ BodyName name := by
  simp [isBodyName, BodyName]

theorem BodyName.ne_type {name : String} (h : BodyName name) : name ≠ "type" := by
  rcases h with rfl | rfl <;> decide

theorem Member.exists_name {part : Part} (h : Member cs part rest) :
    ∃ name left, Name cs name left := by
  cases h with
  | type hname => exact ⟨_, _, hname⟩
  | body hname => exact ⟨_, _, hname⟩
  | other hname => exact ⟨_, _, hname⟩

theorem Member.of_name {part : Part} {cs' : List Char} (h : Member cs part rest)
    (hname : ∀ {name left}, Name cs name left → Name cs' name left) : Member cs' part rest := by
  cases h with
  | type h hquote hspells => exact .type (hname h) hquote hspells
  | body h hbody hvalue => exact .body (hname h) hbody hvalue
  | other h htype hbody hpassed => exact .other (hname h) htype hbody hpassed

theorem local_member (part : Part) : Local (Member · part ·) := by
  intro cs rest h
  cases h with
  | type hname hquote h =>
    exact ((local_name _ hname).seq ((local_blanks hquote).before.seq (local_spells _ h))).mono
      fun ⟨_, hname, _, hquote, h⟩ => .type hname hquote h
  | body hname hbody h =>
    exact ((local_name _ hname).seq (local_value _ _ h)).mono
      fun ⟨_, hname, h⟩ => .body hname hbody h
  | other hname htype hbody h =>
    exact ((local_name _ hname).seq (local_passed _ h)).mono
      fun ⟨_, hname, h⟩ => .other hname htype hbody h

theorem stringValue_eq_some_iff {s : String} :
    stringValue cs = some (s, rest) ↔
      ∃ left name, Blanks cs ('"' :: left) ∧ Spells left name rest ∧ s = .ofList name := by
  constructor
  · intro h
    unfold stringValue at h
    have hquote := blanks_skipBlanks cs
    split at h
    · next left hskip =>
      obtain ⟨⟨name, rest⟩, hbody, heq⟩ := Option.map_eq_some_iff.mp h
      cases heq
      rw [hskip] at hquote
      exact ⟨left, name, hquote, stringBody_eq_some_iff.mp hbody, rfl⟩
    · cases h
  · rintro ⟨left, name, hquote, hname, rfl⟩
    rw [stringValue, hquote.skipBlanks_eq_cons rfl]
    simp only [stringBody_eq_some_iff.mpr hname, Option.map_some]

theorem member_of_part {bound : Nat} {p : Part} (h : part bound cs = some (p, rest)) :
    Member cs p rest := by
  obtain ⟨⟨name, left⟩, hname, h⟩ := Option.bind_eq_some_iff.mp h
  have hname := fieldName_eq_some_iff.mp hname
  simp only at h
  split at h
  · next htype =>
    obtain ⟨⟨s, _⟩, hstring, h⟩ := Option.bind_eq_some_iff.mp h
    cases h
    obtain ⟨_, _, hquote, hspells, rfl⟩ := stringValue_eq_some_iff.mp hstring
    exact .type (htype ▸ hname) hquote hspells
  split at h
  · next hbody =>
    obtain ⟨⟨j, _⟩, hvalue, h⟩ := Option.bind_eq_some_iff.mp h
    cases h
    exact .body hname (isBodyName_iff.mp hbody) ((recognizes_value bound _).sound hvalue)
  · next htype hbody =>
    obtain ⟨_, hskim, h⟩ := Option.bind_eq_some_iff.mp h
    cases h
    exact .other hname htype (mt isBodyName_iff.mpr hbody) (skim_sound hskim)

theorem Member.part {p : Part} (h : Member cs p rest) (hrest : Ends rest) {bound : Nat}
    (hbound : cs.length ≤ bound) : part bound cs = some (p, rest) := by
  cases h with
  | type hname hquote h =>
    simp [Envelope.part, fieldName_eq_some_iff.mpr hname,
      stringValue_eq_some_iff.mpr ⟨_, _, hquote, h, rfl⟩]
  | body hname hbody h =>
    have hle := (local_name _ hname).length_le
    have hvalue := (recognizes_value bound _).complete h hrest (by omega)
    simp [Envelope.part, fieldName_eq_some_iff.mpr hname, hbody.ne_type, isBodyName_iff.mpr hbody,
      bodyValue, hvalue]
  | @other left _ name hname htype hbody h =>
    have hle := (local_name _ hname).length_le
    have hskim : skim bound left = some rest := h.skim hrest (by omega)
    simp [Envelope.part, fieldName_eq_some_iff.mpr hname, htype, mt isBodyName_iff.mp hbody, hskim]

theorem recognizes_part (bound : Nat) : Recognizes bound (part bound) Member where
  pieces := local_member
  begins := by
    intro cs p rest h
    obtain ⟨name, left, hname⟩ := h.exists_name
    obtain ⟨tail, hskip, -⟩ := hname.begins
    refine ⟨'"', tail, hskip, by decide, h.of_name fun hname => ?_⟩
    obtain ⟨tail', hskip', hname⟩ := hname.begins
    cases hskip.symm.trans hskip'
    exact hname
  sound := member_of_part
  complete := fun h hrest hbound => h.part hrest hbound

/-- The blanks in front of the first field belong to its name. -/
theorem exists_first {parts : List Part} (h : Sequence '\x7d' Member cs parts rest)
    (hne : parts ≠ []) : ∃ first more left, parts = first :: more ∧ Member cs first left ∧
      Further '\x7d' Member left more rest := by
  cases h with
  | empty => exact absurd rfl hne
  | items hblanks hfirst hfurther =>
    exact ⟨_, _, _, rfl, hfirst.of_name fun hname => hname.of_blanks hblanks, hfurther⟩

/-! ## Whole envelopes -/

theorem blanks_nil_iff : Blanks rest [] ↔ (skipBlanks rest).isEmpty = true := by
  rw [List.isEmpty_iff]
  constructor
  · exact fun h => h.skipBlanks_eq
  · intro h
    simpa only [h] using blanks_skipBlanks rest

theorem atEnd_eq_some_iff {α : Type} {r : Option (α × List Char)} {a : α} :
    atEnd r = some a ↔ ∃ rest, r = some (a, rest) ∧ Blanks rest [] := by
  cases r with
  | none => simp [atEnd]
  | some p =>
    obtain ⟨a', rest⟩ := p
    simp only [atEnd, Option.some.injEq, Prod.mk.injEq]
    constructor
    · intro h
      split at h
      · next hend =>
        cases h
        exact ⟨rest, ⟨rfl, rfl⟩, blanks_nil_iff.mpr hend⟩
      · cases h
    · rintro ⟨_, ⟨rfl, rfl⟩, hend⟩
      rw [if_pos (blanks_nil_iff.mp hend)]

theorem ofParts?_eq_some_iff {parts : List Part} {type : String} {body : Json} :
    ofParts? parts = some ⟨type, body⟩ ↔ parts.filterMap Part.type? = [type] ∧
      (parts.filterMap Part.body? = [body] ∨
        parts.filterMap Part.body? = [] ∧ body = .null) := by
  rw [ofParts?]
  split
  · next htypes hbodies => simp [htypes, hbodies, eq_comm]
  · next htypes hbodies => simp [htypes, hbodies]
  · next hnone hsome =>
    simp only [reduceCtorEq, false_iff, not_and, not_or]
    intro htypes
    exact ⟨fun hbodies => hsome type body htypes hbodies,
      fun hbodies _ => hnone type htypes hbodies⟩

theorem ofItems?_eq_some_iff {items : List Json} {type : String} {body : Json} :
    ofItems? items = some ⟨type, body⟩ ↔
      items = [.string type, body] ∨ items = [.string type] ∧ body = .null := by
  unfold ofItems?
  split
  · simp [eq_comm]
  · simp
  · next hbare hpair =>
    simp only [reduceCtorEq, false_iff, not_or, not_and]
    exact ⟨fun h => hpair type body h, fun h _ => hbare type h⟩

theorem isEnvelope_of_read {bound : Nat} {e : Envelope} (h : read bound cs = some (e, rest))
    (hend : Blanks rest []) : IsEnvelope cs e := by
  have hopen := blanks_skipBlanks cs
  obtain ⟨type, body⟩ := e
  unfold read at h
  split at h
  · next left hskip =>
    rw [hskip] at hopen
    obtain ⟨⟨parts, _⟩, hparts, h⟩ := Option.bind_eq_some_iff.mp h
    obtain ⟨_, hofParts, h⟩ := Option.bind_eq_some_iff.mp h
    cases h
    obtain ⟨htype, hbody⟩ := ofParts?_eq_some_iff.mp hofParts
    exact .object hopen (sequence_sound (recognizes_part bound) hparts) htype hbody hend
  · next left hskip =>
    rw [hskip] at hopen
    obtain ⟨⟨items, _⟩, hitems, h⟩ := Option.bind_eq_some_iff.mp h
    obtain ⟨_, hofItems, h⟩ := Option.bind_eq_some_iff.mp h
    cases h
    have hitems := sequence_sound (recognizes_value bound _) hitems
    rcases ofItems?_eq_some_iff.mp hofItems with rfl | ⟨rfl, rfl⟩
    · exact .array hopen hitems hend
    · exact .bare hopen hitems hend
  · cases h

theorem IsEnvelope.read {e : Envelope} (h : IsEnvelope cs e) {bound : Nat}
    (hbound : cs.length ≤ bound) : ∃ rest, read bound cs = some (e, rest) ∧ Blanks rest [] := by
  cases h with
  | @object left rest parts type body hopen hparts htype hbody hend =>
    have hle := hopen.length_lt
    refine ⟨rest, ?_, hend⟩
    rw [Envelope.read, hopen.skipBlanks_eq_cons rfl]
    simp [hparts.sequence (.inr rfl) (recognizes_part bound) (by omega),
      ofParts?_eq_some_iff.mpr ⟨htype, hbody⟩]
  | @array left rest type body hopen hitems hend =>
    have hle := hopen.length_lt
    have hsequence : sequence ']' (bodyValue bound) bound left = _ :=
      hitems.sequence (.inl rfl) (recognizes_value bound _) (by omega)
    refine ⟨rest, ?_, hend⟩
    rw [Envelope.read, hopen.skipBlanks_eq_cons rfl]
    simp [hsequence, ofItems?]
  | @bare left rest type hopen hitems hend =>
    have hle := hopen.length_lt
    have hsequence : sequence ']' (bodyValue bound) bound left = _ :=
      hitems.sequence (.inl rfl) (recognizes_value bound _) (by omega)
    refine ⟨rest, ?_, hend⟩
    rw [Envelope.read, hopen.skipBlanks_eq_cons rfl]
    simp [hsequence, ofItems?]

/-- The reader accepts the envelopes and no other text. -/
theorem parse?_eq_some_iff {text : String} {e : Envelope} :
    parse? text = some e ↔ IsEnvelope text.toList e := by
  rw [parse?, atEnd_eq_some_iff]
  exact ⟨fun ⟨_, h, hend⟩ => isEnvelope_of_read h hend, fun h => h.read (Nat.le_refl _)⟩

end TileWorld.Envelope
