import TileWorld.Message.Codec
import TileWorld.Proofs.Message.Renaming

/-! # What frames are told apart by -/

namespace TileWorld

open Json Json.Grammar Envelope

/-- One direction of messages: the texts told apart, the body under either of its names, and the
type that a written frame begins with. -/
structure Classifies {α : Type} (types : List String) (typeName : α → String)
    (decode : String → Except FrameError α) (encode : α → String) : Prop where
  invalid (text : String) :
    decode text = .error .invalidJson ↔ ¬ ∃ e, IsEnvelope text.toList e
  unknown (text name : String) :
    decode text = .error (.unknownType name) ↔
      ∃ body, IsEnvelope text.toList ⟨name, body⟩ ∧ name ∉ types
  known (text : String) (e : Envelope) (he : IsEnvelope text.toList e) (htype : e.type ∈ types) :
    decode text = .error (.malformedPayload e.type) ∨
      ∃ m, decode text = .ok m ∧ typeName m = e.type
  renamed (text text' : String) (h : Renames text.toList text'.toList) : decode text = decode text'
  listed (m : α) : typeName m ∈ types
  written (m : α) : ∃ left rest, (encode m).toList = '\x7b' :: left ∧
    Member left (.type (typeName m)) (',' :: rest)
  announced (m : α) (e : Envelope) (he : IsEnvelope (encode m).toList e) : e.type = typeName m

/-! ## Reading -/

section Reading

variable {α : Type} {types : List String} {ofBody? : String → Json → Option α} {text : String}
  {e : Envelope}

theorem decodeFrame_of_not_isEnvelope (h : ¬ ∃ e, IsEnvelope text.toList e) :
    decodeFrame types ofBody? text = .error .invalidJson := by
  have hparse : Envelope.parse? text = none :=
    Option.eq_none_iff_forall_ne_some.mpr fun e he => h ⟨e, parse?_eq_some_iff.mp he⟩
  rw [decodeFrame, hparse]

theorem decodeFrame_of_isEnvelope (he : IsEnvelope text.toList e) :
    decodeFrame types ofBody? text =
      if e.type ∈ types then
        (ofBody? e.type e.body).elim (.error (.malformedPayload e.type)) .ok
      else .error (.unknownType e.type) := by
  rw [decodeFrame, parse?_eq_some_iff.mpr he]
  cases hbody : ofBody? e.type e.body <;> simp [hbody]

theorem decodeFrame_eq_invalidJson_iff :
    decodeFrame types ofBody? text = .error .invalidJson ↔ ¬ ∃ e, IsEnvelope text.toList e := by
  refine ⟨fun h => ?_, decodeFrame_of_not_isEnvelope⟩
  rintro ⟨e, he⟩
  rw [decodeFrame_of_isEnvelope he] at h
  split at h
  · cases hbody : ofBody? e.type e.body <;> simp [hbody] at h
  · cases h

theorem decodeFrame_eq_unknownType_iff {name : String} :
    decodeFrame types ofBody? text = .error (.unknownType name) ↔
      ∃ body, IsEnvelope text.toList ⟨name, body⟩ ∧ name ∉ types := by
  constructor
  · intro h
    by_cases henvelope : ∃ e, IsEnvelope text.toList e
    · obtain ⟨e, he⟩ := henvelope
      rw [decodeFrame_of_isEnvelope he] at h
      split at h
      · cases hbody : ofBody? e.type e.body <;> simp [hbody] at h
      · next htype =>
        cases h
        exact ⟨e.body, he, htype⟩
    · rw [decodeFrame_of_not_isEnvelope henvelope] at h
      cases h
  · rintro ⟨body, he, htype⟩
    rw [decodeFrame_of_isEnvelope he, if_neg htype]

end Reading

/-! ## Bodies -/

section Yields

variable {α β : Type} {P : α → Prop}

/-- What is read, if anything is, has the property. -/
def Yields (P : α → Prop) (r : Option α) : Prop := ∀ a, r = some a → P a

theorem Yields.none : Yields P .none := nofun

theorem Yields.some {a : α} (h : P a) : Yields P (.some a) := by
  rintro _ ⟨⟩
  exact h

theorem Yields.bind {r : Option β} {f : β → Option α} (h : ∀ b, Yields P (f b)) :
    Yields P (r.bind f) := by
  intro a ha
  obtain ⟨b, -, hb⟩ := Option.bind_eq_some_iff.mp ha
  exact h b a hb

end Yields

/-- A body is read as a message of the type that its frame names. -/
theorem ClientMessage.yields_ofBody? (type : String) (body : Json) :
    Yields (fun m => typeName m = type) (ofBody? type body) := by
  unfold ofBody?
  split
  · refine .bind fun fields => ?_
    split
    · exact .bind fun _ => .bind fun _ => .some rfl
    · exact .none
  · refine .bind fun fields => ?_
    split
    · exact .bind fun _ => .bind fun _ => .some rfl
    · exact .none
  · refine .bind fun fields => ?_
    split
    · exact .bind fun _ => .bind fun _ => .some rfl
    · exact .none
  · refine .bind fun fields => ?_
    split
    · exact .bind fun _ => .some rfl
    · exact .none
  · exact .none

theorem ServerMessage.yields_ofBody? (type : String) (body : Json) :
    Yields (fun m => typeName m = type) (ofBody? type body) := by
  unfold ofBody?
  split
  · refine .bind fun fields => ?_
    split
    · exact .bind fun _ => .bind fun _ => .some rfl
    · exact .none
  · refine .bind fun fields => ?_
    split
    · exact .bind fun _ => .some rfl
    · exact .none
  · refine .bind fun fields => ?_
    split
    · exact .bind fun _ => .bind fun _ => .some rfl
    · exact .none
  · exact .some rfl
  · exact .some rfl
  · refine .bind fun fields => ?_
    split
    · exact .bind fun _ => .bind fun _ => .some rfl
    · exact .none
  · exact .none

/-! ## Writing -/

theorem member_type (type : String) (rest : List Char) :
    Member (fieldOnto ("type", stringOnto type) rest) (.type type) rest := by
  have hmember := Member.type (name_stringOnto "type" (stringOnto type rest)) (.none _)
    (spells_escape type.toList rest)
  rwa [String.ofList_toList] at hmember

/-- A frame begins with its type. -/
theorem exists_member_encodeFrame (type bodyName : String) (body : List Char → List Char) :
    ∃ left rest, (encodeFrame type bodyName body).toList = '\x7b' :: left ∧
      Member left (.type type) (',' :: rest) :=
  ⟨_, fieldOnto (bodyName, body) ['\x7d'], String.toList_ofList, member_type type _⟩

/-- The type that an object begins with is the type of the envelope. -/
theorem Envelope.IsEnvelope.type_eq {left rest : List Char} {type : String} {e : Envelope}
    (he : IsEnvelope ('\x7b' :: left) e) (hmember : Member left (.type type) (',' :: rest)) :
    e.type = type := by
  cases he with
  | @object _ _ parts _ _ hopen hparts htype =>
    obtain ⟨-, rfl⟩ := hopen.unique (.none _) rfl rfl
    have hne : parts ≠ [] := by
      rintro rfl
      cases htype
    obtain ⟨first, more, _, rfl, hfirst, hfurther⟩ := exists_first hparts hne
    have hcomma : Ends (',' :: rest) := ends_of_delimited (delimited_cons.mpr (.inl rfl))
    obtain ⟨rfl, -⟩ := Recognizes.unique recognizes_part hfirst hmember
      (hfurther.ends (.inr rfl)) hcomma
    exact (List.cons.inj htype).1.symm
  | array hopen => cases (hopen.unique (.none _) rfl rfl).1
  | bare hopen => cases (hopen.unique (.none _) rfl rfl).1

/-! ## Both directions -/

theorem classifies_decodeFrame {α : Type} {types : List String} {typeName : α → String}
    {ofBody? : String → Json → Option α} {encode : α → String}
    (hbody : ∀ type body, Yields (fun m => typeName m = type) (ofBody? type body))
    (hlisted : ∀ m, typeName m ∈ types)
    (hencode : ∀ m, ∃ bodyName body, encode m = encodeFrame (typeName m) bodyName body) :
    Classifies types typeName (decodeFrame types ofBody?) encode where
  invalid _ := decodeFrame_eq_invalidJson_iff
  unknown _ _ := decodeFrame_eq_unknownType_iff
  known text e he htype := by
    rw [decodeFrame_of_isEnvelope he, if_pos htype]
    cases hm : ofBody? e.type e.body with
    | none => exact .inl rfl
    | some m => exact .inr ⟨m, rfl, hbody _ _ m hm⟩
  renamed _ _ h := by rw [decodeFrame, decodeFrame, parse?_rename h]
  listed := hlisted
  written m := by
    obtain ⟨bodyName, body, hm⟩ := hencode m
    rw [hm]
    exact exists_member_encodeFrame (typeName m) bodyName body
  announced m e he := by
    obtain ⟨bodyName, body, hm⟩ := hencode m
    obtain ⟨left, rest, htext, hmember⟩ := exists_member_encodeFrame (typeName m) bodyName body
    rw [hm, htext] at he
    exact he.type_eq hmember

/-- Frames are told apart alike in both directions, and what is written names its own type. -/
theorem frames_classified :
    Classifies ClientMessage.typeNames ClientMessage.typeName ClientMessage.decode
        ClientMessage.encode ∧
      Classifies ServerMessage.typeNames ServerMessage.typeName ServerMessage.decode
        ServerMessage.encode := by
  constructor
  · refine classifies_decodeFrame ClientMessage.yields_ofBody?
      ClientMessage.typeName_mem_typeNames fun m => ⟨"payload", m.bodyOnto, ?_⟩
    rw [ClientMessage.encode, m.tag_eq_typeName]
  · refine classifies_decodeFrame ServerMessage.yields_ofBody?
      ServerMessage.typeName_mem_typeNames fun m => ⟨"data", m.bodyOnto, ?_⟩
    rw [ServerMessage.encode, m.tag_eq_typeName]

end TileWorld
