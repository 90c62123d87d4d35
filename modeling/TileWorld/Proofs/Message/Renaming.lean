import TileWorld.Proofs.Message.Envelope

/-! A frame may call its body `data` or `payload`; it is the same envelope either way. -/

namespace TileWorld

open Json Json.Grammar

namespace Json.Grammar

variable {α : Type} {Item : List Char → α → List Char → Prop} {cs left rest x y : List Char}

/-- Whole items, each with its comma, stand between the two places. -/
inductive Leads (Item : List Char → α → List Char → Prop) : List Char → List Char → Prop where
  | refl (rest : List Char) : Leads Item rest rest
  | item {cs left left' rest : List Char} {a : α} (ha : Item cs a left)
      (hcomma : Blanks left (',' :: left')) (h : Leads Item left' rest) : Leads Item cs rest

theorem local_leads (hitem : ∀ a, Local (Item · a ·)) : Local (Leads Item) := by
  intro cs rest h
  induction h with
  | refl rest => exact .refl .refl
  | item ha hcomma _ ih =>
    exact ((hitem _ ha).seq ((local_blanks hcomma).before.seq ih)).mono
      fun ⟨_, ha, _, hcomma, h⟩ => .item ha hcomma h

variable {read : Nat → List Char → Option (α × List Char)} {close : Char}

/-- What stands at the place may be exchanged for anything that is read alike there. -/
theorem Leads.exchange (hread : ∀ bound, Recognizes bound (read bound) Item)
    (hclose : close = ']' ∨ close = '\x7d') (h : Leads Item cs x)
    (hxy : ∀ {a rest}, Item x a rest → Item y a rest) :
    ∃ front, cs = front ++ x ∧ ∀ {a as left rest}, Item cs a left →
      Further close Item left as rest →
        ∃ left', Item (front ++ y) a left' ∧ Further close Item left' as rest := by
  induction h with
  | refl => exact ⟨[], rfl, fun ha hfurther => ⟨_, hxy ha, hfurther⟩⟩
  | item ha₀ hcomma₀ _ ih =>
    obtain ⟨piece, rfl, hpiece⟩ := (hread 0).pieces _ ha₀
    have hends := hcomma₀.ends (ends_of_delimited (delimited_cons.mpr (.inl rfl)))
    obtain ⟨comma, hmid, hcomma⟩ := (local_blanks hcomma₀).before
    obtain ⟨front, rfl, hfront⟩ := ih hxy
    refine ⟨piece ++ (comma ++ front), by simp [hmid], fun ha hfurther => ?_⟩
    -- A comma or the closing character ends the first item, so that it is the same in any reading.
    obtain ⟨rfl, rfl⟩ := Recognizes.unique hread ha ha₀ (hfurther.ends hclose) hends
    cases hfurther with
    | close h =>
      have heq := (h.unique hcomma₀ (by rcases hclose with rfl | rfl <;> rfl) rfl).1
      rcases hclose with rfl | rfl <;> cases heq
    | item hcomma' ha' hfurther' =>
      obtain ⟨-, rfl⟩ := hcomma'.unique hcomma₀ rfl rfl
      obtain ⟨left', ha', hfurther'⟩ := hfront ha' hfurther'
      refine ⟨comma ++ (front ++ y), ?_, .item (hcomma _) ha' hfurther'⟩
      rw [List.append_assoc, List.append_assoc]
      exact hpiece _

end Json.Grammar

namespace Envelope

variable {a k k' b : List Char} {name name' : String} {e : Envelope}

/-- In the text of an object a field begins at this place. -/
def AtField (cs left : List Char) : Prop :=
  ∃ inner, Blanks cs ('\x7b' :: inner) ∧ Leads Member inner left

theorem local_atField : Local AtField := fun _ _ ⟨_, hopen, hleads⟩ =>
  ((local_blanks hopen).before.seq (local_leads local_member hleads)).mono id

theorem AtField.exchange (h : AtField (a ++ k ++ b) (k ++ b)) :
    AtField (a ++ k' ++ b) (k' ++ b) := by
  obtain ⟨front, heq, hfront⟩ := local_atField h
  rw [List.append_assoc] at heq ⊢
  rw [List.append_cancel_right heq]
  exact hfront _

/-- A field with a body is read alike under either name. -/
theorem Member.rename {x y left : List Char} {part : Part} {rest : List Char}
    (hname : Name x name left) (hname' : Name y name' left) (hbody : BodyName name)
    (hbody' : BodyName name') (h : Member x part rest) : Member y part rest := by
  cases h with
  | type htype => exact absurd (hname.unique htype).1 hbody.ne_type
  | body h _ hvalue =>
    obtain ⟨-, rfl⟩ := hname.unique h
    exact .body hname' hbody' hvalue
  | other h _ hother =>
    obtain ⟨rfl, -⟩ := hname.unique h
    exact absurd hbody hother

/-- One text is the other with a body under another name, or with the name written otherwise. -/
inductive Renames : List Char → List Char → Prop where
  | mk {a k k' b : List Char} {name name' : String} (hat : AtField (a ++ k ++ b) (k ++ b))
      (hname : Name (k ++ b) name b) (hname' : Name (k' ++ b) name' b) (hbody : BodyName name)
      (hbody' : BodyName name') : Renames (a ++ k ++ b) (a ++ k' ++ b)

variable {cs cs' left rest : List Char}

theorem Renames.symm (h : Renames cs cs') : Renames cs' cs := by
  obtain ⟨hat, hname, hname', hbody, hbody'⟩ := h
  exact .mk hat.exchange hname' hname hbody' hbody

theorem IsEnvelope.rename (h : IsEnvelope cs e) (hrenames : Renames cs cs') :
    IsEnvelope cs' e := by
  obtain @⟨a, k, k', b, name, name', ⟨inner, hopen, hleads⟩, hname, hname', hbody, hbody'⟩ :=
    hrenames
  cases h with
  | @object _ _ parts _ _ hopen' hparts htype hbodies hend =>
    obtain ⟨-, rfl⟩ := hopen'.unique hopen rfl rfl
    obtain ⟨front, hinner, hexchange⟩ := hleads.exchange recognizes_part (.inr rfl)
      (Member.rename hname hname' hbody hbody')
    obtain ⟨opening, htext, hopening⟩ := (local_blanks hopen).before
    have ha : a = opening ++ front := by
      rw [hinner, ← List.append_assoc, List.append_assoc a] at htext
      exact List.append_cancel_right htext
    have hne : parts ≠ [] := by
      rintro rfl
      cases htype
    obtain ⟨first, more, _, rfl, hfirst, hfurther⟩ := exists_first hparts hne
    obtain ⟨_, hfirst, hfurther⟩ := hexchange hfirst hfurther
    rw [ha, List.append_assoc, List.append_assoc]
    exact .object (hopening _) (.items (.none _) hfirst hfurther) htype hbodies hend
  | array hopen' => cases (hopen'.unique hopen rfl rfl).1
  | bare hopen' => cases (hopen'.unique hopen rfl rfl).1

theorem parse?_rename {text text' : String} (h : Renames text.toList text'.toList) :
    parse? text = parse? text' := by
  refine Option.ext fun e => ?_
  rw [parse?_eq_some_iff, parse?_eq_some_iff]
  exact ⟨fun he => he.rename h, fun he => he.rename h.symm⟩

end Envelope

end TileWorld
