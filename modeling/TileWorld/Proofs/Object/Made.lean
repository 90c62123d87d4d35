import TileWorld.Proofs.Object.Wire

/-! Which objects there can be: how they are made, and what may become of them afterwards. Nobody
sets their flags by hand, so no obstacle is ever fleeting. -/

namespace TileWorld.Object

/-- What becomes of an object when its open fields are changed, all but the id, and paths are set
or cleared, any number of times and in any order. -/
inductive Edits (o : Object) : Object → Prop where
  | refl : o.Edits o
  | fields {x : Object} (position : Point) (color : Color) (kind : Kind) (speed : Float32)
      (layers : List String) (decay : Option Float) (wander : Option Wander) : o.Edits x →
      o.Edits { x with position, color, kind, speed, layers, decay, wander }
  | setPath {x : Object} (path : List Point) : o.Edits x → o.Edits (x.setPath path)
  | clearPath {x : Object} : o.Edits x → o.Edits x.clearPath

/-- The objects that a world can be given: those of a kind, walls and players among them, agents,
ephemeral ones and those of records, edited or not. -/
inductive Built : Object → Prop where
  | ofKind (kind : Kind) (id : String) (position : Point) : Built (.ofKind kind id position)
  | agent (id : String) (position : Point) (wander : Wander) : Built (.agent id position wander)
  | ephemeral {kind : Kind} {id : String} {position : Point} {decay : Float} {o : Object} :
      Object.ephemeral kind id position decay = .ok o → Built o
  | ofRecord {r : Record} {o : Object} : Object.ofRecord r = .ok o → Built o
  | edit {o x : Object} : o.Edits x → Built o → Built x

/-- The objects that there can be: built ones, whatever becomes of their open fields and of their
ids, and however far they go along their paths. -/
inductive Made : Object → Prop where
  | built {o : Object} : o.Built → Made o
  | edit {o x : Object} : o.Edits x → Made o → Made x
  | rename {o : Object} (id : String) : Made o → Made { o with id }
  | advance {o : Object} (dt : Float32) : Made o → Made (o.advance dt).1

variable {o x : Object}

/-! ## What is built -/

theorem ephemeral_eq_ok_iff {kind : Kind} {id : String} {p : Point} {decay : Float} :
    ephemeral kind id p decay = .ok o ↔ (ofKind kind id p).obstacle = false ∧
      { ofKind kind id p with persistent := false, decay := some decay } = o := by
  rw [ephemeral]
  cases hobstacle : (ofKind kind id p).obstacle <;> simp [hobstacle]

/-- Of the kinds only walls are obstacles, and walls persist. -/
theorem wellFormed_ofKind (kind : Kind) (id : String) (position : Point) :
    (ofKind kind id position).WellFormed := by
  refine ⟨fun hobstacle => ?_, .inl ⟨rfl, rfl⟩⟩
  obtain rfl : kind = .wall := by simpa [ofKind] using hobstacle
  rfl

/-- A record that is no fleeting obstacle and has no cursor out of range tells of a well-formed
object: what it says of a completed path is repaired. -/
theorem wellFormed_of_ofRecord {r : Record} (h : ofRecord r = .ok o) : o.WellFormed := by
  obtain ⟨kind, -, hflags, hcursor, -, rfl⟩ := ofRecord_eq_ok_iff.mp h
  split
  · exact ⟨hflags, .inl ⟨rfl, rfl⟩⟩
  · rename_i hcomplete
    exact ⟨hflags, cursor_cases hcursor (Bool.eq_false_iff.mpr hcomplete)⟩

theorem WellFormed.edit (h : o.WellFormed) (hx : o.Edits x) : x.WellFormed := by
  induction hx with
  | refl => exact h
  | fields _ _ _ _ _ _ _ _ ih => exact ⟨ih.obstacle, ih.cursor⟩
  | setPath path _ ih => exact ih.setPath path
  | clearPath _ ih => exact ih.setPath []

theorem Built.wellFormed (h : o.Built) : o.WellFormed := by
  induction h with
  | ofKind kind id position => exact wellFormed_ofKind kind id position
  | agent id position wander =>
      have hkind := wellFormed_ofKind .questGiver id position
      exact ⟨hkind.obstacle, hkind.cursor⟩
  | ephemeral h =>
      obtain ⟨hobstacle, rfl⟩ := ephemeral_eq_ok_iff.mp h
      exact ⟨fun h => absurd (h.symm.trans hobstacle) (by decide), .inl ⟨rfl, rfl⟩⟩
  | ofRecord h => exact wellFormed_of_ofRecord h
  | edit hx _ ih => exact ih.edit hx

/-! ## What is made -/

theorem Edits.flags (h : o.Edits x) : x.obstacle = o.obstacle ∧ x.persistent = o.persistent := by
  induction h with
  | refl => exact ⟨rfl, rfl⟩
  | fields _ _ _ _ _ _ _ _ ih => exact ih
  | setPath _ _ ih => exact ih
  | clearPath _ ih => exact ih

/-- An obstacle never decays. -/
theorem Made.persistent (h : o.Made) (hobstacle : o.obstacle = true) : o.persistent = true := by
  induction h with
  | built h => exact h.wellFormed.obstacle hobstacle
  | edit hx _ ih =>
      obtain ⟨hobs, hpersistent⟩ := hx.flags
      exact hpersistent.trans (ih (hobs.symm.trans hobstacle))
  | rename _ _ ih => exact ih hobstacle
  | @advance o dt _ ih =>
      obtain ⟨position, cursor, hadvance⟩ := o.exists_advance dt
      rw [hadvance] at hobstacle ⊢
      exact ih hobstacle

theorem Made.step (h : o.Made) (dt : Float32) (now : Float) : (o.step dt now).1.Made := by
  rw [Object.step]
  split
  · have hmoved := h.advance dt
    dsimp only
    split
    · exact .edit (.fields _ _ _ _ _ _ _ (.clearPath .refl)) hmoved
    · exact hmoved
  · exact h

end TileWorld.Object
