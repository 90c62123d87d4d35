import TileWorld.Proofs.Object.Wire
import TileWorld.Proofs.World.Reconcile

/-! Whoever reads what is told about an object has a copy of it, up to its wandering and what a
reader puts straight. -/

namespace TileWorld.Object

variable {o : Object}

theorem isPathComplete_restored (o : Object) : o.restored.isPathComplete = false := by
  cases hcomplete : o.isPathComplete with
  | true =>
      rw [isPathComplete, restored, hcomplete]
      rfl
  | false =>
      rw [restored_eq_retold hcomplete]
      exact hcomplete

theorem layers_restored_ne_nil (o : Object) : o.restored.layers ≠ [] := by
  rw [restored]
  split
  · exact o.kind.defaultLayers_ne_nil
  · rename_i hlayers
    simpa using hlayers

theorem restored_eq_self_iff :
    o.restored = o ↔ o.wander = none ∧ o.isPathComplete = false ∧ o.layers ≠ [] := by
  constructor
  · intro h
    rw [← h]
    exact ⟨rfl, o.isPathComplete_restored, o.layers_restored_ne_nil⟩
  · rintro ⟨hwander, hcomplete, hlayers⟩
    rw [restored_eq_retold hcomplete, retold, if_neg (by simpa using hlayers), ← hwander]

theorem ofRecord_toRecord_eq_ok_iff (hcursor : o.cursor ≤ o.path.length)
    (hobstacle : o.obstacle = true → o.persistent = true) {copy : Object} :
    ofRecord o.toRecord = .ok copy ↔ o.position.isFinite = true ∧ copy = o.restored := by
  rw [ofRecord_toRecord hcursor hobstacle]
  split <;> rename_i hposition
  · rw [Except.ok.injEq, eq_comm, and_iff_right hposition]
  · exact ⟨nofun, fun h => absurd h.1 hposition⟩

/-- A value in which a coordinate is missing is no record, so there is no need to check the record
for it. -/
theorem toJson_tells_iff (hcursor : o.cursor ≤ o.path.length)
    (hobstacle : o.obstacle = true → o.persistent = true) (htellable : o.toRecord.Tellable)
    {copy : Object} :
    o.toJson.Tells copy ↔ o.position.isFinite = true ∧ copy = o.restored := by
  have hplace : (o.toRecord.x.isFinite && o.toRecord.y.isFinite) = o.position.isFinite := rfl
  rw [Json.Tells, toJson, Record.ofJson?_toJson htellable, hplace]
  split <;> rename_i hposition
  · rw [← ofRecord_toRecord_eq_ok_iff hcursor hobstacle]
    constructor
    · rintro ⟨record, hrecord, hcopy⟩
      obtain rfl := Option.some_inj.mp hrecord
      exact hcopy
    · intro hcopy
      exact ⟨o.toRecord, rfl, hcopy⟩
  · constructor
    · rintro ⟨record, hrecord, -⟩
      cases hrecord
    · intro h
      exact absurd h.1 hposition

/-- An object that has not run over the end of its path and is no obstacle that decays has a copy
exactly if it is somewhere, and the copy is `o.restored`. Where every other number is finite as
well, its JSON value tells of the same copy. -/
theorem has_copy_iff (hcursor : o.cursor ≤ o.path.length)
    (hobstacle : o.obstacle = true → o.persistent = true) :
    (∀ copy, ofRecord o.toRecord = .ok copy ↔
      o.position.isFinite = true ∧ copy = o.restored) ∧
    (o.toRecord.Tellable → ∀ copy, o.toJson.Tells copy ↔
      o.position.isFinite = true ∧ copy = o.restored) ∧
    (o.restored = o ↔ o.wander = none ∧ o.isPathComplete = false ∧ o.layers ≠ []) :=
  ⟨fun _ => ofRecord_toRecord_eq_ok_iff hcursor hobstacle,
    fun htellable _ => toJson_tells_iff hcursor hobstacle htellable, restored_eq_self_iff⟩

def guide : Object :=
  { agent "guide" ⟨1, 0⟩ ⟨⟨0, 0⟩, 3, 5, 0⟩ with layers := [], path := [⟨1, 0⟩], cursor := 1 }

theorem has_copy_guide :
    guide.toJson.Tells guide.restored ∧ guide.restored ≠ guide ∧
      guide.restored.path = [] ∧ guide.restored.layers = Kind.questGiver.defaultLayers := by
  have hobstacle : guide.obstacle = true → guide.persistent = true := by decide
  have htellable : guide.toRecord.Tellable := by
    refine ⟨by decide +kernel, ?_, by decide, nofun⟩
    intro p hp
    obtain rfl := List.mem_singleton.mp hp
    decide +kernel
  have hcopy := has_copy_iff (o := guide) (by decide) hobstacle
  refine ⟨(hcopy.2.1 htellable _).mpr ⟨by decide +kernel, rfl⟩, ?_, rfl, rfl⟩
  intro hself
  cases (hcopy.2.2.mp hself).1

end TileWorld.Object
