import TileWorld.Proofs.Object.Made
import TileWorld.Proofs.World.Reconcile

/-! What holds of every object of a world because every operation respects it. -/

namespace TileWorld

namespace Object

variable {o : Object}

theorem Made.of_entry {id : String} {entry : Json} (h : ofEntry? id entry = some o) :
    o.Made := by
  obtain ⟨told, ⟨record, -, htold⟩, rfl⟩ := World.ofEntry?_eq_some_iff.mp h
  exact .rename id (.built (.ofRecord htold))

theorem persistent_of_ofEntry? {id : String} {entry : Json}
    (h : ofEntry? id entry = some o) (hobstacle : o.obstacle = true) : o.persistent = true :=
  (Made.of_entry h).persistent hobstacle

end Object

/-! ## What holds of every object -/

namespace World

variable {d : Dims} {P : Object → Prop} {w : World}

/-- Whatever the operation brings in has the property, and whatever it changes keeps it. -/
def Operation.Respects (P : Object → Prop) : Operation → Prop
  | .insert o => P o
  | .modify _ change _ => ∀ o, P o → P (change o)
  | _ => True

/-- The worlds of one geometry to which operations lead that respect a property of objects. -/
inductive ReachableWith (d : Dims) (P : Object → Prop) : World → Prop where
  | empty : ReachableWith d P (.empty d)
  | perform {w : World} (op : Operation) : op.Respects P → ReachableWith d P w →
      ReachableWith d P (w.perform op)

theorem ReachableWith.reachable (h : ReachableWith d P w) : Reachable d w := by
  induction h with
  | empty => exact .empty
  | perform op _ _ ih => exact ih.perform op

/-- Every object in the table has the property. -/
def Holds (P : Object → Prop) (w : World) : Prop :=
  ∀ id o, w.find? id = some o → P o

theorem Holds.insert (h : Holds P w) {o : Object} (ho : P o) : Holds P (w.insert o) := by
  intro id x hx
  rw [find?_insert] at hx
  split at hx
  · rw [← Option.some_inj.mp hx]
    exact ho
  · exact h id x hx

theorem Holds.remove (h : Holds P w) (id : String) : Holds P (w.remove id) := by
  intro other x hx
  rw [find?_remove] at hx
  split at hx
  · cases hx
  · exact h other x hx

theorem Holds.modify (h : Holds P w) (id : String) {change : Object → Object}
    (keepsId : ∀ o, (change o).id = o.id) (hchange : ∀ o, P o → P (change o)) :
    Holds P (w.modify id change keepsId) := by
  intro other x hx
  rw [find?_modify_eq_map] at hx
  obtain ⟨o, ho, rfl⟩ := Option.map_eq_some_iff.mp hx
  split
  · exact hchange o (h other o ho)
  · exact h other o ho

theorem Holds.retain (h : Holds P w) (keep : Object → Bool) : Holds P (w.retain keep).2 := by
  intro id x hx
  rw [find?_retain, Option.filter_eq_some_iff] at hx
  exact h id x hx.1

theorem Holds.reconcile (h : Holds P w) (entries : Table Json)
    (hentry : ∀ id entry o, Object.ofEntry? id entry = some o → P o) :
    Holds P (w.reconcile entries).2 := by
  intro id x hx
  rw [find?_reconcile, find?_merged] at hx
  split at hx
  · rcases Option.or_eq_some_iff.mp hx with htold | ⟨-, hkept⟩
    · exact hentry id _ x htold
    · exact h id x hkept
  · exact h id x (Option.filter_eq_some_iff.mp hx).1

theorem Holds.sweep (h : Holds P w) (now : Float) : Holds P (w.sweep now).2 := by
  rw [World.sweep]
  dsimp only
  split
  · exact h
  · exact h.retain _

theorem Holds.integrate (h : Holds P w) (dt : Float32) (now : Float)
    (hstep : ∀ o, P o → P (o.step dt now).1) : Holds P (w.integrate dt now).2 := by
  intro id x hx
  rw [find?_integrate] at hx
  obtain ⟨o, ho, rfl⟩ := Option.map_eq_some_iff.mp hx
  exact hstep o (h id o ho)

/-- A property that time keeps and that every told object has is kept by the operations that
respect it. -/
theorem Holds.perform (h : Holds P w) {op : Operation} (hop : op.Respects P)
    (hentry : ∀ id entry o, Object.ofEntry? id entry = some o → P o)
    (hstep : ∀ o dt now, P o → P (o.step dt now).1) : Holds P (w.perform op) := by
  cases op with
  | insert o => exact h.insert hop
  | remove id => exact h.remove id
  | modify id _ keepsId => exact h.modify id keepsId hop
  | retain keep => exact h.retain keep
  | reconcile entries => exact h.reconcile entries hentry
  | sweep now => exact h.sweep now
  | rebuildGrid =>
      intro id o ho
      exact h id o (by simpa [World.perform, find?] using ho)
  | rebuildMaze => exact h
  | integrate dt now => exact h.integrate dt now fun o => hstep o dt now

theorem ReachableWith.holds (h : ReachableWith d P w)
    (hentry : ∀ id entry o, Object.ofEntry? id entry = some o → P o)
    (hstep : ∀ o dt now, P o → P (o.step dt now).1) : Holds P w := by
  induction h with
  | empty =>
      intro id o ho
      simp [World.empty, find?] at ho
  | perform op hop _ ih => exact ih.perform hop hentry hstep

/-- Where every obstacle persists, the obstacles are among the persistent objects. -/
theorem filter_obstacle {x : Option Object}
    (h : ∀ o, x = some o → o.obstacle = true → o.persistent = true) :
    x.filter (·.obstacle) = (x.filter (·.persistent)).filter (·.obstacle) := by
  cases x with
  | none => rfl
  | some o =>
      have ho := h o rfl
      cases hobstacle : o.obstacle with
      | false => cases hpersistent : o.persistent <;> simp [Option.filter, hobstacle, hpersistent]
      | true => simp [Option.filter, hobstacle, ho hobstacle]

theorem ReachableWith.made (h : ReachableWith d Object.Made w) : Holds Object.Made w :=
  h.holds (fun _ _ _ ho => .of_entry ho) fun _ dt now ho => ho.step dt now

end World

end TileWorld
