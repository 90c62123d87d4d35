import TileWorld.Proofs.World.Departure

/-! Every object of a world is well formed, through motion and snapshots too, and no sweep takes an
obstacle. -/

namespace TileWorld

namespace Object

variable {o : Object}

theorem wellFormed_of_ofEntry? {id : String} {entry : Json} (h : ofEntry? id entry = some o) :
    o.WellFormed := by
  obtain ⟨told, ⟨record, -, htold⟩, rfl⟩ := World.ofEntry?_eq_some_iff.mp h
  have hwell := wellFormed_of_ofRecord htold
  exact ⟨hwell.obstacle, hwell.cursor⟩

end Object

/-! ## Worlds -/

namespace World

variable {d : Dims} {w : World}

/-- An operation that inserts nothing but built objects and changes none but by edits. -/
def Operation.Plain : Operation → Prop
  | .insert o => o.Built
  | .modify _ change _ => ∀ o : Object, o.Edits (change o)
  | _ => True

/-- The worlds of one geometry to which plain operations lead from an empty one. -/
inductive PlainReachable (d : Dims) : World → Prop where
  | empty : PlainReachable d (.empty d)
  | perform {w : World} (op : Operation) : op.Plain → PlainReachable d w →
      PlainReachable d (w.perform op)

theorem Operation.Plain.respects {op : Operation} (h : op.Plain) :
    op.Respects Object.WellFormed := by
  cases op with
  | insert o => exact Object.Built.wellFormed h
  | modify id change keepsId => exact fun o ho => ho.edit (h o)
  | _ => trivial

theorem PlainReachable.reachableWith (h : PlainReachable d w) :
    ReachableWith d Object.WellFormed w := by
  induction h with
  | empty => exact .empty
  | perform op hop _ ih => exact ih.perform op hop.respects

/-- What holds of every object in a world, and what no sweep does. -/
structure Orderly (w : World) : Prop where
  keyed : ∀ id o, w.find? id = some o → o.id = id
  persistent : ∀ id o, w.find? id = some o → o.obstacle = true → o.persistent = true
  cursor : ∀ id o, w.find? id = some o →
    o.path = [] ∧ o.cursor = 0 ∨ o.cursor < o.path.length
  incomplete : ∀ id o, w.find? id = some o → o.isPathComplete = false
  /-- Every obstacle outlasts every sweep as it is, and no notice is sent of it. -/
  spared : ∀ id o now, w.find? id = some o → o.obstacle = true →
    (w.sweep now).2.find? id = some o ∧ ∀ n ∈ (w.sweep now).1, n.id ≠ id

theorem spared_of_persistent {id : String} {o : Object} (ho : w.find? id = some o)
    (hpersistent : o.persistent = true) (now : Float) :
    (w.sweep now).2.find? id = some o ∧ ∀ n ∈ (w.sweep now).1, n.id ≠ id := by
  have hkept : (w.sweep now).2.find? id = some o := by
    rw [find?_sweep, ho]
    simp [Option.filter, Object.isExpired, hpersistent]
  refine ⟨hkept, ?_⟩
  rintro n hn rfl
  have hgone := ((accounted_sweep w now).gone n hn).2
  rw [hkept] at hgone
  cases hgone

/-- Whatever plain operations lead to a world, its objects are in order. -/
theorem PlainReachable.orderly (h : PlainReachable d w) : Orderly w := by
  have hwell : Holds Object.WellFormed w := h.reachableWith.holds
    (fun _ _ _ ho => Object.wellFormed_of_ofEntry? ho) fun _ dt now ho => ho.step dt now
  refine ⟨w.keyed, fun id o ho => (hwell id o ho).obstacle, fun id o ho => (hwell id o ho).cursor,
    fun id o ho => (hwell id o ho).isPathComplete, ?_⟩
  intro id o now ho hobstacle
  exact spared_of_persistent ho ((hwell id o ho).obstacle hobstacle) now

/-- Tells of a scout at the end of its way, and of a wall that would decay. -/
def patrolSnapshot : Table Json :=
  .ofList [("scout", { Object.player "scout" ⟨8, 8⟩ with path := [⟨8, 8⟩], cursor := 1 }.toJson),
    ("mirage", { Object.wall "mirage" ⟨32, 0⟩ with persistent := false }.toJson),
    ("gate", (Object.wall "gate" ⟨0, 0⟩).toJson)]

def spark : Object := { Object.ofKind .clickPointer "spark" ⟨40, 40⟩ with decay := some 3 }

def sendScout (o : Object) : Object := { o.setPath [⟨16, 8⟩, ⟨48, 8⟩] with speed := 16 }

/-- A scout that is told to have arrived is sent on and walks past its first waypoint, and then a
marker decays. -/
def patrol : World :=
  ((((((World.empty ⟨64, 64, 32, 16⟩).perform (.insert (.wall "gate" ⟨0, 0⟩))).perform
    (.insert spark)).perform (.reconcile patrolSnapshot)).perform
    (.modify "scout" sendScout fun _ => rfl)).perform (.integrate 1 2)).perform (.sweep 3)

theorem orderly_patrol :
    PlainReachable ⟨64, 64, 32, 16⟩ patrol ∧ Orderly patrol ∧
      patrol.objects.keys = ["gate", "scout"] ∧
      (patrol.find? "scout").map (fun o => (o.cursor, o.path.length)) = some (1, 2) := by
  have hspark : spark.Built :=
    .edit (.fields _ _ _ _ _ _ _ .refl) (.ofKind .clickPointer "spark" ⟨40, 40⟩)
  have hsend : ∀ o : Object, o.Edits (sendScout o) :=
    fun o => .fields _ _ _ _ _ _ _ (.setPath [⟨16, 8⟩, ⟨48, 8⟩] .refl)
  have h : PlainReachable ⟨64, 64, 32, 16⟩ patrol :=
    .perform _ trivial (.perform _ trivial (.perform _ hsend (.perform _ trivial
      (.perform _ hspark (.perform _ (.ofKind .wall "gate" ⟨0, 0⟩) .empty)))))
  exact ⟨h, h.orderly, by decide +kernel, by decide +kernel⟩

end World

end TileWorld
