import TileWorld.Proofs.World.Made

/-! A snapshot that can be read in full leaves no trace of the past in the persistent objects. -/

namespace TileWorld.World

variable {d : Dims} {v w : World}

/-- Every entry of the snapshot tells of an object. -/
def Readable (entries : Table Json) : Prop :=
  ∀ id entry, entries.find? id = some entry → ∃ o, entry.Tells o

theorem find?_reconcile_of_readable {entries : Table Json} (hentries : Readable entries)
    {id : String} {entry : Json} (hentry : entries.find? id = some entry) (w : World) :
    (w.reconcile entries).2.find? id = Object.ofEntry? id entry := by
  obtain ⟨told, htold⟩ := hentries id entry hentry
  have hread : Object.ofEntry? id entry = some { told with id } :=
    ofEntry?_eq_some_iff.mpr ⟨told, htold, rfl⟩
  rw [find?_reconcile, find?_merged, hentry]
  simp [hread]

theorem find?_reconcile_of_omitted {entries : Table Json} {id : String}
    (hentry : entries.find? id = none) (w : World) :
    (w.reconcile entries).2.find? id = (w.find? id).filter (!·.persistent) := by
  rw [find?_reconcile, find?_merged, hentry]

/-- The persistent objects are those of the snapshot, whatever the world was before. -/
theorem filter_persistent_reconcile {entries : Table Json} (hentries : Readable entries)
    (w : World) (id : String) :
    ((w.reconcile entries).2.find? id).filter (·.persistent) =
      ((entries.find? id).bind (Object.ofEntry? id)).filter (·.persistent) := by
  cases hentry : entries.find? id with
  | none =>
      rw [find?_reconcile_of_omitted hentry, Option.filter_filter]
      simp
  | some entry => rw [find?_reconcile_of_readable hentries hentry, Option.bind_some]

/-- The worlds `v'` and `w'` differ in nothing but the fleeting objects that `v` and `w` had of
their own. -/
structure Converged (entries : Table Json) (v w v' w' : World) : Prop where
  /-- The same persistent objects under the same ids. -/
  persistent : v'.objects.filter (fun _ o => o.persistent) =
    w'.objects.filter fun _ o => o.persistent
  maze : v'.maze = w'.maze
  told : ∀ id, entries.contains id = true → v'.find? id = w'.find? id
  /-- Under another id stands what stood there, if it is fleeting. -/
  left : ∀ id, entries.contains id = false →
    v'.find? id = (v.find? id).filter (!·.persistent) ∧
      w'.find? id = (w.find? id).filter (!·.persistent)
  /-- A leftover blocks no cell. -/
  harmless : ∀ id o, entries.contains id = false → v'.find? id = some o ∨ w'.find? id = some o →
    o.persistent = false ∧ o.obstacle = false
  walkable : ∀ c, v'.maze.isWalkable c = w'.maze.isWalkable c

/-- Two worlds of one geometry agree after a snapshot that can be read, whatever happened to each of
them before. -/
theorem ReachableWith.converge (hv : ReachableWith d Object.Made v)
    (hw : ReachableWith d Object.Made w) {entries : Table Json} (hentries : Readable entries) :
    Converged entries v w (v.reconcile entries).2 (w.reconcile entries).2 := by
  have hsame : ∀ id, ((v.reconcile entries).2.find? id).filter (·.persistent) =
      ((w.reconcile entries).2.find? id).filter (·.persistent) := by
    intro id
    rw [filter_persistent_reconcile hentries, filter_persistent_reconcile hentries]
  have hmade : ∀ u, ReachableWith d Object.Made u → ∀ id o,
      (u.reconcile entries).2.find? id = some o → o.obstacle = true → o.persistent = true :=
    fun u hu id o ho =>
      (hu.made.reconcile entries (fun _ _ _ => .of_entry) id o ho).persistent
  have hdims : (v.reconcile entries).2.dims = (w.reconcile entries).2.dims := by
    rw [dims_reconcile, dims_reconcile, hv.reachable.shaped.dims, hw.reachable.shaped.dims]
  have hmaze : (v.reconcile entries).2.maze = (w.reconcile entries).2.maze := by
    refine maze_eq_of_obstacles hdims rfl rfl fun id => ?_
    rw [filter_obstacle (hmade v hv id), filter_obstacle (hmade w hw id), hsame]
  have hnone : ∀ id, entries.contains id = false → entries.find? id = none := fun id hid =>
    Option.isSome_eq_false_iff.mp hid |> Option.isNone_iff_eq_none.mp
  refine ⟨?_, hmaze, ?_, ?_, ?_, fun c => by rw [hmaze]⟩
  · refine Table.ext_find? fun id => ?_
    rw [Table.find?_filter, Table.find?_filter]
    exact hsame id
  · intro id hid
    obtain ⟨entry, hentry⟩ := Option.isSome_iff_exists.mp hid
    rw [find?_reconcile_of_readable hentries hentry, find?_reconcile_of_readable hentries hentry]
  · intro id hid
    exact ⟨find?_reconcile_of_omitted (hnone id hid) v,
      find?_reconcile_of_omitted (hnone id hid) w⟩
  · have hfleeting : ∀ u, ReachableWith d Object.Made u → ∀ id o, entries.contains id = false →
        (u.reconcile entries).2.find? id = some o → o.persistent = false ∧ o.obstacle = false := by
      intro u hu id o hid ho
      have hobstacle := hmade u hu id o ho
      rw [find?_reconcile_of_omitted (hnone id hid), Option.filter_eq_some_iff] at ho
      have hpersistent : o.persistent = false := by simpa using ho.2
      exact ⟨hpersistent, Bool.eq_false_iff.mpr fun h => by simp [hobstacle h] at hpersistent⟩
    rintro id o hid (ho | ho)
    · exact hfleeting v hv id o hid ho
    · exact hfleeting w hw id o hid ho

/-- A world with another past than the courtyard: there was a wall elsewhere, the id of the hero
was that of a marker, and what is left over lies in the way. -/
def backyard : World :=
  ((((World.empty ⟨64, 64, 32, 16⟩).perform (.insert (.wall "well" ⟨32, 0⟩))).perform
    (.insert { Object.ofKind .clickPointer "hero" ⟨0, 0⟩ with decay := some 5 })).perform
    .rebuildMaze).perform
    (.insert { Object.ofKind .pathPoint "trace" ⟨32, 32⟩ with decay := some 3 })

def homeSnapshot : Table Json :=
  .ofList [("gate", (Object.wall "gate" ⟨32, 32⟩).toJson),
    ("hero", (Object.player "hero" ⟨0, 0⟩).toJson)]

theorem converge_courtyard_backyard :
    ReachableWith ⟨64, 64, 32, 16⟩ Object.Made courtyard ∧
      ReachableWith ⟨64, 64, 32, 16⟩ Object.Made backyard ∧ Readable homeSnapshot ∧
      Converged homeSnapshot courtyard backyard (courtyard.reconcile homeSnapshot).2
        (backyard.reconcile homeSnapshot).2 ∧
      (courtyard.reconcile homeSnapshot).2.objects.keys = ["gate", "hero", "trail"] ∧
      (backyard.reconcile homeSnapshot).2.objects.keys = ["gate", "hero", "trace"] := by
  have hkind : ∀ kind id p, (Object.ofKind kind id p).Made := fun kind id p =>
    .built (.ofKind kind id p)
  have hfleeting : ∀ kind id p decay,
      Object.Made { Object.ofKind kind id p with decay := some decay } := fun kind id p decay =>
    .edit (.fields _ _ _ _ _ _ _ .refl) (hkind kind id p)
  have hcourtyard : ReachableWith ⟨64, 64, 32, 16⟩ Object.Made courtyard :=
    .perform _ (hfleeting ..) (.perform _ (hkind ..) (.perform _ (hkind ..) .empty))
  have hbackyard : ReachableWith ⟨64, 64, 32, 16⟩ Object.Made backyard :=
    .perform _ (hfleeting ..)
      (.perform _ trivial (.perform _ (hfleeting ..) (.perform _ (hkind ..) .empty)))
  have hread : ∀ e ∈ homeSnapshot.entries, (Object.ofEntry? e.1 e.2).isSome = true := by
    decide +kernel
  have hreadable : Readable homeSnapshot := by
    intro id entry hentry
    obtain ⟨o, ho⟩ := Option.isSome_iff_exists.mp (hread _ (Table.mem_of_find?_eq_some hentry))
    obtain ⟨told, htold, -⟩ := ofEntry?_eq_some_iff.mp ho
    exact ⟨told, htold⟩
  exact ⟨hcourtyard, hbackyard, hreadable, hcourtyard.converge hbackyard hreadable,
    by decide +kernel, by decide +kernel⟩

end TileWorld.World
