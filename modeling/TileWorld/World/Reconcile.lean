import TileWorld.World.Basic

/-! A snapshot is authoritative for persistent objects; the others stay until they decay. -/

namespace TileWorld

/-- The object that an entry tells of. It takes the id of the entry. -/
def Object.ofEntry? (id : String) (entry : Json) : Option Object := do
  let record ← Record.ofJson? entry
  let o ← (Object.ofRecord record).toOption
  return { o with id }

theorem Object.id_ofEntry? {id : String} {entry : Json} {o : Object}
    (h : Object.ofEntry? id entry = some o) : o.id = id := by
  simp only [Object.ofEntry?, Option.bind_eq_bind, Option.bind_eq_some_iff] at h
  obtain ⟨_, _, _, _, ho⟩ := h
  rw [← Option.some_inj.mp ho]

namespace World

def omitted (w : World) (entries : Table Json) : List Object :=
  w.objects.values.filter fun o => o.persistent && !entries.contains o.id

/-- Puts the object that an entry tells of in its place; one that tells of no object changes
nothing. -/
def tell (objects : Table Object) (entry : String × Json) : Table Object :=
  match Object.ofEntry? entry.1 entry.2 with
  | some o => objects.insert entry.1 o
  | none => objects

/-- The objects after a snapshot. An entry that tells of no object still shields its id. -/
def merged (w : World) (entries : Table Json) : Table Object :=
  let kept := (w.omitted entries).foldl (fun objects o => objects.erase o.id) w.objects
  entries.entries.foldl tell kept

theorem keyed_tell {objects : Table Object} (h : objects.Keyed) (entry : String × Json) :
    (tell objects entry).Keyed := by
  unfold tell
  split
  · rename_i o ho
    exact h.insert (Object.id_ofEntry? ho)
  · exact h

theorem keyed_merged (w : World) (entries : Table Json) : (w.merged entries).Keyed :=
  List.foldlRecOn _ _
    (List.foldlRecOn (motive := Table.Keyed) _ _ w.keyed fun _ h o _ => h.erase o.id)
    fun _ h entry _ => keyed_tell h entry

def reconcile (w : World) (entries : Table Json) : List Notice × World :=
  let reconciled := { w with objects := w.merged entries, keyed := w.keyed_merged entries }
  ((w.omitted entries).flatMap Object.notices, reconciled.rebuildGrid.rebuildMaze)

/-- `reconcile` as the program does it, which ends where a maze cannot be rebuilt. -/
def tryReconcile (w : World) (entries : Table Json) : Option (List Notice × World) :=
  let reconciled := w.reconcile entries
  if reconciled.2.overflows then none else some reconciled

end World

end TileWorld
