import TileWorld.Maze.Basic
import TileWorld.Object.Record
import TileWorld.Table
import TileWorld.World.Grid

/-! The objects by id, the grid in which they are filed, and the maze of the obstacles. The maze is
rebuilt on demand only. -/

namespace TileWorld

namespace Table

/-- Every object is under its own id. -/
def Keyed (t : Table Object) : Prop := ∀ id o, t.find? id = some o → o.id = id

variable {t : Table Object}

theorem keyed_empty : (empty : Table Object).Keyed := by
  intro id o ho
  simp at ho

theorem Keyed.insert (h : t.Keyed) {id : String} {o : Object} (hid : o.id = id) :
    (t.insert id o).Keyed := by
  intro other x hx
  rw [find?_insert] at hx
  by_cases hother : other = id
  · rw [if_pos hother, Option.some_inj] at hx
    rw [← hx, hid, hother]
  · exact h other x (by simpa [hother] using hx)

theorem Keyed.filter (h : t.Keyed) (keep : String → Object → Bool) : (t.filter keep).Keyed := by
  intro id o ho
  rw [find?_filter, Option.filter_eq_some_iff] at ho
  exact h id o ho.1

theorem Keyed.erase (h : t.Keyed) (id : String) : (t.erase id).Keyed := h.filter _

theorem Keyed.mapValues (h : t.Keyed) {f : String → Object → Object}
    (keepsId : ∀ id o, (f id o).id = o.id) : (t.mapValues f).Keyed := by
  intro id x hx
  rw [find?_mapValues, Option.map_eq_some_iff] at hx
  obtain ⟨o, ho, rfl⟩ := hx
  rw [keepsId, h id o ho]

theorem Keyed.modify (h : t.Keyed) (id : String) {change : Object → Object}
    (keepsId : ∀ o, (change o).id = o.id) : (t.modify id change).Keyed := by
  refine h.mapValues fun key o => ?_
  split
  · exact keepsId o
  · rfl

theorem Keyed.entries_eq (h : t.Keyed) : t.entries = t.values.map fun o => (o.id, o) := by
  rw [values, List.map_map]
  refine (List.map_id' t.entries).symm.trans (List.map_congr_left fun e he => ?_)
  exact Prod.ext (h e.1 e.2 (find?_eq_some_of_mem he)).symm rfl

theorem Keyed.map_id_values (h : t.Keyed) : t.values.map (·.id) = t.keys := by
  rw [keys, h.entries_eq, List.map_map]
  rfl

end Table

/-- Objects are stored under their own ids. -/
structure World where
  dims : Dims
  objects : Table Object
  grid : Grid
  maze : Maze
  keyed : objects.Keyed

instance : Inhabited World := ⟨⟨default, .empty, default, default, Table.keyed_empty⟩⟩

/-- Tells the renderer to retire one layer of an object that is gone. -/
structure Notice where
  id : String
  layer : String
  deriving DecidableEq, Repr

/-- What one step of time did to a moving object. -/
structure Motion where
  id : String
  delta : Point
  completed : Bool

namespace Object

/-- One step of time. A completed path is cleared, and an agent then begins its rest. -/
def step (o : Object) (dt : Float32) (now : Float) : Object × Option Motion :=
  if o.hasActivePath then
    let (moved, delta) := o.advance dt
    if moved.isPathComplete then
      ({ moved.clearPath with wander := moved.wander.map fun w => { w with lastPath := now } },
        some ⟨o.id, delta, true⟩)
    else (moved, some ⟨o.id, delta, false⟩)
  else (o, none)

theorem id_advance (o : Object) (dt : Float32) : (o.advance dt).1.id = o.id := by
  unfold advance
  split
  · rfl
  · dsimp only
    split <;> rfl

@[simp]
theorem id_step (o : Object) (dt : Float32) (now : Float) : (o.step dt now).1.id = o.id := by
  unfold step
  split
  · dsimp only
    split <;> exact o.id_advance dt
  · rfl

def notices (o : Object) : List Notice := o.layers.map fun layer => ⟨o.id, layer⟩

end Object

namespace World

def empty (d : Dims) : World := ⟨d, .empty, .ofDims d, .ofDims d, Table.keyed_empty⟩

def find? (w : World) (id : String) : Option Object := w.objects.find? id

def contains (w : World) (id : String) : Bool := w.objects.contains id

def size (w : World) : Nat := w.objects.size

/-- Empties the square at `p` if it names the object. -/
def vacate (w : World) (id : String) (p : Point) : World :=
  match w.dims.square? p with
  | some s => { w with grid := w.grid.vacate s id }
  | none => w

/-- Files the object in the square at `p`. -/
def file (w : World) (id : String) (p : Point) : World :=
  match w.dims.square? p with
  | some s => { w with grid := w.grid.file s id }
  | none => w

/-- Empties the square of an object, if there is such an object and the square names it. -/
def unfile (w : World) (id : String) : World :=
  match w.find? id with
  | some o => w.vacate id o.position
  | none => w

/-- Adds an object, or replaces the one with its id. -/
def insert (w : World) (o : Object) : World :=
  let w := (w.unfile o.id).file o.id o.position
  { w with objects := w.objects.insert o.id o, keyed := w.keyed.insert rfl }

/-- Takes an object out of the table. The grid stays as it is. -/
def erase (w : World) (id : String) : World :=
  { w with objects := w.objects.erase id, keyed := w.keyed.erase id }

/-- Removes an object; other objects keep their squares. -/
def remove (w : World) (id : String) : World :=
  match w.find? id with
  | none => w
  | some o => (w.erase id).vacate id o.position

/-- Changes one object of the table. The grid stays as it is. -/
def alter (w : World) (id : String) (change : Object → Object)
    (keepsId : ∀ o, (change o).id = o.id) : World :=
  { w with objects := w.objects.modify id change, keyed := w.keyed.modify id keepsId }

/-- Changes one object, if it is there, and files it anew when it moved. -/
def modify (w : World) (id : String) (change : Object → Object)
    (keepsId : ∀ o, (change o).id = o.id) : World :=
  match w.find? id with
  | none => w
  | some before =>
    let after := change before
    let w := w.alter id change keepsId
    if before.position.same after.position then w
    else (w.vacate id before.position).file id after.position

/-- Removes the objects that `keep` rejects; these in id order, and the world without them. -/
def retain (w : World) (keep : Object → Bool) : List Object × World :=
  let doomed := w.objects.values.filter fun o => !keep o
  (doomed, doomed.foldl (fun w o => w.remove o.id) w)

/-- Files every object into an empty grid; of those that share a square the last id stays. -/
def rebuildGrid (w : World) : World :=
  w.objects.values.foldl (fun w o => w.file o.id o.position) { w with grid := .ofDims w.dims }

def obstaclePositions (w : World) : List Point :=
  (w.objects.values.filter (·.obstacle)).map (·.position)

def rebuildMaze (w : World) : World :=
  { w with maze := .ofObstacles w.dims w.obstaclePositions }

theorem keyed_stepped (w : World) (dt : Float32) (now : Float) :
    ((w.objects.mapValues fun _ o => o.step dt now).mapValues fun _ p => p.1).Keyed := by
  intro id x hx
  simp only [Table.find?_mapValues, Option.map_map, Option.map_eq_some_iff] at hx
  obtain ⟨o, ho, rfl⟩ := hx
  exact (o.id_step dt now).trans (w.keyed id o ho)

def integrate (w : World) (dt : Float32) (now : Float) : List Motion × World :=
  let stepped := w.objects.mapValues fun _ o => o.step dt now
  let motions := stepped.values.filterMap (·.2)
  let w := { w with
    objects := stepped.mapValues fun _ p => p.1
    keyed := keyed_stepped w dt now }
  (motions, if motions.isEmpty then w else w.rebuildGrid)

/-- Removes the objects whose decay time has come. -/
def sweep (w : World) (now : Float) : List Notice × World :=
  let (expired, rest) := w.retain fun o => !o.isExpired now
  if expired.isEmpty then ([], w) else (expired.flatMap Object.notices, rest.rebuildMaze)

/-- Rebuilding the maze ends the program: the footprint of an obstacle is out of range. -/
def overflows (w : World) : Bool :=
  w.obstaclePositions.any fun p => (w.dims.footprint? p).isNone

/-- `sweep` as the program does it, which ends where a maze cannot be rebuilt. -/
def trySweep (w : World) (now : Float) : Option (List Notice × World) :=
  let swept := w.sweep now
  if w.objects.values.any (·.isExpired now) && swept.2.overflows then none else some swept

def snapshot (w : World) : Table Json :=
  .ofList ((w.objects.values.filter (·.persistent)).map fun o => (o.id, o.toJson))

end World

end TileWorld
