import TileWorld.Proofs.World.Operation

/-! The operations once more, failing at the first place outside its array. On a world of the right
extent none fails. -/

namespace TileWorld

/-! ## Access by place -/

namespace Grid

/-- Writes at a place, none if there is no such place. -/
def write? (g : Grid) (place : Nat) (occupant : Option String) : Option Grid :=
  if place < g.squares.size then
    some { g with
      squares := g.squares.setIfInBounds place occupant
      size_squares := by simpa using g.size_squares }
  else none

theorem write?_index {g : Grid} {s : Square} (h : g.inBounds s = true)
    (occupant : Option String) : g.write? (g.index s) occupant = some (g.set s occupant) := by
  simp [write?, set, h, index_lt h]

theorem getElem?_index {g : Grid} {s : Square} (h : g.inBounds s = true) :
    g.squares[g.index s]? = some (g.occupant? s) := by
  rw [occupant?, if_pos h, Array.getElem?_eq_getElem (index_lt h)]
  rfl

end Grid

namespace Maze

/-- Writes at a place, none if there is no such place. -/
def write? (m : Maze) (place : Nat) (blocked : Bool) : Option Maze :=
  if place < m.tiles.size then
    some { m with
      tiles := m.tiles.setIfInBounds place blocked
      size_tiles := by simpa using m.size_tiles }
  else none

/-- Blocks a cell; one outside the maze has no place. -/
def block1? (m : Maze) (c : Cell) : Option Maze :=
  if m.inBounds c then m.write? (c.row * m.cols + c.col) true else some m

def block? (m : Maze) (cells : List Cell) : Option Maze :=
  cells.foldlM block1? m

def ofObstacles? (d : Dims) (positions : List Point) : Option Maze :=
  positions.foldlM (fun m p => m.block? (d.footprint p)) (ofDims d)

theorem block1?_eq_some (m : Maze) (c : Cell) : m.block1? c = some (m.set c true) := by
  by_cases h : m.inBounds c = true
  · have hi : c.row * m.cols + c.col < m.tiles.size := index_lt h
    simp [block1?, write?, set, h, hi, index]
  · simp [block1?, set, h]

theorem block?_eq_some (m : Maze) (cells : List Cell) : m.block? cells = some (m.block cells) := by
  have h : block1? = fun (m : Maze) c => some (m.set c true) := by
    funext m c
    exact block1?_eq_some m c
  rw [block?, h]
  exact List.foldlM_pure

theorem ofObstacles?_eq_some (d : Dims) (positions : List Point) :
    ofObstacles? d positions = some (ofObstacles d positions) := by
  simp only [ofObstacles?, block?_eq_some]
  exact List.foldlM_pure

end Maze

namespace World

/-! ## Filing by place -/

def file? (w : World) (id : String) (p : Point) : Option World :=
  match w.dims.square? p with
  | some s => do
    let grid ← w.grid.write? (s.row * w.dims.gridCols + s.col) (some id)
    return { w with grid }
  | none => some w

/-- Empties the place computed for a point if it names the object. -/
def vacate? (w : World) (id : String) (p : Point) : Option World :=
  match w.dims.square? p with
  | some s => do
    let place := s.row * w.dims.gridCols + s.col
    let occupant ← w.grid.squares[place]?
    if occupant = some id then
      let grid ← w.grid.write? place none
      return { w with grid }
    else return w
  | none => some w

/-! ## Operations by place -/

def unfile? (w : World) (id : String) : Option World :=
  match w.find? id with
  | some o => w.vacate? id o.position
  | none => some w

def insert? (w : World) (o : Object) : Option World := do
  let w ← w.unfile? o.id
  let w ← w.file? o.id o.position
  return { w with objects := w.objects.insert o.id o, keyed := w.keyed.insert rfl }

def remove? (w : World) (id : String) : Option World :=
  match w.find? id with
  | none => some w
  | some o => (w.erase id).vacate? id o.position

def modify? (w : World) (id : String) (change : Object → Object)
    (keepsId : ∀ o, (change o).id = o.id) : Option World :=
  match w.find? id with
  | none => some w
  | some before => do
    let after := change before
    let w := w.alter id change keepsId
    if before.position.same after.position then return w
    else
      let w ← w.vacate? id before.position
      w.file? id after.position

def retain? (w : World) (keep : Object → Bool) : Option World :=
  (w.objects.values.filter fun o => !keep o).foldlM (fun w o => w.remove? o.id) w

def rebuildGrid? (w : World) : Option World :=
  w.objects.values.foldlM (fun w o => w.file? o.id o.position) { w with grid := .ofDims w.dims }

def rebuildMaze? (w : World) : Option World := do
  let maze ← Maze.ofObstacles? w.dims w.obstaclePositions
  return { w with maze }

def integrate? (w : World) (dt : Float32) (now : Float) : Option World :=
  let stepped := w.objects.mapValues fun _ o => o.step dt now
  let w := { w with objects := stepped.mapValues fun _ p => p.1, keyed := w.keyed_stepped dt now }
  if (stepped.values.filterMap (·.2)).isEmpty then some w else w.rebuildGrid?

def sweep? (w : World) (now : Float) : Option World :=
  let keep := fun o : Object => !o.isExpired now
  if (w.retain keep).1.isEmpty then some w else do (← w.retain? keep).rebuildMaze?

def reconcile? (w : World) (entries : Table Json) : Option World := do
  let reconciled := { w with objects := w.merged entries, keyed := w.keyed_merged entries }
  (← reconciled.rebuildGrid?).rebuildMaze?

/-- One operation by place, none if a place is outside its array. -/
def perform? (w : World) : Operation → Option World
  | .insert o => w.insert? o
  | .remove id => w.remove? id
  | .modify id change keepsId => w.modify? id change keepsId
  | .retain keep => w.retain? keep
  | .reconcile entries => w.reconcile? entries
  | .sweep now => w.sweep? now
  | .rebuildGrid => w.rebuildGrid?
  | .rebuildMaze => w.rebuildMaze?
  | .integrate dt now => w.integrate? dt now

/-! ## No place is out of range -/

variable {d : Dims} {w : World}

/-- The place computed from the geometry is the place of the square. -/
theorem Shaped.place (h : Shaped d w) (s : Square) :
    s.row * w.dims.gridCols + s.col = w.grid.index s := by
  rw [h.dims, ← h.cols, Grid.index]

theorem Shaped.file? (h : Shaped d w) (id : String) (p : Point) :
    w.file? id p = some (w.file id p) := by
  rw [World.file?, World.file]
  cases hs : w.dims.square? p with
  | none => rfl
  | some s => simp [h.place, Grid.write?_index (h.inBounds hs), Grid.file]

theorem Shaped.vacate? (h : Shaped d w) (id : String) (p : Point) :
    w.vacate? id p = some (w.vacate id p) := by
  rw [World.vacate?, World.vacate]
  cases hs : w.dims.square? p with
  | none => rfl
  | some s =>
      have hb := h.inBounds hs
      simp only [h.place, Grid.getElem?_index hb, Grid.write?_index hb, Option.bind_eq_bind,
        Option.bind_some, Grid.vacate]
      split <;> rfl

theorem Shaped.unfile? (h : Shaped d w) (id : String) : w.unfile? id = some (w.unfile id) := by
  rw [World.unfile?, World.unfile]
  cases w.find? id with
  | none => rfl
  | some o => exact h.vacate? id o.position

theorem Shaped.insert? (h : Shaped d w) (o : Object) : w.insert? o = some (w.insert o) := by
  rw [World.insert?, h.unfile?, Option.bind_eq_bind, Option.bind_some, (h.unfile o.id).file?]
  rfl

theorem Shaped.remove? (h : Shaped d w) (id : String) : w.remove? id = some (w.remove id) := by
  rw [World.remove?, World.remove]
  cases w.find? id with
  | none => rfl
  | some o => exact (h.erase id).vacate? id o.position

theorem Shaped.modify? (h : Shaped d w) (id : String) {change : Object → Object}
    (keepsId : ∀ o, (change o).id = o.id) :
    w.modify? id change keepsId = some (w.modify id change keepsId) := by
  rw [World.modify?, World.modify]
  cases w.find? id with
  | none => rfl
  | some before =>
      have hw := h.alter id keepsId
      dsimp only
      split
      · rfl
      · rw [hw.vacate?]
        exact (hw.vacate id before.position).file? id (change before).position

/-- A fold that cannot fail at any world of the right extent does not fail. -/
theorem Shaped.foldlM {α : Type} {f? : World → α → Option World} {f : World → α → World}
    (hf? : ∀ v a, Shaped d v → f? v a = some (f v a)) (hf : ∀ v a, Shaped d v → Shaped d (f v a))
    (l : List α) (h : Shaped d w) : l.foldlM f? w = some (l.foldl f w) := by
  induction l generalizing w with
  | nil => rfl
  | cons a l ih =>
      rw [List.foldlM_cons, hf? w a h]
      exact ih (hf w a h)

theorem Shaped.retain? (h : Shaped d w) (keep : Object → Bool) :
    w.retain? keep = some (w.retain keep).2 :=
  Shaped.foldlM (fun _ o hv => hv.remove? o.id) (fun _ o hv => hv.remove o.id) _ h

theorem Shaped.rebuildGrid? (h : Shaped d w) : w.rebuildGrid? = some w.rebuildGrid :=
  Shaped.foldlM (fun _ o hv => hv.file? o.id o.position) (fun _ o hv => hv.file o.id o.position)
    _ h.freshGrid

theorem rebuildMaze?_eq_some (w : World) : w.rebuildMaze? = some w.rebuildMaze := by
  simp [rebuildMaze?, Maze.ofObstacles?_eq_some, rebuildMaze]

theorem Shaped.integrate? (h : Shaped d w) (dt : Float32) (now : Float) :
    w.integrate? dt now = some (w.integrate dt now).2 := by
  rw [World.integrate?, World.integrate]
  dsimp only
  split
  · rfl
  · exact (h.withObjects _).rebuildGrid?

theorem Shaped.sweep? (h : Shaped d w) (now : Float) : w.sweep? now = some (w.sweep now).2 := by
  rw [World.sweep?, World.sweep]
  dsimp only
  split
  · rfl
  · rw [h.retain?]
    exact rebuildMaze?_eq_some _

theorem Shaped.reconcile? (h : Shaped d w) (entries : Table Json) :
    w.reconcile? entries = some (w.reconcile entries).2 := by
  rw [World.reconcile?, (h.withObjects _).rebuildGrid?]
  exact rebuildMaze?_eq_some _

theorem Shaped.perform? (h : Shaped d w) (op : Operation) :
    w.perform? op = some (w.perform op) := by
  cases op with
  | insert o => exact h.insert? o
  | remove id => exact h.remove? id
  | modify id _ keepsId => exact h.modify? id keepsId
  | retain keep => exact h.retain? keep
  | reconcile entries => exact h.reconcile? entries
  | sweep now => exact h.sweep? now
  | rebuildGrid => exact h.rebuildGrid?
  | rebuildMaze => exact rebuildMaze?_eq_some w
  | integrate dt now => exact h.integrate? dt now

end World

end TileWorld
