import TileWorld.Proofs.Geometry
import TileWorld.World.Lemmas

/-! # What operations leave alone -/

namespace TileWorld

/-- The time of an object that does not persist has come. -/
def Object.Decayed (o : Object) (now : Float) : Prop :=
  o.persistent = false ∧ ∃ t, o.decay = some t ∧ t ≤ now

theorem Object.isExpired_iff {o : Object} {now : Float} :
    o.isExpired now = true ↔ o.Decayed now := by
  simp [isExpired, Decayed, Option.any_eq_true]

namespace World

/-! ## Geometry and maze -/

@[simp]
theorem dims_vacate (w : World) (id : String) (p : Point) : (w.vacate id p).dims = w.dims := by
  rw [vacate]
  split <;> rfl

@[simp]
theorem maze_vacate (w : World) (id : String) (p : Point) : (w.vacate id p).maze = w.maze := by
  rw [vacate]
  split <;> rfl

@[simp]
theorem dims_file (w : World) (id : String) (p : Point) : (w.file id p).dims = w.dims := by
  rw [file]
  split <;> rfl

@[simp]
theorem maze_file (w : World) (id : String) (p : Point) : (w.file id p).maze = w.maze := by
  rw [file]
  split <;> rfl

@[simp]
theorem dims_unfile (w : World) (id : String) : (w.unfile id).dims = w.dims := by
  rw [unfile]
  split <;> simp

@[simp]
theorem maze_unfile (w : World) (id : String) : (w.unfile id).maze = w.maze := by
  rw [unfile]
  split <;> simp

@[simp]
theorem dims_insert (w : World) (o : Object) : (w.insert o).dims = w.dims := by
  simp [insert]

@[simp]
theorem maze_insert (w : World) (o : Object) : (w.insert o).maze = w.maze := by
  simp [insert]

@[simp]
theorem dims_foldl_insert (w : World) (objects : List Object) :
    (objects.foldl insert w).dims = w.dims :=
  List.foldlRecOn (motive := fun v : World => v.dims = w.dims) _ _ rfl
    fun v hv o _ => (dims_insert v o).trans hv

@[simp]
theorem maze_foldl_insert (w : World) (objects : List Object) :
    (objects.foldl insert w).maze = w.maze :=
  List.foldlRecOn (motive := fun v : World => v.maze = w.maze) _ _ rfl
    fun v hv o _ => (maze_insert v o).trans hv

@[simp]
theorem dims_erase (w : World) (id : String) : (w.erase id).dims = w.dims := rfl

@[simp]
theorem dims_remove (w : World) (id : String) : (w.remove id).dims = w.dims := by
  rw [remove]
  split <;> simp

@[simp]
theorem dims_alter (w : World) (id : String) {change : Object → Object}
    (keepsId : ∀ o, (change o).id = o.id) : (w.alter id change keepsId).dims = w.dims := rfl

@[simp]
theorem maze_alter (w : World) (id : String) {change : Object → Object}
    (keepsId : ∀ o, (change o).id = o.id) : (w.alter id change keepsId).maze = w.maze := rfl

@[simp]
theorem grid_alter (w : World) (id : String) {change : Object → Object}
    (keepsId : ∀ o, (change o).id = o.id) : (w.alter id change keepsId).grid = w.grid := rfl

@[simp]
theorem dims_modify (w : World) (id : String) {change : Object → Object}
    (keepsId : ∀ o, (change o).id = o.id) : (w.modify id change keepsId).dims = w.dims := by
  rw [modify]
  split
  · rfl
  · dsimp only
    split <;> simp

@[simp]
theorem maze_modify (w : World) (id : String) {change : Object → Object}
    (keepsId : ∀ o, (change o).id = o.id) : (w.modify id change keepsId).maze = w.maze := by
  rw [modify]
  split
  · rfl
  · dsimp only
    split <;> simp

/-- An object that stays where it is stays filed where it was, even at a point that does not compare
equal to itself, for there it is not filed at all. -/
theorem grid_modify (w : World) (id : String) {change : Object → Object}
    (keepsId : ∀ o, (change o).id = o.id) (h : ∀ o, (change o).position = o.position) :
    (w.modify id change keepsId).grid = w.grid := by
  rw [modify]
  split
  · rfl
  · rename_i o _
    dsimp only
    rw [h]
    split
    · rfl
    · rename_i hsame
      have hnone : w.dims.square? o.position = none :=
        Dims.square?_of_not_same w.dims (Bool.eq_false_iff.mpr hsame)
      simp only [file, vacate, dims_alter, grid_alter, hnone]

@[simp]
theorem dims_rebuildGrid (w : World) : w.rebuildGrid.dims = w.dims :=
  List.foldlRecOn (motive := fun v : World => v.dims = w.dims) _ _ rfl
    fun v hv o _ => (dims_file v o.id o.position).trans hv

@[simp]
theorem maze_rebuildGrid (w : World) : w.rebuildGrid.maze = w.maze :=
  List.foldlRecOn (motive := fun v : World => v.maze = w.maze) _ _ rfl
    fun v hv o _ => (maze_file v o.id o.position).trans hv

@[simp]
theorem dims_integrate (w : World) (dt : Float32) (now : Float) :
    (w.integrate dt now).2.dims = w.dims := by
  rw [integrate]
  dsimp only
  split <;> simp

@[simp]
theorem maze_integrate (w : World) (dt : Float32) (now : Float) :
    (w.integrate dt now).2.maze = w.maze := by
  rw [integrate]
  dsimp only
  split <;> simp

@[simp]
theorem dims_retain (w : World) (keep : Object → Bool) : (w.retain keep).2.dims = w.dims :=
  List.foldlRecOn (motive := fun v : World => v.dims = w.dims) _ _ rfl
    fun v hv o _ => (dims_remove v o.id).trans hv

/-! ## Objects -/

theorem find?_foldl_insert (w : World) (objects : List Object) (id : String) :
    (objects.foldl insert w).find? id = (objects.reverse.find? (·.id = id)).or (w.find? id) := by
  induction objects generalizing w with
  | nil => rfl
  | cons o objects ih =>
      rw [List.foldl_cons, ih, find?_insert, List.reverse_cons, List.find?_append, Option.or_assoc]
      by_cases ho : o.id = id
      · simp [ho]
      · simp [ho, Ne.symm ho]

theorem find?_foldl_insert_of_forall_ne {objects : List Object} {id : String}
    (h : ∀ o ∈ objects, o.id ≠ id) (w : World) :
    (objects.foldl insert w).find? id = w.find? id := by
  have hnone : objects.reverse.find? (·.id = id) = none :=
    List.find?_eq_none.mpr fun x hx => by simpa using h x (List.mem_reverse.mp hx)
  rw [find?_foldl_insert, hnone, Option.none_or]

theorem find?_foldl_insert_of_mem {objects : List Object} (h : (objects.map (·.id)).Nodup)
    {o : Object} (ho : o ∈ objects) (w : World) :
    (objects.foldl insert w).find? o.id = some o := by
  induction objects generalizing w with
  | nil => cases ho
  | cons first objects ih =>
      obtain ⟨hfirst, hrest⟩ := List.nodup_cons.mp h
      rcases List.mem_cons.mp ho with rfl | ho
      · have hne : ∀ x ∈ objects, x.id ≠ o.id := fun x hx hid =>
          hfirst (List.mem_map.mpr ⟨x, hx, hid⟩)
        rw [List.foldl_cons, find?_foldl_insert_of_forall_ne hne, find?_insert, if_pos rfl]
      · exact ih hrest ho _

theorem objects_insert (w : World) (o : Object) :
    (w.insert o).objects = w.objects.insert o.id o := by
  refine Table.ext_find? fun id => ?_
  rw [Table.find?_insert]
  exact find?_insert w o id

/-- Once it is taken away again, an object under a new id has changed none of the others. -/
theorem erase_objects_insert {w : World} {o : Object} (h : w.find? o.id = none) :
    (w.insert o).objects.erase o.id = w.objects := by
  refine Table.ext_find? fun id => ?_
  rw [Table.find?_erase, objects_insert, Table.find?_insert]
  split
  · rename_i hid
    rw [hid]
    exact h.symm
  · rfl

theorem unfile_eq_self {w : World} {id : String} (h : w.find? id = none) : w.unfile id = w := by
  rw [unfile, h]

theorem grid_insert_of_new {w : World} {o : Object} (h : w.find? o.id = none) :
    (w.insert o).grid = (w.file o.id o.position).grid := by
  simp only [insert, unfile_eq_self h]

private theorem new_insert {w : World} {first : Object} {objects : List Object}
    (hfirst : first.id ∉ objects.map (·.id)) (hnew : ∀ o ∈ objects, w.find? o.id = none) :
    ∀ o ∈ objects, (w.insert first).find? o.id = none := by
  intro o ho
  rw [find?_insert, if_neg, hnew o ho]
  exact fun hid => hfirst (hid ▸ List.mem_map_of_mem ho)

theorem size_foldl_insert {objects : List Object} (h : (objects.map (·.id)).Nodup) {w : World}
    (hnew : ∀ o ∈ objects, w.find? o.id = none) :
    (objects.foldl insert w).size = w.size + objects.length := by
  induction objects generalizing w with
  | nil => rfl
  | cons first objects ih =>
      obtain ⟨hfirst, hrest⟩ := List.nodup_cons.mp h
      obtain ⟨hnewFirst, hnewRest⟩ := List.forall_mem_cons.mp hnew
      have hsize : (w.insert first).size = w.size + 1 := by
        rw [size, objects_insert]
        exact Table.size_insert hnewFirst first
      rw [List.foldl_cons, ih hrest (new_insert hfirst hnewRest), hsize, List.length_cons]
      omega

theorem occupant?_file_of_ne {w : World} (id : String) {p : Point} {s : Square}
    (h : w.dims.square? p ≠ some s) : (w.file id p).grid.occupant? s = w.grid.occupant? s := by
  rw [file]
  split
  · rename_i t ht
    rw [Grid.occupant?_file, if_neg]
    rintro ⟨rfl, -⟩
    exact h ht
  · rfl

/-- New objects take their own squares and leave every other one as it is. -/
theorem occupant?_foldl_insert {objects : List Object} (h : (objects.map (·.id)).Nodup) {w : World}
    (hnew : ∀ o ∈ objects, w.find? o.id = none) {s : Square}
    (hs : ∀ o ∈ objects, w.dims.square? o.position ≠ some s) :
    (objects.foldl insert w).grid.occupant? s = w.grid.occupant? s := by
  induction objects generalizing w with
  | nil => rfl
  | cons first objects ih =>
      obtain ⟨hfirst, hrest⟩ := List.nodup_cons.mp h
      obtain ⟨hnewFirst, hnewRest⟩ := List.forall_mem_cons.mp hnew
      obtain ⟨hsFirst, hsRest⟩ := List.forall_mem_cons.mp hs
      rw [List.foldl_cons, ih hrest (new_insert hfirst hnewRest) (by simpa using hsRest),
        grid_insert_of_new hnewFirst]
      exact occupant?_file_of_ne first.id hsFirst

section

variable {change : Object → Object}

theorem modify_eq_self {w : World} {id : String} (h : w.find? id = none)
    (keepsId : ∀ o, (change o).id = o.id) : w.modify id change keepsId = w := by
  rw [modify, h]

theorem find?_modify_eq_map (w : World) (id : String) (keepsId : ∀ o, (change o).id = o.id)
    (other : String) :
    (w.modify id change keepsId).find? other =
      (w.find? other).map fun o => if other = id then change o else o := by
  rw [find?_modify]
  split <;> simp

theorem objects_modify (w : World) (id : String) (keepsId : ∀ o, (change o).id = o.id) :
    (w.modify id change keepsId).objects = w.objects.modify id change := by
  refine Table.ext_find? fun other => ?_
  rw [Table.find?_modify]
  exact find?_modify w id other keepsId

theorem size_modify (w : World) (id : String) (keepsId : ∀ o, (change o).id = o.id) :
    (w.modify id change keepsId).size = w.size := by
  rw [size, objects_modify]
  exact Table.size_mapValues ..

end

theorem objects_integrate (w : World) (dt : Float32) (now : Float) :
    (w.integrate dt now).2.objects = w.objects.mapValues fun _ o => (o.step dt now).1 := by
  refine Table.ext_find? fun id => ?_
  rw [integrate]
  dsimp only
  split <;> simp [Function.comp_def]

theorem find?_integrate (w : World) (dt : Float32) (now : Float) (id : String) :
    (w.integrate dt now).2.find? id = (w.find? id).map fun o => (o.step dt now).1 := by
  rw [find?, objects_integrate, Table.find?_mapValues]
  rfl

/-- Obstacles that are left as they are, while nothing becomes one, stand where they stood. -/
theorem obstaclePositions_mapValues {v w : World} {f : String → Object → Object}
    (hobjects : v.objects = w.objects.mapValues f)
    (hobstacle : ∀ id o, w.find? id = some o → (f id o).obstacle = o.obstacle)
    (hstill : ∀ id o, w.find? id = some o → o.obstacle = true → f id o = o) :
    v.obstaclePositions = w.obstaclePositions := by
  have hfind : ∀ e ∈ w.objects.entries, w.find? e.1 = some e.2 := fun e he =>
    Table.find?_eq_some_of_mem he
  simp only [obstaclePositions, Table.values, hobjects, Table.mapValues, Entries.mapValues,
    List.map_map]
  generalize w.objects.entries = entries at hfind
  induction entries with
  | nil => rfl
  | cons e entries ih =>
      have he := hfind e List.mem_cons_self
      have hrest := ih fun x hx => hfind x (List.mem_cons_of_mem e hx)
      by_cases ho : e.2.obstacle = true
      · simp [hstill e.1 e.2 he ho, ho, hrest]
      · simp [hobstacle e.1 e.2 he, ho, hrest]

/-! ## Decay -/

section

variable {w : World} {now : Float}

/-- The object with this id has decayed. -/
def Decayed (w : World) (now : Float) (id : String) : Prop :=
  ∃ o, w.find? id = some o ∧ o.Decayed now

theorem mem_expired_iff {id : String} :
    id ∈ ((w.retain fun o => !o.isExpired now).1.map (·.id)) ↔ w.Decayed now id := by
  rw [retain, mem_ids_filter_iff]
  simp [Decayed, Object.isExpired_iff]

/-- Without anything to remove not even the maze is rebuilt. -/
theorem sweep_eq_self (h : ∀ id, ¬ w.Decayed now id) : w.sweep now = ([], w) := by
  have hnone : (w.retain fun o => !o.isExpired now).1 = [] := by
    refine List.eq_nil_iff_forall_not_mem.mpr fun o ho => h o.id ?_
    exact mem_expired_iff.mp (List.mem_map_of_mem ho)
  rw [sweep]
  simp only [hnone, List.isEmpty_nil, if_true]

theorem sweep_of_decayed {id : String} (h : w.Decayed now id) :
    (w.sweep now).2 = (w.retain fun o => !o.isExpired now).2.rebuildMaze := by
  have hsome : (w.retain fun o => !o.isExpired now).1 ≠ [] := by
    obtain ⟨o, ho, -⟩ := List.mem_map.mp (mem_expired_iff.mpr h)
    exact List.ne_nil_of_mem ho
  rw [sweep]
  simp only [List.isEmpty_eq_false_iff.mpr hsome, Bool.false_eq_true, if_false]

theorem dims_sweep (w : World) (now : Float) : (w.sweep now).2.dims = w.dims := by
  rw [sweep]
  dsimp only
  split
  · rfl
  · exact dims_retain ..

end

end World

end TileWorld
