import TileWorld.World.Basic

/-! Which object each id names after an operation on a world. -/

namespace TileWorld.World

@[simp]
theorem objects_vacate (w : World) (id : String) (p : Point) :
    (w.vacate id p).objects = w.objects := by
  unfold vacate; split <;> rfl

@[simp]
theorem objects_file (w : World) (id : String) (p : Point) :
    (w.file id p).objects = w.objects := by
  unfold file; split <;> rfl

@[simp]
theorem objects_unfile (w : World) (id : String) : (w.unfile id).objects = w.objects := by
  unfold unfile; split <;> simp

@[simp]
theorem objects_erase (w : World) (id : String) : (w.erase id).objects = w.objects.erase id := rfl

@[simp]
theorem objects_alter (w : World) (id : String) {change : Object → Object}
    (keepsId : ∀ o, (change o).id = o.id) :
    (w.alter id change keepsId).objects = w.objects.modify id change := rfl

theorem find?_insert (w : World) (o : Object) (id : String) :
    (w.insert o).find? id = if id = o.id then some o else w.find? id := by
  simp [insert, find?]

theorem find?_remove (w : World) (id other : String) :
    (w.remove id).find? other = if other = id then none else w.find? other := by
  unfold remove
  split
  · rename_i h
    by_cases ho : other = id
    · simpa [ho] using h
    · simp [ho]
  · simp [find?]

theorem find?_modify (w : World) (id other : String) {change : Object → Object}
    (keepsId : ∀ o, (change o).id = o.id) :
    (w.modify id change keepsId).find? other =
      if other = id then (w.find? other).map change else w.find? other := by
  unfold modify
  split
  · rename_i h
    by_cases ho : other = id
    · simp [ho, h]
    · simp [ho]
  · dsimp only
    split <;> simp [find?]

@[simp]
theorem objects_rebuildGrid (w : World) : w.rebuildGrid.objects = w.objects := by
  unfold rebuildGrid
  exact List.foldlRecOn (motive := fun v : World => v.objects = w.objects) _ _ rfl
    fun v hv o _ => (objects_file v o.id o.position).trans hv

@[simp]
theorem objects_rebuildMaze (w : World) : w.rebuildMaze.objects = w.objects := rfl

theorem id_eq_of_find? {w : World} {id : String} {o : Object} (h : w.find? id = some o) :
    o.id = id :=
  w.keyed id o h

theorem mem_values_iff {w : World} {o : Object} : o ∈ w.objects.values ↔ w.find? o.id = some o := by
  rw [Table.mem_values]
  constructor
  · rintro ⟨id, ho⟩
    rw [w.keyed id o ho]
    exact ho
  · exact fun ho => ⟨o.id, ho⟩

theorem pairwise_values (w : World) : w.objects.values.Pairwise fun o p => o.id < p.id := by
  have hkeys : w.objects.keys.Pairwise (· < ·) := List.pairwise_map.2 w.objects.ascending
  rw [← w.keyed.map_id_values] at hkeys
  exact List.pairwise_map.1 hkeys

private theorem find?_removeAll (doomed : List Object) (w : World) (id : String) :
    (doomed.foldl (fun w o => w.remove o.id) w).find? id =
      if id ∈ doomed.map (·.id) then none else w.find? id := by
  induction doomed generalizing w with
  | nil => simp
  | cons o rest ih =>
    rw [List.foldl_cons, ih, find?_remove]
    by_cases hr : id ∈ rest.map (·.id) <;> by_cases ho : id = o.id <;> simp [hr, ho]

theorem mem_ids_filter_iff {w : World} {p : Object → Bool} {id : String} :
    id ∈ (w.objects.values.filter p).map (·.id) ↔ ∃ o, w.find? id = some o ∧ p o = true := by
  simp only [List.mem_map, List.mem_filter, mem_values_iff]
  constructor
  · rintro ⟨o, ⟨ho, hp⟩, rfl⟩
    exact ⟨o, ho, hp⟩
  · rintro ⟨o, ho, hp⟩
    obtain rfl := id_eq_of_find? ho
    exact ⟨o, ⟨ho, hp⟩, rfl⟩

theorem find?_retain (w : World) (keep : Object → Bool) (id : String) :
    (w.retain keep).2.find? id = (w.find? id).filter keep := by
  unfold retain
  rw [find?_removeAll]
  cases h : w.find? id with
  | none => simp
  | some o => cases hk : keep o <;> simp [mem_ids_filter_iff, h, hk, Option.filter]

theorem snapshot_eq (w : World) :
    w.snapshot = (w.objects.filter fun _ o => o.persistent).mapValues fun _ o => o.toJson := by
  refine Eq.trans ?_ (Table.ofList_entries _)
  have hentries := (w.keyed.filter fun _ o => o.persistent).entries_eq
  rw [Table.values_filter] at hentries
  simp only [snapshot, Table.mapValues, Entries.mapValues, hentries, List.map_map]
  rfl

/-- A snapshot tells of each persistent object under its id. -/
theorem find?_snapshot (w : World) (id : String) :
    w.snapshot.find? id = ((w.find? id).filter (·.persistent)).map Object.toJson := by
  rw [snapshot_eq, Table.find?_mapValues, Table.find?_filter]
  rfl

end TileWorld.World
