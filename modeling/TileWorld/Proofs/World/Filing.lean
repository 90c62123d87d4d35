import Mathlib.Data.List.Induction
import Mathlib.Data.String.Basic
import Mathlib.Order.Bounds.Basic
import TileWorld.Proofs.World.Checked

/-! Objects and the squares that name them. No square names an object that does not stand there; a
rebuilt grid is exact. -/

namespace TileWorld.World

variable {d : Dims} {w : World}

/-! ## Filing and vacating -/

theorem occupant?_vacate (w : World) (id : String) (p : Point) (s : Square) :
    (w.vacate id p).grid.occupant? s =
      if w.dims.square? p = some s ∧ w.grid.occupant? s = some id then none
      else w.grid.occupant? s := by
  rw [vacate]
  cases hp : w.dims.square? p with
  | none => simp
  | some t =>
      rw [Grid.occupant?_vacate]
      by_cases hst : s = t
      · simp [hst]
      · simp [hst, Ne.symm hst]

theorem grid_vacate_congr {v w : World} (hdims : v.dims = w.dims) (hgrid : v.grid = w.grid)
    (id : String) (p : Point) : (v.vacate id p).grid = (w.vacate id p).grid := by
  rw [vacate, vacate, hdims]
  split
  · simp only [hgrid]
  · exact hgrid

theorem Shaped.occupant?_file (h : Shaped d w) (id : String) (p : Point) (s : Square) :
    (w.file id p).grid.occupant? s =
      if w.dims.square? p = some s then some id else w.grid.occupant? s := by
  rw [World.file]
  cases hp : w.dims.square? p with
  | none => simp
  | some t =>
      rw [Grid.occupant?_file, h.inBounds hp]
      by_cases hst : s = t
      · simp [hst]
      · simp [hst, Ne.symm hst]

/-! ## A rebuilt grid -/

/-- Filing one object after the other into an empty grid leaves in a square the last that belongs
there. -/
private theorem occupant?_fileAll (h : Shaped d w) (hempty : ∀ s, w.grid.occupant? s = none)
    (objects : List Object) (s : Square) :
    (objects.foldl (fun w o => w.file o.id o.position) w).grid.occupant? s =
      (objects.filter fun o => d.square? o.position = some s).getLast?.map (·.id) := by
  induction objects using List.reverseRecOn with
  | nil => exact hempty s
  | append_singleton objects o ih =>
      have hshaped : Shaped d (objects.foldl (fun w o => w.file o.id o.position) w) :=
        List.foldlRecOn _ _ h fun _ hv _ _ => hv.file _ _
      rw [List.foldl_append, List.foldl_cons, List.foldl_nil, hshaped.occupant?_file, hshaped.dims,
        List.filter_append]
      by_cases ho : d.square? o.position = some s
      · simp [ho]
      · simp [ho, ih]

theorem Shaped.occupant?_rebuildGrid (h : Shaped d w) (s : Square) :
    w.rebuildGrid.grid.occupant? s =
      (w.objects.values.filter fun o => d.square? o.position = some s).getLast?.map (·.id) :=
  occupant?_fileAll h.freshGrid (fun s => Grid.occupant?_ofDims w.dims s) w.objects.values s

theorem Shaped.located_iff (h : Shaped d w) {id : String} {s : Square} :
    w.Located id s ↔
      id ∈ (w.objects.values.filter fun o => d.square? o.position = some s).map (·.id) := by
  rw [mem_ids_filter_iff, Located, h.dims]
  simp

/-- After a rebuild a square names the greatest id of those that stand there. -/
theorem Shaped.occupant?_rebuildGrid_eq_some (h : Shaped d w) (s : Square) (id : String) :
    w.rebuildGrid.grid.occupant? s = some id ↔ IsGreatest {i | w.Located i s} id := by
  have hset : {i | w.Located i s} =
      {i | i ∈ (w.objects.values.filter fun o => d.square? o.position = some s).map (·.id)} :=
    Set.ext fun i => h.located_iff
  have hasc := w.pairwise_values.filter fun o => d.square? o.position = some s
  rw [h.occupant?_rebuildGrid, hset, Option.map_eq_some_iff]
  generalize w.objects.values.filter _ = here at hasc
  have hgreatest : ∀ o, here.getLast? = some o → IsGreatest {i | i ∈ here.map (·.id)} o.id := by
    intro o ho
    obtain ⟨before, rfl⟩ := List.getLast?_eq_some_iff.mp ho
    refine ⟨List.mem_map_of_mem (by simp), ?_⟩
    rintro i hi
    obtain ⟨x, hx, rfl⟩ := List.mem_map.mp hi
    rcases List.mem_append.mp hx with hx | hx
    · exact ((List.pairwise_append.mp hasc).2.2 x hx o (by simp)).le
    · rw [List.mem_singleton.mp hx]
  constructor
  · rintro ⟨o, ho, rfl⟩
    exact hgreatest o ho
  · intro hid
    obtain ⟨x, hx, -⟩ := List.mem_map.mp hid.1
    obtain ⟨o, ho⟩ := Option.isSome_iff_exists.mp
      (List.getLast?_isSome.mpr (List.ne_nil_of_mem hx))
    exact ⟨o, ho, (hgreatest o ho).unique hid⟩

theorem Shaped.occupant?_rebuildGrid_eq_none (h : Shaped d w) (s : Square) :
    w.rebuildGrid.grid.occupant? s = none ↔ ∀ id, ¬ w.Located id s := by
  simp only [h.occupant?_rebuildGrid, Option.map_eq_none_iff, List.getLast?_eq_none_iff,
    h.located_iff, ← List.eq_nil_iff_forall_not_mem, List.map_eq_nil_iff]

theorem located_rebuildGrid {id : String} {s : Square} :
    w.rebuildGrid.Located id s ↔ w.Located id s := by
  simp only [Located, find?, objects_rebuildGrid, dims_rebuildGrid]

/-- Every square of a grid that has just been rebuilt names the greatest id of those that stand
there, if any does. -/
theorem Shaped.exact_rebuildGrid (h : Shaped d w) (s : Square) :
    (∀ id, w.rebuildGrid.grid.occupant? s = some id ↔
        IsGreatest {i | w.rebuildGrid.Located i s} id) ∧
      (w.rebuildGrid.grid.occupant? s = none ↔ ∀ id, ¬ w.rebuildGrid.Located id s) := by
  simp only [located_rebuildGrid]
  exact ⟨h.occupant?_rebuildGrid_eq_some s, h.occupant?_rebuildGrid_eq_none s⟩

/-! ## Names in squares -/

/-- Every name in a square is that of an object which stands there. -/
def Filed (w : World) : Prop :=
  ∀ s id, w.grid.occupant? s = some id → w.Located id s

theorem filed_empty (d : Dims) : Filed (.empty d) := by
  intro s id hs
  simp [empty] at hs

theorem Located.square?_eq_some {id : String} {s : Square} {o : Object} (h : w.Located id s)
    (ho : w.find? id = some o) : w.dims.square? o.position = some s := by
  obtain ⟨x, hx, hs⟩ := h
  rw [ho, Option.some_inj] at hx
  rw [hx, hs]

theorem Filed.ne_of_find?_eq_none (hf : Filed w) {id other : String} {s : Square}
    (hnone : w.find? id = none) (hs : w.grid.occupant? s = some other) : other ≠ id := by
  rintro rfl
  obtain ⟨o, ho, -⟩ := hf s other hs
  rw [hnone] at ho
  cases ho

/-- An object is named by no square but its own, so once it is vacated from where it stands the
names that are left are those of others. -/
theorem Filed.occupant?_vacate_eq_some (hf : Filed w) {id other : String} {old : Object}
    {s : Square} (hold : w.find? id = some old) :
    (w.vacate id old.position).grid.occupant? s = some other ↔
      w.grid.occupant? s = some other ∧ other ≠ id := by
  rw [occupant?_vacate]
  constructor
  · intro hs
    split at hs
    · cases hs
    · rename_i hkept
      refine ⟨hs, ?_⟩
      rintro rfl
      exact hkept ⟨(hf s other hs).square?_eq_some hold, hs⟩
  · rintro ⟨hs, hne⟩
    rw [if_neg]
    · exact hs
    · rintro ⟨-, hid⟩
      rw [hs, Option.some_inj] at hid
      exact hne hid

/-! ## Insertion, removal and change of one object -/

section

variable {id : String} {s : Square}

theorem located_insert {o : Object} :
    (w.insert o).Located id s ↔
      if id = o.id then w.dims.square? o.position = some s else w.Located id s := by
  rw [Located, find?_insert, dims_insert]
  split <;> simp [Located]

theorem located_remove {removed : String} :
    (w.remove removed).Located id s ↔ w.Located id s ∧ id ≠ removed := by
  simp only [Located, find?_remove, dims_remove]
  split <;> simp [*]

theorem located_modify {changed : String} {change : Object → Object}
    (keepsId : ∀ o, (change o).id = o.id) :
    (w.modify changed change keepsId).Located id s ↔
      if id = changed then
        ∃ o, w.find? changed = some o ∧ w.dims.square? (change o).position = some s
      else w.Located id s := by
  simp only [Located, find?_modify, dims_modify]
  split <;> simp [*]

/-- Once an object is taken from its square, the names that are left are those of others. -/
theorem Filed.occupant?_unfile (hf : Filed w) {unfiled : String} :
    (w.unfile unfiled).grid.occupant? s = some id ↔
      w.grid.occupant? s = some id ∧ id ≠ unfiled := by
  cases hold : w.find? unfiled with
  | none =>
      rw [unfile_eq_self hold]
      exact (and_iff_left_of_imp (hf.ne_of_find?_eq_none hold)).symm
  | some o =>
      rw [unfile, hold]
      exact hf.occupant?_vacate_eq_some hold

theorem Filed.occupant?_insert (hf : Filed w) (h : Shaped d w) (o : Object) :
    (w.insert o).grid.occupant? s = some id ↔
      if w.dims.square? o.position = some s then id = o.id
      else w.grid.occupant? s = some id ∧ id ≠ o.id := by
  have hgrid : (w.insert o).grid = ((w.unfile o.id).file o.id o.position).grid := rfl
  rw [hgrid, (h.unfile o.id).occupant?_file, dims_unfile]
  split
  · rw [Option.some_inj, eq_comm]
  · exact hf.occupant?_unfile

/-- An object that is removed is named by no square, for it was named by none but its own. -/
theorem Filed.occupant?_remove (hf : Filed w) (removed : String) :
    (w.remove removed).grid.occupant? s = some id ↔
      w.grid.occupant? s = some id ∧ id ≠ removed := by
  have hgrid : (w.remove removed).grid = (w.unfile removed).grid := by
    rw [World.remove, World.unfile]
    cases w.find? removed with
    | none => rfl
    | some o => exact grid_vacate_congr (dims_erase w removed) rfl removed o.position
  rw [hgrid, hf.occupant?_unfile]

theorem grid_modify_of_same {changed : String} {change : Object → Object}
    (keepsId : ∀ o, (change o).id = o.id) {o : Object} (ho : w.find? changed = some o)
    (hsame : o.position.same (change o).position = true) :
    (w.modify changed change keepsId).grid = w.grid := by
  simp only [World.modify, ho, hsame, if_true, grid_alter]

theorem Filed.occupant?_modify (hf : Filed w) (h : Shaped d w) {changed : String}
    {change : Object → Object} (keepsId : ∀ o, (change o).id = o.id) {o : Object}
    (ho : w.find? changed = some o) (hmoved : o.position.same (change o).position = false) :
    (w.modify changed change keepsId).grid.occupant? s = some id ↔
      if w.dims.square? (change o).position = some s then id = changed
      else w.grid.occupant? s = some id ∧ id ≠ changed := by
  rw [World.modify, ho]
  have hshaped := (h.alter changed keepsId).vacate changed o.position
  simp only [hmoved, Bool.false_eq_true, if_false, hshaped.occupant?_file, dims_vacate, dims_alter]
  split
  · rw [Option.some_inj, eq_comm]
  · rw [grid_vacate_congr (dims_alter w changed keepsId) (grid_alter w changed keepsId)]
    exact hf.occupant?_vacate_eq_some ho

end

/-! ## Operations -/

/-- What a square names after an insertion was there before, unless it names the new object. -/
theorem Filed.insert (hf : Filed w) (h : Shaped d w) (o : Object) : Filed (w.insert o) := by
  intro s id hs
  rw [hf.occupant?_insert h] at hs
  rw [located_insert]
  split at hs
  · rename_i ho
    rwa [if_pos hs]
  · rw [if_neg hs.2]
    exact hf s id hs.1

theorem Filed.remove (hf : Filed w) (id : String) : Filed (w.remove id) := by
  intro s other hs
  obtain ⟨hs, hne⟩ := (hf.occupant?_remove id).mp hs
  exact located_remove.mpr ⟨hf s other hs, hne⟩

/-- Positions that compare equal lie in one square, so an object that hardly moved is still filed
where it stands. -/
theorem Filed.modify (hf : Filed w) (h : Shaped d w) (id : String) {change : Object → Object}
    (keepsId : ∀ o, (change o).id = o.id) : Filed (w.modify id change keepsId) := by
  intro s other hs
  cases ho : w.find? id with
  | none =>
      rw [modify_eq_self ho] at hs ⊢
      exact hf s other hs
  | some o =>
      rw [located_modify]
      cases hsame : o.position.same (change o).position with
      | true =>
          rw [grid_modify_of_same keepsId ho hsame] at hs
          split
          · rename_i hid
            subst hid
            exact ⟨o, ho, (Dims.square?_of_same _ hsame).symm.trans
              ((hf s other hs).square?_eq_some ho)⟩
          · exact hf s other hs
      | false =>
          rw [hf.occupant?_modify h keepsId ho hsame] at hs
          split at hs
          · rename_i hnew
            rw [if_pos hs]
            exact ⟨o, ho, hnew⟩
          · rw [if_neg hs.2]
            exact hf s other hs.1

theorem Filed.retain (hf : Filed w) (keep : Object → Bool) : Filed (w.retain keep).2 :=
  List.foldlRecOn _ _ hf fun _ hv _ _ => hv.remove _

theorem Shaped.filed_rebuildGrid (h : Shaped d w) : Filed w.rebuildGrid := by
  intro s id hs
  exact located_rebuildGrid.mpr ((h.occupant?_rebuildGrid_eq_some s id).mp hs).1

/-- A world in which nothing moves is left as it is. -/
theorem integrate_eq_self {dt : Float32} {now : Float} (hstill : (w.integrate dt now).1 = []) :
    (w.integrate dt now).2 = w := by
  have hmotions : ∀ id o, w.find? id = some o → (o.step dt now).2 = none := by
    intro id o ho
    have hmem : o.step dt now ∈ (w.objects.mapValues fun _ o => o.step dt now).values :=
      List.mem_map.mpr ⟨(id, o.step dt now),
        Table.mem_of_find?_eq_some (by simp [show w.objects.find? id = some o from ho]), rfl⟩
    exact List.filterMap_eq_nil_iff.mp hstill _ hmem
  have hobjects : ((w.objects.mapValues fun _ o => o.step dt now).mapValues fun _ p => p.1) =
      w.objects := by
    refine Table.ext_find? fun id => ?_
    rw [Table.find?_mapValues, Table.find?_mapValues]
    cases ho : w.objects.find? id with
    | none => rfl
    | some o => simp [Object.step_eq_self (hmotions id o ho)]
  have hempty : (((w.objects.mapValues fun _ o => o.step dt now).values.filterMap (·.2))).isEmpty =
      true :=
    List.isEmpty_iff.mpr hstill
  simp only [World.integrate, hempty, if_true, hobjects]

theorem integrate_of_ne_nil {dt : Float32} {now : Float} (h : (w.integrate dt now).1 ≠ []) :
    ∃ objects keyed, (w.integrate dt now).2 = rebuildGrid { w with objects, keyed } := by
  have hne : ((w.objects.mapValues fun _ o => o.step dt now).values.filterMap (·.2)).isEmpty =
      false :=
    List.isEmpty_eq_false_iff.mpr h
  exact ⟨(w.objects.mapValues fun _ o => o.step dt now).mapValues fun _ p => p.1,
    w.keyed_stepped dt now, by simp only [integrate, hne, Bool.false_eq_true, if_false]⟩

theorem Filed.integrate (hf : Filed w) (h : Shaped d w) (dt : Float32) (now : Float) :
    Filed (w.integrate dt now).2 := by
  by_cases hstill : (w.integrate dt now).1 = []
  · rw [integrate_eq_self hstill]
    exact hf
  · obtain ⟨objects, keyed, hrebuilt⟩ := integrate_of_ne_nil hstill
    rw [hrebuilt]
    exact (h.withObjects keyed).filed_rebuildGrid

theorem Filed.sweep (hf : Filed w) (now : Float) : Filed (w.sweep now).2 := by
  rw [World.sweep]
  dsimp only
  split
  · exact hf
  · exact hf.retain _

theorem Filed.perform (hf : Filed w) (h : Shaped d w) (op : Operation) :
    Filed (w.perform op) := by
  cases op with
  | insert o => exact hf.insert h o
  | remove id => exact hf.remove id
  | modify id _ keepsId => exact hf.modify h id keepsId
  | retain keep => exact hf.retain keep
  | reconcile entries => exact (h.withObjects _).filed_rebuildGrid
  | sweep now => exact hf.sweep now
  | rebuildGrid => exact h.filed_rebuildGrid
  | rebuildMaze => exact hf
  | integrate dt now => exact hf.integrate h dt now

theorem Reachable.filed (h : Reachable d w) : Filed w := by
  induction h with
  | empty => exact filed_empty d
  | perform op hw ih => exact ih.perform hw.shaped op

/-! ## Soundness of the grid -/

theorem exists_square (g : Grid) {place : Nat} (h : place < g.squares.size) :
    ∃ s, g.inBounds s = true ∧ g.index s = place := by
  rw [g.size_squares] at h
  have hcols : 0 < g.cols := Nat.pos_of_mul_pos_right (Nat.zero_lt_of_lt h)
  refine ⟨⟨place % g.cols, place / g.cols⟩, ?_, Nat.div_add_mod' place g.cols⟩
  rw [Grid.inBounds_iff]
  exact ⟨Nat.mod_lt place hcols, Nat.div_lt_of_lt_mul h⟩

/-- What the grid of a world promises. It speaks of the flat array, whose places belong to the
squares row by row. -/
structure Sound (d : Dims) (w : World) : Prop where
  dims : w.dims = d
  /-- A name is that of an object in the table whose position maps to that very square. -/
  named : ∀ (place : Nat) (id : String), w.grid.squares[place]? = some (some id) →
    ∃ o s, w.find? id = some o ∧ o.id = id ∧ d.square? o.position = some s ∧
      place = s.row * d.gridCols + s.col
  removed : ∀ (id : String), w.find? id = none → ∀ place : Nat,
    w.grid.squares[place]? ≠ some (some id)
  once : ∀ (id : String) (place other : Nat), w.grid.squares[place]? = some (some id) →
    w.grid.squares[other]? = some (some id) → place = other
  squares : w.grid.squares.size = d.gridCols * d.gridRows
  tiles : w.maze.tiles.size = d.mazeRows * d.mazeCols
  /-- Every square that a point maps to has a place. -/
  inRange : ∀ p s, d.square? p = some s → s.row * d.gridCols + s.col < w.grid.squares.size
  /-- No operation fails at a place outside an array. -/
  checked : ∀ op, w.perform? op = some (w.perform op)

/-- However operations follow one another, the grid is sound. -/
theorem Reachable.grid_sound (h : Reachable d w) : Sound d w := by
  have hshaped := h.shaped
  have hnamed : ∀ (place : Nat) (id : String), w.grid.squares[place]? = some (some id) →
      ∃ o s, w.find? id = some o ∧ o.id = id ∧ d.square? o.position = some s ∧
        place = s.row * d.gridCols + s.col := by
    intro place id hplace
    obtain ⟨s, hs, rfl⟩ := exists_square w.grid (Array.getElem?_eq_some_iff.mp hplace).1
    rw [Grid.getElem?_index hs, Option.some_inj] at hplace
    obtain ⟨o, ho, hso⟩ := h.filed s id hplace
    rw [hshaped.dims] at hso
    refine ⟨o, s, ho, w.keyed id o ho, hso, ?_⟩
    rw [← hshaped.place, hshaped.dims]
  refine ⟨hshaped.dims, hnamed, ?_, ?_, ?_, ?_, ?_, hshaped.perform?⟩
  · intro id hid place hplace
    obtain ⟨o, s, ho, -, -, -⟩ := hnamed place id hplace
    simp [hid] at ho
  · intro id place other hplace hother
    obtain ⟨o, s, ho, -, hs, rfl⟩ := hnamed place id hplace
    obtain ⟨x, t, hx, -, ht, rfl⟩ := hnamed other id hother
    rw [ho, Option.some_inj] at hx
    subst hx
    rw [hs, Option.some_inj] at ht
    rw [ht]
  · rw [w.grid.size_squares, hshaped.cols, hshaped.rows]
  · rw [w.maze.size_tiles, hshaped.mazeRows, hshaped.mazeCols]
  · intro p s hs
    have hb := hshaped.inBounds (hshaped.dims.symm ▸ hs)
    have hlt := Grid.index_lt hb
    rwa [← hshaped.place, hshaped.dims] at hlt

/-- Two objects share a square, and the one it names moves on: the square is left without a name
although the other still stands in it. -/
def abandonedSquare : World :=
  (((World.empty ⟨64, 64, 32, 16⟩).perform (.insert (.wall "stays" ⟨0, 0⟩))).perform
    (.insert (.player "leaves" ⟨5, 5⟩))).perform
    (.modify "leaves" (fun o => { o with position := ⟨37, 5⟩ }) fun _ => rfl)

theorem grid_sound_abandonedSquare :
    Reachable ⟨64, 64, 32, 16⟩ abandonedSquare ∧ Sound ⟨64, 64, 32, 16⟩ abandonedSquare ∧
      abandonedSquare.grid.squares = #[none, some "leaves", none, none] ∧
      abandonedSquare.contains "stays" = true := by
  have h : Reachable ⟨64, 64, 32, 16⟩ abandonedSquare :=
    .perform _ (.perform _ (.perform _ .empty))
  exact ⟨h, h.grid_sound, by decide +kernel, by decide +kernel⟩

end TileWorld.World
