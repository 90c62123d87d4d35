import TileWorld.Proofs.World.Decay

/-! A square names the object filed there last as long as it stands there. When that object leaves,
nobody files the others. -/

namespace TileWorld.World

variable {d : Dims} {w : World} {s : Square} {id : String} {op : Operation} {ops : List Operation}

/-- The operation files the object in the square, and no other object after it. -/
def Files (w : World) (s : Square) : Operation → String → Prop
  | .insert o, id => id = o.id ∧ w.dims.square? o.position = some s
  | .modify changed change _, id =>
    id = changed ∧ ∃ o, w.find? changed = some o ∧ o.position.same (change o).position = false ∧
      w.dims.square? (change o).position = some s
  | .reconcile entries, id => IsGreatest {i | (w.reconcile entries).2.Located i s} id
  | .rebuildGrid, id => IsGreatest {i | w.Located i s} id
  | .integrate dt now, id =>
    (w.integrate dt now).1 ≠ [] ∧ IsGreatest {i | (w.integrate dt now).2.Located i s} id
  | .remove _, _ | .retain _, _ | .sweep _, _ | .rebuildMaze, _ => False

/-- The world after a list of operations on an empty one. -/
def run (d : Dims) (ops : List Operation) : World := ops.foldl perform (.empty d)

/-- The object filed in the square last. -/
inductive LastFiled (d : Dims) (s : Square) : List Operation → String → Prop where
  | files {ops : List Operation} {op : Operation} {id : String} :
      (run d ops).Files s op id → LastFiled d s (ops ++ [op]) id
  | keeps {ops : List Operation} {op : Operation} {id : String} :
      (∀ other, ¬ (run d ops).Files s op other) → LastFiled d s ops id →
      LastFiled d s (ops ++ [op]) id

/-- Somebody stands in the square, and the square names nobody. -/
def Overlooked (w : World) (s : Square) : Prop :=
  (∃ id, w.Located id s) ∧ w.grid.occupant? s = none

/-! ## Where an object stands after an operation -/

theorem located_retain {keep : Object → Bool} :
    (w.retain keep).2.Located id s ↔
      ∃ o, w.find? id = some o ∧ keep o = true ∧ w.dims.square? o.position = some s := by
  simp only [Located, find?_retain, Option.filter_eq_some_iff, dims_retain, and_assoc]

theorem located_sweep {now : Float} :
    (w.sweep now).2.Located id s ↔ w.Located id s ∧ ¬ w.Decayed now id := by
  simp only [Located, find?_sweep_eq_some_iff, dims_sweep, World.Decayed]
  cases w.find? id with
  | none => simp
  | some o => simp [and_comm]

/-! ## One operation -/

theorem Shaped.occupant?_reconcile (h : Shaped d w) (entries : Table Json) :
    (w.reconcile entries).2.grid.occupant? s = some id ↔
      IsGreatest {i | (w.reconcile entries).2.Located i s} id :=
  ((h.withObjects (w.keyed_merged entries)).exact_rebuildGrid s).1 id

theorem Shaped.occupant?_integrate (h : Shaped d w) {dt : Float32} {now : Float}
    (hmoved : (w.integrate dt now).1 ≠ []) :
    (w.integrate dt now).2.grid.occupant? s = some id ↔
      IsGreatest {i | (w.integrate dt now).2.Located i s} id := by
  obtain ⟨objects, keyed, hrebuilt⟩ := integrate_of_ne_nil hmoved
  rw [hrebuilt]
  exact ((h.withObjects keyed).exact_rebuildGrid s).1 id

theorem Shaped.exists_isGreatest (h : Shaped d w) (hid : w.Located id s) :
    ∃ last, IsGreatest {i | w.Located i s} last := by
  cases hs : w.rebuildGrid.grid.occupant? s with
  | none => exact absurd hid ((h.occupant?_rebuildGrid_eq_none s).mp hs id)
  | some last => exact ⟨last, (h.occupant?_rebuildGrid_eq_some s last).mp hs⟩

theorem Files.unique {other : String} (h : w.Files s op id) (hother : w.Files s op other) :
    id = other := by
  cases op with
  | insert o => exact h.1.trans hother.1.symm
  | modify changed change keepsId => exact h.1.trans hother.1.symm
  | reconcile entries | rebuildGrid => exact IsGreatest.unique h hother
  | integrate dt now => exact h.2.unique hother.2
  | remove | retain | sweep | rebuildMaze => exact h.elim

theorem Files.located (h : w.Files s op id) : (w.perform op).Located id s := by
  cases op with
  | insert o =>
      obtain ⟨rfl, hs⟩ := h
      exact located_insert.mpr (by rwa [if_pos rfl])
  | modify changed change keepsId =>
      obtain ⟨rfl, o, ho, -, hs⟩ := h
      exact ⟨change o, by simp [World.perform, find?_modify, ho], by simpa [World.perform] using hs⟩
  | reconcile entries => exact h.1
  | rebuildGrid => exact located_rebuildGrid.mpr h.1
  | integrate dt now => exact h.2.1
  | remove | retain | sweep | rebuildMaze => exact h.elim

/-- Nobody comes to stand in a square without an operation that files somebody there. -/
theorem Shaped.located_of_not_files (h : Shaped d w) (hid : (w.perform op).Located id s)
    (hnone : ∀ other, ¬ w.Files s op other) : w.Located id s := by
  cases op with
  | insert o =>
      rw [World.perform, located_insert] at hid
      split at hid
      · exact absurd ⟨rfl, hid⟩ (hnone o.id)
      · exact hid
  | remove removed => exact (located_remove.mp hid).1
  | modify changed change keepsId =>
      rw [World.perform, located_modify] at hid
      split at hid
      · rename_i heq
        obtain ⟨o, ho, hs⟩ := hid
        have hsame : o.position.same (change o).position = true := by
          by_contra hmoved
          exact hnone changed ⟨rfl, o, ho, Bool.eq_false_iff.mpr hmoved, hs⟩
        exact ⟨o, heq ▸ ho, (Dims.square?_of_same _ hsame).trans hs⟩
      · exact hid
  | retain keep =>
      obtain ⟨o, ho, -, hs⟩ := located_retain.mp hid
      exact ⟨o, ho, hs⟩
  | reconcile entries =>
      obtain ⟨last, hlast⟩ := (h.perform (.reconcile entries)).exists_isGreatest hid
      exact absurd hlast (hnone last)
  | sweep now => exact (located_sweep.mp hid).1
  | rebuildGrid => exact located_rebuildGrid.mp hid
  | rebuildMaze => exact hid
  | integrate dt now =>
      by_cases hstill : (w.integrate dt now).1 = []
      · rwa [World.perform, integrate_eq_self hstill] at hid
      · obtain ⟨last, hlast⟩ := (h.perform (.integrate dt now)).exists_isGreatest hid
        exact absurd ⟨hstill, hlast⟩ (hnone last)

theorem Reachable.occupant?_of_files (h : Reachable d w) (hid : w.Files s op id) :
    (w.perform op).grid.occupant? s = some id := by
  cases op with
  | insert o => exact (h.filed.occupant?_insert h.shaped o).mpr (by rw [if_pos hid.2]; exact hid.1)
  | modify changed change keepsId =>
      obtain ⟨rfl, o, ho, hmoved, hs⟩ := hid
      exact (h.filed.occupant?_modify h.shaped keepsId ho hmoved).mpr (by rw [if_pos hs])
  | reconcile entries => exact (h.shaped.occupant?_reconcile entries).mpr hid
  | rebuildGrid => exact (h.shaped.occupant?_rebuildGrid_eq_some s id).mpr hid
  | integrate dt now => exact (h.shaped.occupant?_integrate hid.1).mpr hid.2
  | remove | retain | sweep | rebuildMaze => exact hid.elim

theorem Filed.occupant?_retain (hf : Filed w) (keep : Object → Bool) :
    (w.retain keep).2.grid.occupant? s = some id ↔
      w.grid.occupant? s = some id ∧ (w.retain keep).2.Located id s := by
  rw [located_retain, World.retain]
  dsimp only
  rw [hf.occupant?_removeAll, mem_ids_filter_iff]
  refine and_congr_right fun hs => ?_
  obtain ⟨o, ho, hsquare⟩ := hf s id hs
  simp [ho, hsquare]

/-- Where nobody is filed a name is left alone as long as its object stands there, and no other
comes in its place. -/
theorem Reachable.occupant?_of_not_files (h : Reachable d w)
    (hnone : ∀ other, ¬ w.Files s op other) :
    (w.perform op).grid.occupant? s = some id ↔
      w.grid.occupant? s = some id ∧ (w.perform op).Located id s := by
  have hlocated := h.filed s id
  have hfiled := (h.perform op).filed s id
  -- Where everything is filed anew and yet nobody here, nobody stands here.
  have hempty : (∀ other, ¬ IsGreatest {i | (w.perform op).Located i s} other) →
      ((w.perform op).grid.occupant? s = some id ↔
        w.grid.occupant? s = some id ∧ (w.perform op).Located id s) := by
    intro hgreatest
    have hnobody : ¬ (w.perform op).Located id s := fun hid =>
      (h.perform op).shaped.exists_isGreatest hid |>.elim hgreatest
    exact iff_of_false (fun hs => hnobody (hfiled hs)) fun hs => hnobody hs.2
  cases op with
  | insert o =>
      have hs : w.dims.square? o.position ≠ some s := fun hs => hnone o.id ⟨rfl, hs⟩
      rw [World.perform, h.filed.occupant?_insert h.shaped, if_neg hs, located_insert]
      by_cases hid : id = o.id
      · simp [hid, hs]
      · simpa [hid] using hlocated
  | remove removed =>
      rw [World.perform, h.filed.occupant?_remove, located_remove]
      exact and_congr_right fun hs => (and_iff_right (hlocated hs)).symm
  | modify changed change keepsId =>
      cases ho : w.find? changed with
      | none =>
          rw [World.perform, modify_eq_self ho]
          exact (and_iff_left_of_imp hlocated).symm
      | some o =>
          cases hsame : o.position.same (change o).position with
          | true =>
              rw [World.perform, grid_modify_of_same keepsId ho hsame] at hfiled ⊢
              exact (and_iff_left_of_imp hfiled).symm
          | false =>
              have hs : w.dims.square? (change o).position ≠ some s := fun hs =>
                hnone changed ⟨rfl, o, ho, hsame, hs⟩
              rw [World.perform, h.filed.occupant?_modify h.shaped keepsId ho hsame,
                if_neg hs, located_modify]
              by_cases hid : id = changed
              · simp [hid, ho, hs]
              · simpa [hid] using hlocated
  | retain keep => exact h.filed.occupant?_retain keep
  | reconcile entries => exact hempty hnone
  | sweep now =>
      rw [World.perform, h.filed.occupant?_sweep, located_sweep]
      exact and_congr_right fun hs => (and_iff_right (hlocated hs)).symm
  | rebuildGrid =>
      refine hempty ?_
      simp only [World.perform, located_rebuildGrid]
      exact hnone
  | rebuildMaze => exact (and_iff_left_of_imp hfiled).symm
  | integrate dt now =>
      by_cases hstill : (w.integrate dt now).1 = []
      · rw [World.perform, integrate_eq_self hstill]
        exact (and_iff_left_of_imp hlocated).symm
      · exact hempty fun other hother => hnone other ⟨hstill, hother⟩

/-- After an operation a square names the object that the operation files there, or else the one
that it named before and that still stands there. -/
theorem Reachable.occupant?_perform (h : Reachable d w) :
    (w.perform op).grid.occupant? s = some id ↔
      w.Files s op id ∨ (∀ other, ¬ w.Files s op other) ∧ w.grid.occupant? s = some id ∧
        (w.perform op).Located id s := by
  by_cases hnone : ∀ other, ¬ w.Files s op other
  · rw [h.occupant?_of_not_files hnone, or_iff_right (hnone id), and_iff_right hnone]
  · obtain ⟨last, hlast⟩ := not_forall_not.mp hnone
    rw [h.occupant?_of_files hlast, Option.some_inj]
    constructor
    · rintro rfl
      exact .inl hlast
    · rintro (hid | ⟨hfalse, -⟩)
      · exact hlast.unique hid
      · exact absurd hfalse hnone

/-! ## Runs -/

theorem run_append (d : Dims) (ops : List Operation) (op : Operation) :
    run d (ops ++ [op]) = (run d ops).perform op := by
  rw [run, List.foldl_append]
  rfl

theorem reachable_run (d : Dims) (ops : List Operation) : Reachable d (run d ops) :=
  List.foldlRecOn (motive := Reachable d) _ _ .empty fun _ hw op _ => hw.perform op

theorem lastFiled_append_iff :
    LastFiled d s (ops ++ [op]) id ↔
      (run d ops).Files s op id ∨
        (∀ other, ¬ (run d ops).Files s op other) ∧ LastFiled d s ops id := by
  constructor
  · intro h
    generalize hall : ops ++ [op] = all at h
    cases h with
    | files hfiles =>
        obtain ⟨rfl, rfl⟩ := List.append_singleton_inj.mp hall
        exact .inl hfiles
    | keeps hnone hlast =>
        obtain ⟨rfl, rfl⟩ := List.append_singleton_inj.mp hall
        exact .inr ⟨hnone, hlast⟩
  · rintro (hfiles | ⟨hnone, hlast⟩)
    · exact .files hfiles
    · exact .keeps hnone hlast

theorem not_lastFiled_nil : ¬ LastFiled d s [] id := by
  intro h
  generalize hall : ([] : List Operation) = all at h
  cases h with
  | files | keeps => simp at hall

theorem LastFiled.unique {other : String} (h : LastFiled d s ops id)
    (hother : LastFiled d s ops other) : id = other := by
  induction ops using List.reverseRecOn with
  | nil => exact absurd h not_lastFiled_nil
  | append_singleton ops op ih =>
      rcases lastFiled_append_iff.mp h with hfiles | ⟨hnone, hlast⟩ <;>
        rcases lastFiled_append_iff.mp hother with hfiles' | ⟨hnone', hlast'⟩
      · exact hfiles.unique hfiles'
      · exact absurd hfiles (hnone' id)
      · exact absurd hfiles' (hnone other)
      · exact ih hlast hlast'

theorem exists_lastFiled (h : (run d ops).Located id s) : ∃ last, LastFiled d s ops last := by
  induction ops using List.reverseRecOn with
  | nil =>
      obtain ⟨o, ho, -⟩ := h
      cases ho
  | append_singleton ops op ih =>
      rw [run_append] at h
      by_cases hnone : ∀ other, ¬ (run d ops).Files s op other
      · obtain ⟨last, hlast⟩ := ih ((reachable_run d ops).shaped.located_of_not_files h hnone)
        exact ⟨last, .keeps hnone hlast⟩
      · obtain ⟨last, hlast⟩ := not_forall_not.mp hnone
        exact ⟨last, .files hlast⟩

/-- A square names the object filed there last, as long as it stands there. -/
theorem occupant?_run_eq_some (d : Dims) (ops : List Operation) (s : Square) (id : String) :
    (run d ops).grid.occupant? s = some id ↔
      LastFiled d s ops id ∧ (run d ops).Located id s := by
  induction ops using List.reverseRecOn with
  | nil =>
      refine iff_of_false ?_ fun h => not_lastFiled_nil h.1
      simp [run, empty]
  | append_singleton ops op ih =>
      have h := reachable_run d ops
      rw [run_append, h.occupant?_perform, lastFiled_append_iff, ih]
      constructor
      · rintro (hfiles | ⟨hnone, ⟨hlast, -⟩, hid⟩)
        · exact ⟨.inl hfiles, hfiles.located⟩
        · exact ⟨.inr ⟨hnone, hlast⟩, hid⟩
      · rintro ⟨hfiles | ⟨hnone, hlast⟩, hid⟩
        · exact .inl hfiles
        · exact .inr ⟨hnone, ⟨hlast, h.shaped.located_of_not_files hid hnone⟩, hid⟩

/-- Whatever led to a world, a name in a square is that of the object filed there last, and an
occupied square is without a name exactly if that object does not stand there any more. -/
theorem overlooked_iff_lastFiled_gone (d : Dims) (ops : List Operation) (s : Square) :
    (∀ id, (run d ops).grid.occupant? s = some id ↔
        LastFiled d s ops id ∧ (run d ops).Located id s) ∧
      ((run d ops).Overlooked s ↔
        (∃ id, (run d ops).Located id s) ∧
          ∃ last, LastFiled d s ops last ∧ ¬ (run d ops).Located last s) := by
  refine ⟨occupant?_run_eq_some d ops s, and_congr_right fun hoccupied => ?_⟩
  constructor
  · intro hs
    obtain ⟨id, hid⟩ := hoccupied
    obtain ⟨last, hlast⟩ := exists_lastFiled hid
    refine ⟨last, hlast, fun hstands => ?_⟩
    rw [(occupant?_run_eq_some d ops s last).mpr ⟨hlast, hstands⟩] at hs
    cases hs
  · rintro ⟨last, hlast, hgone⟩
    by_contra hs
    obtain ⟨id, hid⟩ := Option.ne_none_iff_exists'.mp hs
    obtain ⟨hid, hstands⟩ := (occupant?_run_eq_some d ops s id).mp hid
    exact hgone (hid.unique hlast ▸ hstands)

/-- Two players share a square, and the one that came last is removed. -/
theorem overlooked_sharedSquare :
    (run ⟨320, 320, 32, 16⟩ [.insert (.player "a" ⟨32, 32⟩), .insert (.player "b" ⟨40, 40⟩),
      .remove "b"]).Overlooked ⟨1, 1⟩ := by
  refine ⟨⟨"a", .player "a" ⟨32, 32⟩, ?_, ?_⟩, ?_⟩
  · rfl
  · decide +kernel
  · decide +kernel

end TileWorld.World
