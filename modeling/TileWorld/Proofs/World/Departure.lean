import TileWorld.Proofs.World.Made

/-! The notices of a snapshot or a sweep are those of the objects that it took out, in id order,
layer after layer. -/

namespace TileWorld.World

variable {d : Dims} {v w : World}

/-- The objects of one world whose ids another has not, in id order. -/
def departed (before after : World) : List (String × Object) :=
  before.objects.entries.filter fun e => !after.contains e.1

/-- One notice for each layer of an object that stood under an id. -/
def noticesFor (e : String × Object) : List Notice := e.2.layers.map fun layer => ⟨e.1, layer⟩

/-- The notices for what was there before and is gone afterwards. -/
structure Accounted (before after : World) (notices : List Notice) : Prop where
  exact : notices = (before.departed after).flatMap noticesFor
  /-- What is gone is reported layer by layer, and no layer more often than it was worn. -/
  once : ∀ id o, before.find? id = some o → after.find? id = none →
    notices.filter (·.id = id) = noticesFor (id, o)
  /-- Nothing is reported that is still there or was never there. -/
  gone : ∀ n ∈ notices, (∃ o, before.find? n.id = some o) ∧ after.find? n.id = none

/-! ## Notices by id -/

theorem contains_eq (w : World) (id : String) : w.contains id = (w.find? id).isSome :=
  rfl

theorem mem_departed {id : String} {o : Object} :
    (id, o) ∈ v.departed w ↔ v.find? id = some o ∧ w.find? id = none := by
  rw [departed, List.mem_filter, find?, Table.find?_eq_some_iff, contains_eq]
  simp

/-- Among entries with ascending keys each key finds what belongs to it alone. -/
theorem flatMap_eq_of_ascending {α β : Type} {entries : List (String × α)}
    (h : Entries.Ascending entries) (f : String × α → List β) {key : String} {value : α}
    (hmem : (key, value) ∈ entries) :
    entries.flatMap (fun e => if e.1 = key then f e else []) = f (key, value) := by
  induction entries with
  | nil => cases hmem
  | cons first rest ih =>
      rw [List.flatMap_cons]
      have hafter := (List.pairwise_cons.mp h).1
      rcases List.mem_cons.mp hmem with rfl | hmem
      · have hothers : rest.flatMap (fun e => if e.1 = key then f e else []) = [] := by
          refine List.flatMap_eq_nil_iff.mpr fun e he => if_neg fun heq => ?_
          exact String.lt_irrefl _ (heq ▸ hafter e he)
        rw [hothers, if_pos rfl, List.append_nil]
      · have hne : first.1 ≠ key := (hafter _ hmem).ne
        rw [if_neg hne, List.nil_append, ih h.of_cons hmem]

theorem accounted_of_eq {notices : List Notice}
    (h : notices = (v.departed w).flatMap noticesFor) :
    Accounted v w notices := by
  refine ⟨h, fun id o ho hgone => ?_, fun n hn => ?_⟩
  · have hfilter : ∀ e : String × Object,
        (noticesFor e).filter (·.id = id) = if e.1 = id then noticesFor e else [] := by
      intro e
      by_cases he : e.1 = id <;> simp [noticesFor, List.filter_map, Function.comp_def, he]
    -- No two objects have one id, so that only the notices of `o` pass the filter.
    rw [h, List.filter_flatMap, List.flatMap_congr fun e _ => hfilter e]
    exact flatMap_eq_of_ascending (v.objects.ascending.filter _) noticesFor
      (mem_departed.mpr ⟨ho, hgone⟩)
  · rw [h] at hn
    obtain ⟨⟨id, o⟩, he, hlayer⟩ := List.mem_flatMap.mp hn
    obtain ⟨layer, -, rfl⟩ := List.mem_map.mp hlayer
    obtain ⟨ho, hgone⟩ := mem_departed.mp he
    exact ⟨⟨o, ho⟩, hgone⟩

/-- An object that leaves with its layers on does not go unnoticed. -/
theorem Accounted.exists_notice {notices : List Notice} (h : Accounted v w notices) {id : String}
    {o : Object} (ho : v.find? id = some o) (hgone : w.find? id = none) (hlayers : o.layers ≠ []) :
    ∃ layer, ⟨id, layer⟩ ∈ notices := by
  obtain ⟨layer, layers, hlayer⟩ := List.exists_cons_of_ne_nil hlayers
  have hfilter := h.once id o ho hgone
  have hmem : (⟨id, layer⟩ : Notice) ∈ notices.filter (·.id = id) := by
    rw [hfilter, noticesFor, hlayer]
    exact List.mem_cons_self
  exact ⟨layer, (List.mem_filter.mp hmem).1⟩

/-- Changes in place that leave the layers alone do not show in the account. -/
theorem Accounted.of_mapValues {u : World} {f : String → Object → Object} {notices : List Notice}
    (h : Accounted v w notices) (hobjects : v.objects = u.objects.mapValues f)
    (hlayers : ∀ id o, (f id o).layers = o.layers) : Accounted u w notices := by
  refine accounted_of_eq ?_
  have hentries : v.objects.entries = u.objects.entries.map fun e => (e.1, f e.1 e.2) := by
    rw [hobjects]
    rfl
  have hnotices : ∀ e : String × Object, noticesFor (e.1, f e.1 e.2) = noticesFor e := fun e => by
    rw [noticesFor, noticesFor, hlayers]
  rw [h.exact, departed, departed, hentries, List.filter_map, List.flatMap_map,
    List.flatMap_congr fun e _ => hnotices e]
  rfl

/-! ## The two ways to leave -/

theorem accounted_reconcile (w : World) (entries : Table Json) :
    Accounted w (w.reconcile entries).2 (w.reconcile entries).1 := by
  have hnotices : (w.reconcile entries).1 = _ := notices_omitted w entries
  refine accounted_of_eq ?_
  rw [hnotices, departed]
  congr 1
  refine List.filter_congr fun e he => ?_
  have ho : w.find? e.1 = some e.2 := Table.find?_eq_some_of_mem he
  rw [contains_eq, find?_reconcile, find?_merged, ho, Table.contains]
  cases hentry : entries.find? e.1 with
  | none => cases hpersistent : e.2.persistent <;> simp [Option.filter, hpersistent]
  | some entry => cases Object.ofEntry? e.1 entry <;> simp

theorem find?_sweep (w : World) (now : Float) (id : String) :
    (w.sweep now).2.find? id = (w.find? id).filter (!·.isExpired now) := by
  by_cases hdecayed : ∃ id, w.Decayed now id
  · obtain ⟨x, hx⟩ := hdecayed
    rw [sweep_of_decayed hx]
    exact find?_retain w (fun o => !o.isExpired now) id
  · rw [sweep_eq_self fun id hid => hdecayed ⟨id, hid⟩]
    cases ho : w.find? id with
    | none => rfl
    | some o =>
        have hkept : o.isExpired now = false := Bool.eq_false_iff.mpr fun hexpired =>
          hdecayed ⟨id, o, ho, Object.isExpired_iff.mp hexpired⟩
        simp [Option.filter, hkept]

theorem notices_sweep (w : World) (now : Float) :
    (w.sweep now).1 =
      (w.objects.filter fun _ o => o.isExpired now).values.flatMap Object.notices := by
  have hretain : (w.retain fun o => !o.isExpired now).1 =
      (w.objects.filter fun _ o => o.isExpired now).values := by
    simp only [retain, Bool.not_not, Table.values_filter]
  rw [sweep]
  dsimp only
  split
  · rename_i hnone
    rw [← hretain, List.isEmpty_iff.mp hnone]
    rfl
  · rw [hretain]

/-- A sweep accounts for what has decayed. -/
theorem accounted_sweep (w : World) (now : Float) :
    Accounted w (w.sweep now).2 (w.sweep now).1 := by
  have hgone : w.departed (w.sweep now).2 =
      (w.objects.filter fun _ o => o.isExpired now).entries := by
    refine List.filter_congr fun e he => ?_
    have ho : w.find? e.1 = some e.2 := Table.find?_eq_some_of_mem he
    rw [contains_eq, find?_sweep, ho]
    cases hexpired : e.2.isExpired now <;> simp [Option.filter, hexpired]
  refine accounted_of_eq ?_
  rw [notices_sweep, Table.values, ← hgone, List.flatMap_map]
  refine List.flatMap_congr fun e he => ?_
  rw [Object.notices, noticesFor, id_eq_of_find? (mem_departed.mp he).1]

end TileWorld.World
