import Mathlib.Data.List.Forall2
import TileWorld.Proofs.World.Filing

/-! A step of time: every object with waypoints left moves once, and nothing else in the world
changes. -/

namespace TileWorld

namespace Object

variable {o : Object} {dt : Float32} {now : Float}

/-! ## One object -/

/-- What a step makes of an object with waypoints left, and the motion reported for it. The cursor
that counts is the one reached, before a completed path is cleared. -/
structure Moves (dt : Float32) (now : Float) (o x : Object) (motion : Motion) : Prop where
  delta : motion.delta = (o.advance dt).2
  position : x.position = (o.advance dt).1.position
  cursor : (o.advance dt).1.cursor = o.cursor ∨ (o.advance dt).1.cursor = o.cursor + 1
  completed : motion.completed = true ↔ (o.advance dt).1.cursor = o.path.length
  arrived : motion.completed = true →
    o.path.getLast? = some x.position ∧ x.path = [] ∧ x.cursor = 0 ∧
      x.wander = o.wander.map fun w => { w with lastPath := now }
  underway : motion.completed = false →
    x.path = o.path ∧ x.cursor = (o.advance dt).1.cursor ∧ x.wander = o.wander
  others : x = { o with
    position := x.position, path := x.path, cursor := x.cursor, wander := x.wander }

theorem step_of_not_hasActivePath (h : o.hasActivePath = false) (dt : Float32) (now : Float) :
    o.step dt now = (o, none) := by
  rw [step, h]
  rfl

theorem motion_step (h : o.hasActivePath = true) (dt : Float32) (now : Float) :
    (o.step dt now).2 =
      some ⟨o.id, (o.advance dt).2, (o.advance dt).1.isPathComplete⟩ := by
  have hid : (o.advance dt).1.id = o.id := by
    obtain ⟨position, cursor, hadvance⟩ := o.exists_advance dt
    rw [hadvance]
  cases hcomplete : (o.advance dt).1.isPathComplete <;> simp [step, h, hcomplete]

/-- Waypoints are reached one at a time, so a path is complete once its last waypoint is reached. -/
theorem isPathComplete_advance_iff (h : o.hasActivePath = true) (dt : Float32) :
    (o.advance dt).1.isPathComplete = true ↔ (o.advance dt).1.cursor = o.path.length := by
  have hlt : o.cursor < o.path.length := of_decide_eq_true h
  have hne : o.path ≠ [] := List.ne_nil_of_length_pos (Nat.zero_lt_of_lt hlt)
  obtain ⟨position, cursor, hadvance⟩ := o.exists_advance dt
  simp [hadvance, isPathComplete, hne]

theorem moves_step (h : o.hasActivePath = true) (dt : Float32) (now : Float) :
    o.Moves dt now (o.step dt now).1
      ⟨o.id, (o.advance dt).2, (o.advance dt).1.isPathComplete⟩ := by
  have hlt : o.cursor < o.path.length := of_decide_eq_true h
  have hcursor : (o.advance dt).1.cursor = o.cursor ∨ (o.advance dt).1.cursor = o.cursor + 1 := by
    rcases advance_cases hlt dt with hreached | ⟨position, hkept⟩
    · exact .inr (by rw [hreached])
    · exact .inl (by rw [hkept])
  have hiff := isPathComplete_advance_iff h dt
  obtain ⟨position, cursor, hadvance⟩ := o.exists_advance dt
  by_cases hcomplete : (o.advance dt).1.isPathComplete = true
  · have hstep := step_of_isPathComplete h hcomplete now
    refine ⟨rfl, by rw [hstep]; rfl, hcursor, hiff, fun _ => ?_, fun hnot => ?_, ?_⟩
    · rcases o.step_cases dt now with ⟨-, hlast, -, hwander⟩ | ⟨-, hpath, -⟩
      · exact ⟨hlast, by rw [hstep]; rfl, by rw [hstep]; rfl, hwander⟩
      · rw [hstep] at hpath
        exact absurd hlt (by rw [← hpath]; exact Nat.not_lt_zero _)
    · exact absurd hcomplete (by simpa using hnot)
    · rw [hstep, hadvance]
      rfl
  · have hstep := step_of_not_isPathComplete h hcomplete now
    refine ⟨rfl, by rw [hstep], hcursor, hiff, fun hdone => absurd hdone hcomplete, fun _ => ?_, ?_⟩
    · rw [hstep]
      exact ⟨by rw [hadvance], rfl, by rw [hadvance]⟩
    · rw [hstep, hadvance]

end Object

namespace World

variable {d : Dims} {w : World}

/-! ## All objects -/

/-- What a step of time makes of a world: `w` before it, `v` after it. -/
structure Integrated (dt : Float32) (now : Float) (w v : World) (motions : List Motion) : Prop where
  /-- One motion for each object that has waypoints left, in the order of the table. -/
  reported : List.Forall₂
    (fun e motion => motion.id = e.1 ∧ ∃ x, v.find? e.1 = some x ∧ e.2.Moves dt now x motion)
    (w.objects.entries.filter fun e => e.2.hasActivePath) motions
  ascending : motions.Pairwise fun a b => a.id < b.id
  still : ∀ id o, w.find? id = some o → o.hasActivePath = false → v.find? id = some o
  ids : v.objects.keys = w.objects.keys
  dims : v.dims = w.dims
  maze : v.maze = w.maze
  /-- If anything moved, every square names the greatest id of those that stand there. -/
  filed : motions ≠ [] → ∀ s,
    (∀ id, v.grid.occupant? s = some id ↔ IsGreatest {i | v.Located i s} id) ∧
      (v.grid.occupant? s = none ↔ ∀ id, ¬ v.Located id s)
  unmoved : motions = [] → v = w

/-- Each item that passes gives one result, and the others give none. -/
private theorem forall₂_filterMap {α β : Type} {R : α → β → Prop} {p : α → Bool}
    {f : α → Option β} {l : List α} (hpass : ∀ a ∈ l, p a = true → ∃ b, f a = some b ∧ R a b)
    (hfail : ∀ a ∈ l, p a = false → f a = none) :
    List.Forall₂ R (l.filter p) (l.filterMap f) := by
  induction l with
  | nil => exact .nil
  | cons a l ih =>
      obtain ⟨hpassFirst, hpassRest⟩ := List.forall_mem_cons.mp hpass
      obtain ⟨hfailFirst, hfailRest⟩ := List.forall_mem_cons.mp hfail
      have hrest := ih hpassRest hfailRest
      cases hp : p a with
      | true =>
          obtain ⟨b, hb, hab⟩ := hpassFirst hp
          rw [List.filter_cons_of_pos hp, List.filterMap_cons_some hb]
          exact .cons hab hrest
      | false =>
          rw [List.filter_cons_of_neg (by simp [hp]), List.filterMap_cons_none (hfailFirst hp)]
          exact hrest

theorem motions_integrate (w : World) (dt : Float32) (now : Float) :
    (w.integrate dt now).1 = w.objects.entries.filterMap fun e => (e.2.step dt now).2 := by
  simp only [integrate, Table.values, Table.mapValues, Entries.mapValues, List.map_map,
    List.filterMap_map, Function.comp_def]

theorem keys_integrate (w : World) (dt : Float32) (now : Float) :
    (w.integrate dt now).2.objects.keys = w.objects.keys := by
  simp only [objects_integrate, Table.keys, Table.mapValues, Entries.mapValues, List.map_map,
    Function.comp_def]

/-- Each object on its way moves as it does alone, and everything else is left as it was. -/
theorem Reachable.integrated (h : Reachable d w) (dt : Float32) (now : Float) :
    Integrated dt now w (w.integrate dt now).2 (w.integrate dt now).1 := by
  have hfind : ∀ e ∈ w.objects.entries,
      (w.integrate dt now).2.find? e.1 = some (e.2.step dt now).1 := by
    intro e he
    have ho : w.find? e.1 = some e.2 := Table.find?_eq_some_of_mem he
    rw [find?_integrate, ho, Option.map_some]
  have hmotions : List.Forall₂
      (fun e motion => motion.id = e.1 ∧
        ∃ x, (w.integrate dt now).2.find? e.1 = some x ∧ e.2.Moves dt now x motion)
      (w.objects.entries.filter fun e => e.2.hasActivePath) (w.integrate dt now).1 := by
    rw [motions_integrate]
    refine forall₂_filterMap (fun e he hactive => ?_) fun e _ hstill => ?_
    · have hkey := w.keyed e.1 e.2 (Table.find?_eq_some_of_mem he)
      exact ⟨_, Object.motion_step hactive dt now, hkey, _, hfind e he,
        Object.moves_step hactive dt now⟩
    · rw [Object.step_of_not_hasActivePath hstill]
  have hids : (w.objects.entries.filter fun e => e.2.hasActivePath).map (·.1) =
      (w.integrate dt now).1.map (·.id) := by
    rw [← List.forall₂_eq_eq_eq, List.forall₂_map_left_iff, List.forall₂_map_right_iff]
    exact hmotions.imp fun _ _ hmotion => hmotion.1.symm
  refine ⟨hmotions, ?_, ?_, keys_integrate w dt now, dims_integrate w dt now,
    maze_integrate w dt now, ?_, integrate_eq_self⟩
  · have hentries : Entries.Ascending (w.objects.entries.filter fun e => e.2.hasActivePath) :=
      w.objects.ascending.filter _
    have hkeys := List.pairwise_map.mpr hentries
    rw [hids] at hkeys
    exact List.pairwise_map.mp hkeys
  · intro id o ho hstill
    rw [find?_integrate, ho, Option.map_some, Object.step_of_not_hasActivePath hstill]
  · intro hne s
    obtain ⟨objects, keyed, hrebuilt⟩ := integrate_of_ne_nil hne
    rw [hrebuilt]
    exact (h.shaped.withObjects keyed).exact_rebuildGrid s

def homeward : World :=
  ((World.empty ⟨64, 64, 32, 16⟩).perform (.insert (.wall "gate" ⟨32, 32⟩))).perform
    (.insert ((Object.agent "bot" ⟨32, 0⟩ ⟨⟨0, 0⟩, 64, 2, 0⟩).setPath [⟨0, 0⟩]))

theorem integrated_homeward :
    Reachable ⟨64, 64, 32, 16⟩ homeward ∧
      Integrated 1 5 homeward (homeward.integrate 1 5).2 (homeward.integrate 1 5).1 ∧
      (homeward.integrate 1 5).1.map (fun motion => (motion.id, motion.completed)) =
        [("bot", true)] ∧
      homeward.grid.squares = #[none, some "bot", none, some "gate"] ∧
      (homeward.integrate 1 5).2.grid.squares = #[some "bot", none, none, some "gate"] := by
  have h : Reachable ⟨64, 64, 32, 16⟩ homeward := .perform _ (.perform _ .empty)
  exact ⟨h, h.integrated 1 5, by decide +kernel, by decide +kernel, by decide +kernel⟩

end World

end TileWorld
