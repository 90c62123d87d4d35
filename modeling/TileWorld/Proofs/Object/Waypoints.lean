import Mathlib.Order.Monotone.Basic
import TileWorld.Proofs.Object.Motion

/-! An object with a path comes to its waypoints one after the other, whatever the lengths of its
steps. -/

namespace TileWorld.Object

variable {o : Object} {dts : ℕ → Float32} {p : Point} {dt : Float32}

/-- The object after so many steps. -/
def course (o : Object) (dts : ℕ → Float32) : ℕ → Object
  | 0 => o
  | n + 1 => ((course o dts n).advance (dts n)).1

/-- A step of `dt` seconds covers the way to the point, as far as it is computed. -/
def InReach (o : Object) (p : Point) (dt : Float32) : Prop :=
  let dx := p.x - o.position.x
  let dy := p.y - o.position.y
  (dx * dx + dy * dy).sqrt ≤ o.speed * dt + snapTolerance

/-- How an object passes along a path: `c n` is what it is after `n` steps. -/
structure Passes (o : Object) (path : List Point) (dts : ℕ → Float32) (c : ℕ → Object) :
    Prop where
  start : c 0 = { o with path, cursor := 0 }
  /-- Nothing but the position and the cursor ever changes. -/
  others : ∀ n, c n = { o with path, position := (c n).position, cursor := (c n).cursor }
  cursor_le : ∀ n, (c n).cursor ≤ path.length
  monotone : Monotone fun n => (c n).cursor
  /-- A step brings the object to the next waypoint if that is in reach, and to none otherwise. -/
  step : ∀ n,
    (∃ p, path[(c n).cursor]? = some p ∧ (c n).InReach p (dts n) ∧
        (c (n + 1)).cursor = (c n).cursor + 1 ∧ (c (n + 1)).position = p) ∨
      ((∀ p, path[(c n).cursor]? = some p → ¬ (c n).InReach p (dts n)) ∧
        (c (n + 1)).cursor = (c n).cursor)
  /-- No waypoint behind the object was left out, and none was reached twice. -/
  reached : ∀ n k, k < (c n).cursor →
    ∃! m, m < n ∧ (c m).cursor = k ∧ (c (m + 1)).cursor = k + 1 ∧
      path[k]? = some (c (m + 1)).position
  /-- At the end of the path every further step, however long, changes nothing. -/
  finished : ∀ m n dt, m ≤ n → (c m).cursor = path.length → (c n).advance dt = (c m, ⟨0, 0⟩)

/-! ## One step -/

theorem advance_of_getElem?_eq_none (h : o.path[o.cursor]? = none) (dt : Float32) :
    o.advance dt = (o, ⟨0, 0⟩) := by
  rw [advance, h]

theorem advance_of_inReach (hp : o.path[o.cursor]? = some p) (h : o.InReach p dt) :
    (o.advance dt).1 = { o with position := p, cursor := o.cursor + 1 } := by
  rw [advance, hp]
  exact congrArg Prod.fst (if_pos h)

theorem cursor_advance_of_not_inReach (hp : o.path[o.cursor]? = some p) (h : ¬ o.InReach p dt) :
    (o.advance dt).1.cursor = o.cursor := by
  rw [advance, hp]
  exact congrArg (fun moved : Object × Point => moved.1.cursor) (if_neg h)

/-! ## All steps -/

theorem course_eq (o : Object) (dts : ℕ → Float32) (n : ℕ) :
    o.course dts n =
      { o with position := (o.course dts n).position, cursor := (o.course dts n).cursor } := by
  induction n with
  | zero => rfl
  | succ n ih =>
      obtain ⟨position, cursor, hadvance⟩ := (o.course dts n).exists_advance (dts n)
      rw [course, hadvance, ih]

theorem path_course (o : Object) (dts : ℕ → Float32) (n : ℕ) : (o.course dts n).path = o.path := by
  rw [course_eq]

theorem course_succ_cases (o : Object) (dts : ℕ → Float32) (n : ℕ) :
    (∃ p, o.path[(o.course dts n).cursor]? = some p ∧ (o.course dts n).InReach p (dts n) ∧
        (o.course dts (n + 1)).cursor = (o.course dts n).cursor + 1 ∧
        (o.course dts (n + 1)).position = p) ∨
      ((∀ p, o.path[(o.course dts n).cursor]? = some p → ¬ (o.course dts n).InReach p (dts n)) ∧
        (o.course dts (n + 1)).cursor = (o.course dts n).cursor) := by
  rw [← path_course o dts n, course]
  cases hp : (o.course dts n).path[(o.course dts n).cursor]? with
  | none => exact .inr ⟨nofun, by rw [advance_of_getElem?_eq_none hp]⟩
  | some p =>
      by_cases hreach : (o.course dts n).InReach p (dts n)
      · exact .inl ⟨p, rfl, hreach, by rw [advance_of_inReach hp hreach],
          by rw [advance_of_inReach hp hreach]⟩
      · refine .inr ⟨fun q hq => ?_, cursor_advance_of_not_inReach hp hreach⟩
        rwa [← Option.some_inj.mp hq]

theorem monotone_cursor_course (o : Object) (dts : ℕ → Float32) :
    Monotone fun n => (o.course dts n).cursor := by
  refine monotone_nat_of_le_succ fun n => ?_
  rcases o.course_succ_cases dts n with ⟨p, -, -, hnext, -⟩ | ⟨-, hnext⟩
  · exact hnext ▸ Nat.le_succ _
  · exact hnext.ge

theorem cursor_course_le (h : o.cursor ≤ o.path.length) (dts : ℕ → Float32) (n : ℕ) :
    (o.course dts n).cursor ≤ o.path.length := by
  induction n with
  | zero => exact h
  | succ n ih =>
      rcases o.course_succ_cases dts n with ⟨p, hp, -, hnext, -⟩ | ⟨-, hnext⟩
      · rw [hnext]
        exact (List.getElem?_eq_some_iff.mp hp).1
      · rwa [hnext]

theorem course_of_cursor_eq {m n : ℕ} (h : (o.course dts m).cursor = o.path.length) (hle : m ≤ n) :
    o.course dts n = o.course dts m := by
  induction n, hle using Nat.le_induction with
  | base => rfl
  | succ n _ ih =>
      have hnone : (o.course dts m).path[(o.course dts m).cursor]? = none := by
        rw [path_course]
        exact List.getElem?_eq_none h.ge
      rw [course, ih, advance_of_getElem?_eq_none hnone]

theorem exists_reached (h : o.cursor = 0) {n k : ℕ} (hk : k < (o.course dts n).cursor) :
    ∃ m < n, (o.course dts m).cursor = k ∧ (o.course dts (m + 1)).cursor = k + 1 ∧
      o.path[k]? = some (o.course dts (m + 1)).position := by
  induction n with
  | zero => exact absurd (h ▸ hk) (Nat.not_lt_zero k)
  | succ n ih =>
      by_cases hearlier : k < (o.course dts n).cursor
      · obtain ⟨m, hm, hvisit⟩ := ih hearlier
        exact ⟨m, Nat.lt_succ_of_lt hm, hvisit⟩
      · rcases o.course_succ_cases dts n with ⟨p, hp, -, hnext, hposition⟩ | ⟨-, hnext⟩
        · have hcursor : (o.course dts n).cursor = k := by omega
          exact ⟨n, Nat.lt_succ_self n, hcursor, by rw [hnext, hcursor],
            by rw [← hcursor, hp, hposition]⟩
        · exact absurd (hnext ▸ hk) hearlier

/-- Whatever the steps are, an object comes to the waypoints of its path in order and leaves none
out. -/
theorem passes_course (o : Object) (path : List Point) (dts : ℕ → Float32) :
    Passes o path dts ((o.setPath path).course dts) where
  start := rfl
  others := (o.setPath path).course_eq dts
  cursor_le := cursor_course_le (Nat.zero_le _) dts
  monotone := (o.setPath path).monotone_cursor_course dts
  step := (o.setPath path).course_succ_cases dts
  reached n k hk := by
    obtain ⟨m, hm, hbefore, hafter, hposition⟩ := exists_reached (o := o.setPath path) rfl hk
    refine ⟨m, ⟨hm, hbefore, hafter, hposition⟩, ?_⟩
    rintro m' ⟨-, hbefore', hafter', -⟩
    -- Each of the two steps begins with a lower cursor than the other one ends with.
    have hmono := (o.setPath path).monotone_cursor_course dts
    have hlt : m' < m + 1 := hmono.reflect_lt (by simp only [hbefore', hafter, Nat.lt_succ_self])
    have hgt : m < m' + 1 := hmono.reflect_lt (by simp only [hbefore, hafter', Nat.lt_succ_self])
    exact le_antisymm (Nat.le_of_lt_succ hlt) (Nat.le_of_lt_succ hgt)
  finished m n dt hle hend := by
    rw [course_of_cursor_eq hend hle]
    refine advance_of_getElem?_eq_none ?_ dt
    rw [path_course]
    exact List.getElem?_eq_none hend.ge

/-- Where waypoints repeat, each of them takes a step of its own, even one of no time. -/
example : ((((player "p" ⟨3, 0⟩).setPath [⟨3, 0⟩, ⟨3, 0⟩, ⟨9, 0⟩]).course fun _ => 0) 3).cursor =
    2 := by decide +kernel

end TileWorld.Object
