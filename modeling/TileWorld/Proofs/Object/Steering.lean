import Mathlib.Tactic.FieldSimp
import Mathlib.Tactic.Linarith
import TileWorld.Proofs.Number.Finite
import TileWorld.Proofs.Object.RoundTrip
import TileWorld.Proofs.Object.Waypoints

/-! Objects that keep a finite position however they move: those whose speed is finite and not
negative and whose waypoints are close to each other. -/

namespace TileWorld

open Number (value Nearest sign? tiny)
open Float.Model (UnpackedFloat)
open Float.Model.UnpackedFloat (Sign)

/-- The displacement from one point to the other does not overflow. -/
def Point.Spans (p q : Point) : Prop :=
  (q.x - p.x).isFinite = true ∧ (q.y - p.y).isFinite = true

namespace Object

variable {o : Object} {p : Point} {dt : Float32}

/-- The waypoints that are not reached yet. -/
def ahead (o : Object) : List Point := o.path.drop o.cursor

/-- Nothing that is computed on the way of the object can go wrong. -/
def Steerable (o : Object) : Prop :=
  o.ahead = [] ∨ (o.speed.isFinite = true ∧ ¬ o.speed < 0 ∧
    (o.position :: o.ahead).IsChain Point.Spans)

/-- The times that a step can last. -/
def Lasts (dt : Float32) : Prop := dt.isFinite = true ∧ 0 ≤ dt

/-- No steps lead to a position that is not finite. -/
def StaysFinite (o : Object) : Prop :=
  ∀ dts : ℕ → Float32, (∀ n, Lasts (dts n)) → ∀ n, (o.course dts n).position.isFinite = true

/-- Faster than one unit per second, be it backwards, or without a finite speed. -/
def Fast (o : Object) : Prop := ¬ (-1 ≤ o.speed ∧ o.speed ≤ 1)

/-- Which objects keep a finite position. -/
structure Accounted (o : Object) : Prop where
  kept : o.Steerable → o.StaysFinite
  /-- Whatever the speed is, nothing may go wrong on the way to the next waypoint. -/
  next : o.StaysFinite → ∀ target ∈ o.ahead.head?,
    o.speed.isFinite = true ∧ o.position.Spans target
  /-- A fast object can be sent to all of its waypoints. -/
  fast : o.Fast → o.StaysFinite → o.Steerable

end Object

namespace Number

variable {t x d l s m : Float32}

/-! ## One coordinate of a step -/

section Share

variable (hd : d.isFinite = true) (hfar : |value d| ≤ 2 ^ 65) (hl : l.isFinite = true)
  (hlow : 2 ^ (-11 : ℤ) ≤ value l)
include hd hfar hl hlow

theorem isFinite_share : (d / l).isFinite = true := by
  have hlpos : 0 < value l := lt_of_lt_of_le (by positivity) hlow
  refine (nearest_div hd hl hlpos.ne').isFinite (lt_of_le_of_lt ?_
    (by norm_num : (2 : ℚ) ^ 65 * 2 ^ 11 < _))
  rw [abs_div, abs_of_pos hlpos, div_le_iff₀ hlpos]
  have hlong : 1 ≤ 2 ^ 11 * value l := by
    norm_num at hlow ⊢
    linarith
  calc |value d| ≤ 2 ^ 65 * 1 := by linarith
    _ ≤ 2 ^ 65 * (2 ^ 11 * value l) := by gcongr
    _ = 2 ^ 65 * 2 ^ 11 * value l := by ring

theorem abs_value_share_mul_le (hnonneg : 0 ≤ value s) (hshort : value s ≤ 2 * value l) :
    |value (d / l) * value s| ≤ 2 ^ 68 := by
  have hlpos : 0 < value l := lt_of_lt_of_le (by positivity) hlow
  have hshare := abs_value_le_of_nearest (nearest_div hd hl hlpos.ne')
    (isFinite_share hd hfar hl hlow)
  rw [abs_div, abs_of_pos hlpos] at hshare
  have hlong := (abs_le.mp (abs_value_le hl)).2
  rw [abs_mul, abs_of_nonneg hnonneg]
  have hnil : tiny * value l ≤ 1 := by
    calc tiny * value l ≤ tiny * 2 ^ 128 :=
          mul_le_mul_of_nonneg_left (by linarith) tiny_pos.le
      _ ≤ 1 := by norm_num [tiny]
  calc |value (d / l)| * value s
      ≤ (2 * (|value d| / value l) + tiny) * (2 * value l) :=
        mul_le_mul hshare hshort hnonneg ((abs_nonneg _).trans hshare)
    _ = 4 * |value d| + 2 * (tiny * value l) := by
        field_simp
        ring
    _ ≤ 2 ^ 68 := by linarith

theorem abs_value_move_le (hs : s.isFinite = true) (hnonneg : 0 ≤ value s)
    (hshort : value s ≤ 2 * value l) :
    (d / l * s).isFinite = true ∧ |value (d / l * s)| ≤ 2 ^ 70 := by
  have hmove := nearest_mul (isFinite_share hd hfar hl hlow) hs
  have hle := abs_value_share_mul_le hd hfar hl hlow hnonneg hshort
  have hfinite : (d / l * s).isFinite = true := hmove.isFinite (lt_of_le_of_lt hle (by norm_num))
  have := abs_value_le_of_nearest hmove hfinite
  exact ⟨hfinite, by linarith [tiny_le_one]⟩

end Share

/-- A move that is not too long ends where the rest of the way is finite. -/
theorem isFinite_of_move (hd : (t - x).isFinite = true) (hfar : |value (t - x)| ≤ 2 ^ 65)
    (hm : m.isFinite = true) (hmove : |value m| ≤ 2 ^ 70) :
    (x + m).isFinite = true ∧ (t - (x + m)).isFinite = true := by
  obtain ⟨ht, hx⟩ := isFinite_of_sub hd
  have hplace := nearest_add hx hm
  have hplaceLe : |value x + value m| ≤ 2 ^ 128 - 2 ^ 104 + 2 ^ 70 :=
    (abs_add_le _ _).trans (add_le_add (abs_value_le hx) hmove)
  have hfinite : (x + m).isFinite = true := hplace.isFinite (lt_of_le_of_lt hplaceLe (by norm_num))
  refine ⟨hfinite, (nearest_sub ht hfinite).isFinite ?_⟩
  have hway : |value t - value x| ≤ 2 ^ 66 := by
    have hclose := abs_value_sub_le (nearest_sub ht hx) hd
    have := abs_sub_abs_le_abs_sub (value t - value x) (value (t - x))
    rw [abs_sub_comm _ (value (t - x))] at this
    linarith [tiny_le_one]
  -- the rest of the way is the way, less the move and the rounding of the place
  have hclose := abs_value_sub_le hplace hfinite
  have hmoved := abs_sub_le (value t) (value x) (value (x + m))
  have hplaced := abs_sub_le (value x) (value x + value m) (value (x + m))
  rw [sub_add_cancel_left, abs_neg] at hplaced
  rw [abs_sub_comm] at hclose
  linarith [tiny_le_one]

theorem value_snapTolerance : value Object.snapTolerance = 8589935 / 2 ^ 33 := by
  have hunpack : Object.snapTolerance.toModel.unpack =
      .finite .positive 8589935 (-33) (by decide) := rfl
  rw [value, hunpack, valueOf_positive]
  norm_num

theorem isFinite_add_snapTolerance (hs : s.isFinite = true) :
    (s + Object.snapTolerance).isFinite = true := by
  refine (nearest_add hs (rfl : Object.snapTolerance.isFinite = true)).isFinite ?_
  have hsum := abs_add_le (value s) (value Object.snapTolerance)
  have hle := abs_value_le hs
  have htolerance : |value Object.snapTolerance| = 8589935 / 2 ^ 33 := by
    rw [value_snapTolerance]
    norm_num
  linarith

/-- What is known of the step of an object to a point out of reach: `l` is the distance and `s` the
length of the step. -/
inductive Falls (l s : Float32) : Prop where
  | still (sign : Sign) (h : l.toModel.unpack = .infinity sign)
  | short (hl : l.isFinite = true) (hlow : 2 ^ (-11 : ℤ) ≤ value l) (hnonneg : 0 ≤ value s)
      (hshort : value s ≤ 2 * value l)

theorem isFinite_of_falls (h : ¬ (x * x + t * t).sqrt ≤ s + Object.snapTolerance)
    (hx : x.isFinite = true) (ht : t.isFinite = true) (hnonneg : 0 ≤ value s)
    (hs : s.isFinite = true ∨ s.toModel.unpack = .infinity .positive) :
    s.isFinite = true ∧ Falls (x * x + t * t).sqrt s := by
  have hsign := sign?_length_of_isFinite hx ht
  generalize (x * x + t * t).sqrt = l at h hsign ⊢
  rcases hs with hs | hs
  · refine ⟨hs, ?_⟩
    have hsum := nearest_add hs (rfl : Object.snapTolerance.isFinite = true)
    rw [value_snapTolerance] at hsum
    have hsumNonneg : 0 ≤ value s + 8589935 / 2 ^ 33 := by linarith
    have hsumFinite := isFinite_add_snapTolerance hs
    cases hl : l.isFinite with
    | false => exact .still _ (eq_infinity hl hsign)
    | true =>
        rw [le_iff_value_le hl hsumFinite, not_le] at h
        have hclose := (abs_le.mp (abs_value_sub_le hsum hsumFinite)).1
        rw [abs_of_nonneg hsumNonneg] at hclose
        have htiny : tiny ≤ 1 / 2 ^ 20 := by norm_num [tiny]
        refine .short hl ?_ hnonneg (by linarith)
        norm_num
        linarith
  · exact absurd (le_of_infinity (by rw [hsign]; rfl) (add_infinity hs rfl)) h

theorem isFinite_of_falls_step (hd : (t - x).isFinite = true) (hs : s.isFinite = true)
    (hfar : l.isFinite = true → |value (t - x)| ≤ 2 ^ 65) (h : Falls l s) :
    (x + (t - x) / l * s).isFinite = true ∧ (t - (x + (t - x) / l * s)).isFinite = true := by
  cases h with
  | still sign hl =>
      obtain ⟨r, hzero⟩ := exists_div_infinity_mul_eq_zero hd hl hs
      exact isFinite_sub_add_zero hd hzero
  | short hl hlow hnonneg hshort =>
      obtain ⟨hfinite, hmove⟩ := abs_value_move_le hd (hfar hl) hl hlow hs hnonneg hshort
      exact isFinite_of_move hd (hfar hl) hfinite hmove

end Number

namespace Object

variable {o : Object} {target : Point} {dt : Float32}

/-! ## One step -/

theorem getElem?_cursor (o : Object) : o.path[o.cursor]? = o.ahead.head? := by
  rw [ahead, List.head?_drop]

/-- Where a step leads that does not reach the next waypoint. -/
def toward (o : Object) (target : Point) (dt : Float32) : Point :=
  let dx := target.x - o.position.x
  let dy := target.y - o.position.y
  let distance := (dx * dx + dy * dy).sqrt
  let step := o.speed * dt
  ⟨o.position.x + dx / distance * step, o.position.y + dy / distance * step⟩

theorem advance_of_not_inReach (htarget : o.path[o.cursor]? = some target)
    (h : ¬ o.InReach target dt) :
    (o.advance dt).1 = { o with position := o.toward target dt } := by
  rw [advance, htarget]
  exact congrArg Prod.fst (if_neg h)

theorem spans_toward (hspans : o.position.Spans target) (hspeed : o.speed.isFinite = true)
    (hforward : ¬ o.speed < 0) (hdt : Lasts dt) (h : ¬ o.InReach target dt) :
    (o.toward target dt).isFinite = true ∧ (o.toward target dt).Spans target := by
  obtain ⟨hdx, hdy⟩ := hspans
  obtain ⟨hnonneg, hstep⟩ := Number.mul_of_nonneg hspeed hdt.1
    (Number.value_nonneg_of_not_lt hspeed hforward) (Number.value_nonneg_of_le hdt.1 hdt.2)
  obtain ⟨hstep, hfalls⟩ := Number.isFinite_of_falls h hdx hdy hnonneg hstep
  have hsquares : ((target.x - o.position.x) * (target.x - o.position.x) +
      (target.y - o.position.y) * (target.y - o.position.y)).sqrt.isFinite = true →
      |value (target.x - o.position.x)| ≤ 2 ^ 65 ∧ |value (target.y - o.position.y)| ≤ 2 ^ 65 := by
    intro hdistance
    obtain ⟨hx, hy⟩ := Number.isFinite_of_add (Number.isFinite_of_sqrt hdistance)
    exact ⟨Number.abs_value_le_of_mul_self hx, Number.abs_value_le_of_mul_self hy⟩
  obtain ⟨hxfinite, hxspan⟩ := Number.isFinite_of_falls_step hdx hstep
    (fun hl => (hsquares hl).1) hfalls
  obtain ⟨hyfinite, hyspan⟩ := Number.isFinite_of_falls_step hdy hstep
    (fun hl => (hsquares hl).2) hfalls
  exact ⟨by rw [Point.isFinite, Bool.and_eq_true]; exact ⟨hxfinite, hyfinite⟩, hxspan, hyspan⟩

theorem ahead_advance_of_inReach {rest : List Point} (hahead : o.ahead = target :: rest)
    (h : o.InReach target dt) :
    (o.advance dt).1.position = target ∧ (o.advance dt).1.ahead = rest ∧
      (o.advance dt).1.speed = o.speed := by
  have htarget : o.path[o.cursor]? = some target := by rw [getElem?_cursor, hahead]; rfl
  have hrest : o.path.drop (o.cursor + 1) = rest := by
    rw [← List.tail_drop]
    exact congrArg List.tail hahead
  rw [advance_of_inReach htarget h]
  exact ⟨rfl, hrest, rfl⟩

theorem steerable_advance (hposition : o.position.isFinite = true) (h : o.Steerable)
    (hdt : Lasts dt) :
    (o.advance dt).1.position.isFinite = true ∧ (o.advance dt).1.Steerable := by
  cases hahead : o.ahead with
  | nil =>
      have hnone : o.path[o.cursor]? = none := by rw [getElem?_cursor, hahead]; rfl
      rw [advance_of_getElem?_eq_none hnone]
      exact ⟨hposition, h⟩
  | cons target rest =>
      rcases h with hnil | ⟨hspeed, hforward, hchain⟩
      · cases hnil.symm.trans hahead
      rw [hahead, List.isChain_cons_cons] at hchain
      obtain ⟨hspans, hchain⟩ := hchain
      have htarget : o.path[o.cursor]? = some target := by rw [getElem?_cursor, hahead]; rfl
      by_cases hreach : o.InReach target dt
      · obtain ⟨hmoved, hleft, hkept⟩ := ahead_advance_of_inReach hahead hreach
        unfold Steerable
        rw [hmoved, hleft, hkept]
        refine ⟨?_, .inr ⟨hspeed, hforward, hchain⟩⟩
        rw [Point.isFinite, Bool.and_eq_true]
        exact ⟨(Number.isFinite_of_sub hspans.1).1, (Number.isFinite_of_sub hspans.2).1⟩
      · obtain ⟨hfinite, hmoved⟩ := spans_toward hspans hspeed hforward hdt hreach
        rw [advance_of_not_inReach htarget hreach]
        refine ⟨hfinite, .inr ⟨hspeed, hforward, ?_⟩⟩
        change (o.toward target dt :: o.ahead).IsChain Point.Spans
        rw [hahead]
        exact List.isChain_cons_cons.mpr ⟨hmoved, hchain⟩

theorem spans_of_isFinite_toward (h : (o.toward target dt).isFinite = true) :
    o.position.Spans target ∧ (o.speed * dt).isFinite = true := by
  rw [Point.isFinite, Bool.and_eq_true] at h
  obtain ⟨hdx, hstep⟩ := Number.isFinite_of_mul (Number.isFinite_of_add h.1).2
  obtain ⟨hdy, -⟩ := Number.isFinite_of_mul (Number.isFinite_of_add h.2).2
  exact ⟨⟨Number.isFinite_of_div hdx, Number.isFinite_of_div hdy⟩, hstep⟩

/-! ## All steps -/

theorem course_succ_advance (o : Object) (dts : ℕ → Float32) (n : ℕ) :
    o.course dts (n + 1) = (o.advance (dts 0)).1.course (fun k => dts (k + 1)) n := by
  induction n with
  | zero => rfl
  | succ n ih => rw [course, ih, course]

theorem staysFinite_of_steerable (hposition : o.position.isFinite = true) (h : o.Steerable) :
    o.StaysFinite := by
  intro dts hdts n
  suffices hsteerable : (o.course dts n).position.isFinite = true ∧ (o.course dts n).Steerable from
    hsteerable.1
  induction n with
  | zero => exact ⟨hposition, h⟩
  | succ n ih => exact steerable_advance ih.1 ih.2 (hdts n)

theorem StaysFinite.advance (h : o.StaysFinite) (hdt : Lasts dt) :
    (o.advance dt).1.position.isFinite = true ∧ (o.advance dt).1.StaysFinite := by
  have hall : ∀ dts : ℕ → Float32, (∀ n, Lasts (dts n)) → ∀ n,
      ((o.advance dt).1.course dts n).position.isFinite = true := by
    intro dts hdts n
    have hlasts : ∀ k : ℕ, Lasts (k.casesOn dt dts) := fun k => by
      cases k with
      | zero => exact hdt
      | succ k => exact hdts k
    have := h _ hlasts (n + 1)
    rwa [course_succ_advance] at this
  exact ⟨hall (fun _ => dt) (fun _ => hdt) 0, hall⟩

/-! ## Steps that go wrong -/

theorem lasts_zero : Lasts 0 := ⟨rfl, (Number.le_iff_unpack 0 0).mpr rfl⟩

theorem lasts_longest : Lasts Number.longest := ⟨rfl, (Number.le_iff_unpack 0 _).mpr rfl⟩

section Kept

variable {rest : List Point} (h : o.StaysFinite) (hahead : o.ahead = target :: rest)
include h hahead

theorem StaysFinite.of_not_inReach (hdt : Lasts dt) (hout : ¬ o.InReach target dt) :
    o.position.Spans target ∧ (o.speed * dt).isFinite = true := by
  have htarget : o.path[o.cursor]? = some target := by rw [getElem?_cursor, hahead]; rfl
  have hmoved := (h.advance hdt).1
  rw [advance_of_not_inReach htarget hout] at hmoved
  exact spans_of_isFinite_toward hmoved

theorem StaysFinite.isFinite_speed : o.speed.isFinite = true := by
  by_contra hspeed
  rw [Bool.not_eq_true] at hspeed
  have hnan := Number.mul_zero_of_not_isFinite hspeed
  have hout : ¬ o.InReach target 0 := Number.not_le_of_nan (Number.add_of_nan hnan _)
  have hstep := (h.of_not_inReach hahead lasts_zero hout).2
  exact absurd (Number.isFinite_of_mul hstep).1 (by rw [hspeed]; decide)

theorem StaysFinite.spans : o.position.Spans target := by
  by_contra hspans
  have hspeed := h.isFinite_speed hahead
  have hstep : (o.speed * 0).isFinite = true := by
    refine (Number.nearest_mul hspeed rfl).isFinite ?_
    have hzero : value 0 = 0 := rfl
    rw [hzero, mul_zero, abs_zero]
    norm_num
  refine hspans (h.of_not_inReach hahead lasts_zero ?_).1
  refine Number.not_le_of_not_isFinite ?_ (Number.sign?_length_ne_negative _ _)
    (Number.isFinite_add_snapTolerance hstep)
  rw [Bool.eq_false_iff]
  intro hdistance
  obtain ⟨hx, hy⟩ := Number.isFinite_of_add (Number.isFinite_of_sqrt hdistance)
  exact hspans ⟨(Number.isFinite_of_mul hx).1, (Number.isFinite_of_mul hy).1⟩

theorem StaysFinite.one_lt_value_speed (hfast : o.Fast) : 1 < value o.speed := by
  have hspeed := h.isFinite_speed hahead
  by_contra hslow
  have hback : value o.speed < -1 := by
    by_contra hforth
    refine hfast ⟨(Number.le_iff_value_le rfl hspeed).mpr ?_,
      (Number.le_iff_value_le hspeed rfl).mpr ?_⟩
    · rw [Number.value_neg_one]
      exact not_lt.mp hforth
    · rw [Number.value_one]
      exact not_lt.mp hslow
  have hinfinite := Number.mul_longest_of_lt hspeed hback
  have hout : ¬ o.InReach target Number.longest :=
    Number.not_le_of_negative_infinity (Number.sign?_length_ne_negative _ _)
      (Number.add_infinity hinfinite rfl)
  have hstep := (h.of_not_inReach hahead lasts_longest hout).2
  rw [Number.isFinite_mul_longest hspeed (lt_abs.mpr (.inr (by linarith)))] at hstep
  cases hstep

end Kept

/-- The longest step of a fast object reaches every point. -/
theorem inReach_longest (hspans : o.position.Spans target) (hspeed : o.speed.isFinite = true)
    (hfast : 1 < value o.speed) : o.InReach target Number.longest := by
  have hinfinite := Number.isFinite_mul_longest hspeed (lt_abs.mpr (.inl hfast))
  have hlongest : 0 ≤ value Number.longest := by
    rw [Number.value_longest]
    norm_num
  have hstep := (Number.mul_of_nonneg hspeed rfl (by linarith) hlongest).2
  rw [hinfinite] at hstep
  refine Number.le_of_infinity ?_ (Number.add_infinity (hstep.resolve_left nofun) rfl)
  rw [Number.sign?_length_of_isFinite hspans.1 hspans.2]
  rfl

theorem StaysFinite.steerable (h : o.StaysFinite) (hfast : o.Fast) : o.Steerable := by
  induction hahead : o.ahead generalizing o with
  | nil => exact .inl hahead
  | cons target rest ih =>
      have hspeed := h.isFinite_speed hahead
      have hspans := h.spans hahead
      have hforward := h.one_lt_value_speed hahead hfast
      have hreach := inReach_longest hspans hspeed hforward
      obtain ⟨hmoved, hleft, hkept⟩ := ahead_advance_of_inReach hahead hreach
      have hrest : (target :: rest).IsChain Point.Spans := by
        have hadvanced := ih (h.advance lasts_longest).2 (by rwa [Fast, hkept]) hleft
        rw [Steerable, hmoved, hleft] at hadvanced
        rcases hadvanced with rfl | ⟨-, -, hchain⟩
        · exact List.isChain_singleton target
        · exact hchain
      refine .inr ⟨hspeed, fun hlt => ?_, ?_⟩
      · have : value o.speed < 0 := (Number.lt_iff_value_lt hspeed rfl).mp hlt
        linarith
      · rw [hahead]
        exact List.isChain_cons_cons.mpr ⟨hspans, hrest⟩

theorem isFinite_position_of_ofRecord {r : Record} (h : ofRecord r = .ok o) :
    o.position.isFinite = true := by
  obtain ⟨kind, -, -, -, ⟨hx, hy⟩, rfl⟩ := ofRecord_eq_ok_iff.mp h
  split <;>
  · rw [Point.isFinite, Bool.and_eq_true]
    exact ⟨hx, hy⟩

/-- Of the objects that are read from records, those that are steerable keep a finite position, and
fast ones only then. -/
theorem accounted_of_ofRecord {r : Record} (h : ofRecord r = .ok o) : o.Accounted where
  kept := staysFinite_of_steerable (isFinite_position_of_ofRecord h)
  next := by
    intro hfinite target htarget
    obtain ⟨rest, hahead⟩ := List.head?_eq_some_iff.mp htarget
    exact ⟨hfinite.isFinite_speed hahead, hfinite.spans hahead⟩
  fast := fun hfast hfinite => hfinite.steerable hfast

/-- A player at the origin with one waypoint. -/
def errand (speed : Float32) (waypoint : Point) : Object :=
  { player "p" ⟨0, 0⟩ with speed, path := [waypoint] }

theorem ofRecord_errand (speed : Float32) (waypoint : Point) :
    ofRecord (errand speed waypoint).toRecord = .ok (errand speed waypoint) := by
  refine (ofRecord_toRecord_eq_ok_iff (Nat.zero_le _) fun _ => rfl).mpr ⟨?_, ?_⟩
  · rw [Point.isFinite, Bool.and_eq_true]
    exact ⟨lasts_zero.1, lasts_zero.1⟩
  · exact (restored_eq_self_iff.mpr ⟨rfl, rfl, List.cons_ne_nil _ _⟩).symm

theorem staysFinite_errand : (errand 160 ⟨10, 0⟩).StaysFinite := by
  refine (accounted_of_ofRecord (ofRecord_errand 160 ⟨10, 0⟩)).kept (.inr ⟨rfl, ?_, ?_⟩)
  · rw [Number.lt_iff_unpack]
    exact Bool.noConfusion
  · exact List.isChain_pair.mpr ⟨rfl, rfl⟩

/-- A player that stands on its waypoint and goes backwards divides nothing by nothing. -/
theorem not_staysFinite_errand :
    ofRecord (errand (-5) ⟨0, 0⟩).toRecord = .ok (errand (-5) ⟨0, 0⟩) ∧
      ¬ (errand (-5) ⟨0, 0⟩).StaysFinite := by
  refine ⟨ofRecord_errand _ _, fun h => ?_⟩
  have hmoved := h (fun _ => 1) (fun _ => ⟨rfl, (Number.le_iff_unpack 0 1).mpr rfl⟩) 1
  exact absurd hmoved nofun

end Object

end TileWorld
