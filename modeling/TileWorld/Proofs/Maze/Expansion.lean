import Mathlib.Order.Bounds.Defs
import TileWorld.Proofs.Maze.BestFirst

/-! A search followed turn after turn, with no bound on the turns. What is expanded has its distance
recorded for good. -/

namespace TileWorld.Search

variable {m : Maze} {origin goal c d : Cell} {s t : Search} {done nexts : List Cell} {node : Node}
  {n : ℕ}

/-! ## Turns -/

/-- One turn: the first node leaves the frontier and is expanded. There is none once the goal leaves
or no node waits. -/
def turn? (m : Maze) (goal : Cell) (s : Search) : Option Search :=
  match s.frontier.pop? with
  | none => none
  | some (node, frontier) =>
    if node.cell = goal then none else some ({ s with frontier }.expand m goal node)

def after? (m : Maze) (origin goal : Cell) : ℕ → Option Search
  | 0 => some (start m goal origin)
  | n + 1 => (after? m origin goal n).bind (turn? m goal)

/-- A cell waits at two different costs. -/
def Reentered (s : Search) : Prop :=
  ∃ e ∈ s.frontier.toList, ∃ e' ∈ s.frontier.toList,
    e.2.cell = e'.2.cell ∧ e.2.cost < e'.2.cost

instance (s : Search) : Decidable s.Reentered :=
  inferInstanceAs (Decidable (∃ e ∈ s.frontier.toList, ∃ e' ∈ s.frontier.toList, _))

/-- In the next turn the node leaves, is not out of date, and has its neighbours tried. -/
structure Expands (m : Maze) (goal : Cell) (s : Search) (node : Node) : Prop where
  leaves : ∃ rest, s.frontier.pop? = some (node, rest)
  other : node.cell ≠ goal
  current : s.Current m node

/-- How a search goes on from turn to turn until it ends. -/
structure Proceeds (m : Maze) (origin goal : Cell) : Prop where
  /-- A node that leaves and is not out of date carries the distance of its cell. -/
  exact : ∀ n s node rest, after? m origin goal n = some s →
    s.frontier.pop? = some (node, rest) → s.Current m node →
      IsLeast {k | m.Reaches origin k node.cell} node.cost
  once : ∀ k n s t node other, k < n → after? m origin goal k = some s →
    after? m origin goal n = some t → s.Expands m goal node → t.Expands m goal other →
      node.cell ≠ other.cell
  /-- What was recorded for an expanded cell stays. -/
  kept : ∀ k n s t node, k < n → after? m origin goal k = some s →
    after? m origin goal n = some t → s.Expands m goal node →
      t.visit? m node.cell = s.visit? m node.cell
  descends : ∀ n s c v p, after? m origin goal n = some s → m.inBounds c = true →
    s.visit? m c = some v → v.parent = some p →
      m.inBounds p = true ∧ ∃ u, s.visit? m p = some u ∧ u.cost + 1 ≤ v.cost
  rooted : ∀ n s, after? m origin goal n = some s → s.visit? m origin = some ⟨0, none⟩
  /-- From every cell reached so far the parents lead back to the origin. -/
  back : ∀ n s c v, after? m origin goal n = some s → m.inBounds c = true →
    s.visit? m c = some v →
      BestFirst.ReadBack (s.visit? m) c [] (s.trace m (m.rows * m.cols) c []) ∧
        m.IsRoute origin c (s.trace m (m.rows * m.cols) c [])
  /-- Some turn is the last one, and the answer is read back from the state behind it: none if no
  node waits there. -/
  ends : ∃ n s, n ≤ 4 * (m.rows * m.cols) + 1 ∧ after? m origin goal n = some s ∧
    turn? m goal s = none ∧
      (m.isWalkable goal = true → origin ≠ goal →
        m.findPath origin goal = s.frontier.pop?.map fun popped =>
          { s with frontier := popped.2 }.trace m (m.rows * m.cols) goal [])

/-! ## What is recorded for settled cells -/

theorem Settled.visit?_relax (h : Settled m origin goal s done) (hcurrent : s.Current m node)
    (hdone : node.cell ∈ done) (hnext : c ∈ m.neighbours node.cell) (hd : d ∈ done) :
    (Search.relax m goal node s c).visit? m d = s.visit? m d := by
  obtain ⟨-, heq⟩ | ⟨hnew, heq⟩ := relax_cases m goal node s c
  · rw [heq]
  · have hne : d ≠ c := by
      rintro rfl
      exact hnew (h.shortest d hd _ (h.reaches_next (h.inside _ hdone) hcurrent hnext))
    rw [heq]
    exact visit?_enter_of_ne h.linked (Maze.inBounds_of_mem_neighbours hnext) (h.inside d hd) goal
      _ hne

theorem Settled.visit?_relaxAll (h : Settled m origin goal s done) (hcurrent : s.Current m node)
    (hdone : node.cell ∈ done) (hnexts : ∀ c ∈ nexts, c ∈ m.neighbours node.cell)
    (hd : d ∈ done) :
    (nexts.foldl (Search.relax m goal node) s).visit? m d = s.visit? m d := by
  induction nexts generalizing s with
  | nil => rfl
  | cons c nexts ih =>
      obtain ⟨hc, hnexts⟩ := List.forall_mem_cons.mp hnexts
      have hfirst := h.relax hdone hcurrent hc
      rw [List.foldl_cons, ih hfirst.settled hfirst.current hnexts]
      exact h.visit?_relax hcurrent hdone hc hd

/-! ## The run so far -/

/-- The search after `n` turns, the cells expanded in them, and what is left to do. -/
structure Led (m : Maze) (origin goal : Cell) (n : ℕ) (s : Search) (done : List Cell) : Prop
    extends Explored m origin goal s done where
  arrived : after? m origin goal n = some s
  marked : ∀ k < n, ∀ t node, after? m origin goal k = some t → t.Expands m goal node →
    node.cell ∈ done ∧ s.visit? m node.cell = t.visit? m node.cell
  spent : n + budget m s done < m.searchBound

theorem led_start (horigin : m.inBounds origin = true) (goal : Cell) :
    Led m origin goal 0 (start m goal origin) [] where
  toExplored := explored_start horigin goal
  arrived := rfl
  marked := nofun
  spent := by
    rw [Nat.zero_add]
    exact budget_start m goal origin

theorem exists_pop_of_turn? (h : turn? m goal s = some t) :
    ∃ node rest, s.frontier.pop? = some (node, rest) ∧ node.cell ≠ goal ∧
      t = Search.expand m goal { s with frontier := rest } node := by
  rw [turn?] at h
  split at h
  · cases h
  · rename_i node rest hpop
    split at h
    · cases h
    · rename_i hgoal
      exact ⟨node, rest, hpop, hgoal, (Option.some.inj h).symm⟩

/-- A turn either settles the cell of the node that leaves or drops the node. -/
theorem Led.turn (h : Led m origin goal n s done) (hturn : turn? m goal s = some t) :
    ∃ done', Led m origin goal (n + 1) t done' ∧ budget m t done' < budget m s done := by
  obtain ⟨node, rest, hpop, hgoal, ht⟩ := exists_pop_of_turn? hturn
  have harrived : after? m origin goal (n + 1) = some t := by
    rw [after?, h.arrived, Option.bind_some, hturn]
  have hlast : ∀ {u : Search} {other : Node}, after? m origin goal n = some u →
      u.Expands m goal other → u = s ∧ other = node := by
    intro u other hu hother
    obtain rfl : s = u := Option.some.inj (h.arrived.symm.trans hu)
    obtain ⟨rest', hpop'⟩ := hother.leaves
    exact ⟨rfl, (Prod.mk.inj (Option.some.inj (hpop'.symm.trans hpop))).1⟩
  have hspent := h.spent
  obtain ⟨hcurrent, heq⟩ | ⟨hstale, heq⟩ :=
    expand_cases m goal { s with frontier := rest } node
  · obtain ⟨hexplored, hless⟩ := h.relaxAll hpop hgoal hcurrent
    have hsettled := h.settle hpop hcurrent fun n => h.within_of_pop hpop
    have hkept : ∀ d ∈ node.cell :: done, t.visit? m d = s.visit? m d := fun d hd => by
      rw [ht, heq]
      exact hsettled.visit?_relaxAll hcurrent List.mem_cons_self (fun _ => id) hd
    rw [← heq, ← ht] at hexplored hless
    refine ⟨node.cell :: done, ⟨hexplored, harrived, fun k hk u other hu hother => ?_, by omega⟩,
      hless⟩
    rcases Nat.lt_succ_iff_lt_or_eq.mp hk with hk | rfl
    · obtain ⟨hmem, hvisit⟩ := h.marked k hk u other hu hother
      have hmem := List.mem_cons_of_mem node.cell hmem
      exact ⟨hmem, (hkept _ hmem).trans hvisit⟩
    · obtain ⟨rfl, rfl⟩ := hlast hu hother
      exact ⟨List.mem_cons_self, hkept _ List.mem_cons_self⟩
  · obtain ⟨hexplored, hless⟩ := h.skip hpop hstale
    rw [← heq, ← ht] at hexplored hless
    refine ⟨done, ⟨hexplored, harrived, fun k hk u other hu hother => ?_, by omega⟩, hless⟩
    rcases Nat.lt_succ_iff_lt_or_eq.mp hk with hk | rfl
    · rw [ht, heq]
      exact h.marked k hk u other hu hother
    · obtain ⟨rfl, rfl⟩ := hlast hu hother
      exact absurd hother.current hstale

theorem exists_led (horigin : m.inBounds origin = true) (h : after? m origin goal n = some s) :
    ∃ done, Led m origin goal n s done := by
  induction n generalizing s with
  | zero =>
      cases h
      exact ⟨[], led_start horigin goal⟩
  | succ n ih =>
      obtain ⟨u, hu, hturn⟩ := Option.bind_eq_some_iff.mp h
      obtain ⟨done, hled⟩ := ih hu
      obtain ⟨done', hnext, -⟩ := hled.turn hturn
      exact ⟨done', hnext⟩

theorem run_of_turn?_eq_none (h : turn? m goal s = none) (bound : ℕ) :
    run m goal (bound + 1) s =
      s.frontier.pop?.map fun popped => { s with frontier := popped.2 } := by
  rw [turn?] at h
  rw [run]
  cases hpop : s.frontier.pop? with
  | none => rfl
  | some popped =>
      obtain ⟨node, rest⟩ := popped
      rw [hpop] at h
      dsimp only at h ⊢
      split at h
      · rename_i hgoal
        rw [if_pos hgoal]
        rfl
      · cases h

theorem run_of_turn?_eq_some (h : turn? m goal s = some t) (bound : ℕ) :
    run m goal (bound + 1) s = run m goal bound t := by
  obtain ⟨node, rest, hpop, hgoal, rfl⟩ := exists_pop_of_turn? h
  rw [run, hpop]
  exact if_neg hgoal

/-- With enough steps left, the bounded search takes all turns that there are. -/
theorem Led.exists_last (h : Led m origin goal n s done) {bound : ℕ}
    (hbound : budget m s done < bound) :
    ∃ n t, after? m origin goal n = some t ∧ turn? m goal t = none ∧
      run m goal bound s = t.frontier.pop?.map fun popped => { t with frontier := popped.2 } := by
  induction bound generalizing n s done with
  | zero => exact absurd hbound (Nat.not_lt_zero _)
  | succ bound ih =>
      cases hturn : turn? m goal s with
      | none => exact ⟨n, s, h.arrived, hturn, run_of_turn?_eq_none hturn bound⟩
      | some t =>
          obtain ⟨done', hnext, hless⟩ := h.turn hturn
          rw [run_of_turn?_eq_some hturn]
          exact ih hnext (by omega)

/-! ## The whole search -/

/-- The parents recorded lead to the origin, and the bound on reading them back is never met. -/
theorem Valid.readBack_trace (h : Valid m origin goal s) (hc : m.inBounds c = true) {v : Visit}
    (hvisit : s.visit? m c = some v) :
    BestFirst.ReadBack (s.visit? m) c [] (s.trace m (m.rows * m.cols) c []) := by
  have hagrees : BestFirst.Agrees (fun _ _ => True) m s
      (⟨(), s.visit? m⟩ : BestFirst.State Unit) := ⟨trivial, fun _ _ => rfl⟩
  exact (hagrees.readBack_iff h hc hvisit).mpr rfl

theorem proceeds_of_inBounds (horigin : m.inBounds origin = true) (goal : Cell) :
    Proceeds m origin goal where
  exact n s node rest hs hpop hcurrent := by
    obtain ⟨done, hled⟩ := exists_led horigin hs
    obtain ⟨v, hv, hcost⟩ := id hcurrent
    refine ⟨hcost ▸ hled.reaches _ v (hled.linked.pop hpop).1 hv, fun k hreach => ?_⟩
    obtain ⟨w, hw, hle⟩ := hled.within_of_pop hpop hreach
    cases hv.symm.trans hw
    exact hcost ▸ hle
  once k n s t node other hkn hs ht hnode hother := by
    obtain ⟨done, hled⟩ := exists_led horigin ht
    obtain ⟨rest, hpop⟩ := hother.leaves
    obtain ⟨estimate, hlist⟩ := Frontier.toList_of_pop? hpop
    have hfresh := hled.notMem_of_current (hlist ▸ List.mem_cons_self) hother.current
    intro heq
    exact hfresh (heq ▸ (hled.marked k hkn s node hs hnode).1)
  kept k n s t node hkn hs ht hnode := by
    obtain ⟨done, hled⟩ := exists_led horigin ht
    exact (hled.marked k hkn s node hs hnode).2
  descends n s c v p hs hc hvisit hp := by
    obtain ⟨done, hled⟩ := exists_led horigin hs
    obtain ⟨-, hnone⟩ | ⟨q, u, hq, hin, hu, hlt⟩ := hled.parent_cases hc hvisit
    · cases hp.symm.trans hnone
    · cases hp.symm.trans hq
      exact ⟨hin, u, hu, hlt⟩
  rooted n s hs := by
    obtain ⟨done, hled⟩ := exists_led horigin hs
    exact hled.visit_origin
  back n s c v hs hc hvisit := by
    obtain ⟨done, hled⟩ := exists_led horigin hs
    exact ⟨hled.readBack_trace hc hvisit, hled.isRoute_trace hc hvisit⟩
  ends := by
    obtain ⟨n, s, hs, hlast, hrun⟩ :=
      (led_start horigin goal).exists_last (budget_start m goal origin)
    obtain ⟨done, hled⟩ := exists_led horigin hs
    have hspent := hled.spent
    rw [Maze.searchBound] at hspent
    refine ⟨n, s, by omega, hs, hlast, fun hgoal hne => ?_⟩
    rw [Maze.findPath, if_neg (by simp [horigin, hgoal]), if_neg hne, hrun, Option.map_map]
    rfl

/-- Two ways lead around the blocked cell of the middle row. The upper one is followed first and
comes to the lower one by a detour. -/
def parted : Maze := (Maze.free 3 5).block [⟨0, 1⟩, ⟨1, 3⟩]

theorem reentered_parted : ∃ s, after? parted ⟨1, 4⟩ ⟨0, 0⟩ 7 = some s ∧ s.Reentered :=
  ⟨_, rfl, by decide⟩

/-- Every search expands a cell once at most, at its distance, and comes to an end. A cell may
nevertheless enter the frontier more than once: the first route to it need not be a shortest one. -/
theorem proceeds :
    (∀ m origin, m.inBounds origin = true → ∀ goal, Proceeds m origin goal) ∧
      ∃ m origin goal n s, after? m origin goal n = some s ∧ s.Reentered := by
  obtain ⟨s, hs, hreentered⟩ := reentered_parted
  exact ⟨fun m origin horigin goal => proceeds_of_inBounds horigin goal,
    parted, _, _, _, s, hs, hreentered⟩

theorem proceeds_parted :
    parted.inBounds ⟨1, 4⟩ = true ∧ Proceeds parted ⟨1, 4⟩ ⟨0, 0⟩ :=
  ⟨by decide, proceeds.1 parted ⟨1, 4⟩ (by decide) ⟨0, 0⟩⟩

end TileWorld.Search
