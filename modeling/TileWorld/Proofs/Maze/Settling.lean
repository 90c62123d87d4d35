import TileWorld.Proofs.Maze.Record

/-! The first node of a cell that leaves the frontier while its cost is current carries the length
of a shortest walk; the cell is settled then. -/

namespace TileWorld.Search

variable {m : Maze} {origin goal c : Cell} {s t : Search} {done : List Cell} {node : Node}
  {rest : Frontier Node} {k n : ℕ}

/-! ## Settled cells -/

/-- Cells are settled at their distance from the origin; every other cell reached so far waits at
the cost recorded, while the nodes of settled cells that still wait are out of date. -/
structure Settled (m : Maze) (origin goal : Cell) (s : Search) (done : List Cell) : Prop
    extends Valid m origin goal s where
  distinct : (s.frontier.toList.map (·.2)).Nodup
  once : done.Nodup
  inside : ∀ c ∈ done, m.inBounds c = true
  shortest : ∀ c ∈ done, ∀ n, m.Reaches origin n c → s.Within m c n
  stale : ∀ e ∈ s.frontier.toList, e.2.cell ∈ done →
    ∃ n < e.2.cost, m.Reaches origin n e.2.cell
  pending : ∀ c v, m.inBounds c = true → s.visit? m c = some v → c ∉ done →
    ∃ e ∈ s.frontier.toList, e.2 = ⟨v.cost, c⟩

theorem settled_start (horigin : m.inBounds origin = true) (goal : Cell) :
    Settled m origin goal (start m goal origin) [] := by
  refine ⟨valid_start horigin goal, ?_, .nil, nofun, nofun, fun _ _ => nofun, ?_⟩
  · rw [toList_frontier_start]
    exact List.nodup_singleton _
  · intro c v hc hv _
    rw [visit?_start horigin hc] at hv
    split at hv
    · rename_i heq
      cases hv
      rw [toList_frontier_start]
      exact ⟨_, List.mem_singleton_self _, by rw [heq]⟩
    · cases hv

namespace Settled

theorem notMem_of_current (h : Settled m origin goal s done) {estimate : ℕ}
    (hmem : (estimate, node) ∈ s.frontier.toList) (hcurrent : s.Current m node) :
    node.cell ∉ done := by
  intro hdone
  obtain ⟨n, hlt, hreach⟩ := h.stale _ hmem hdone
  obtain ⟨v, hv, hcost⟩ := hcurrent
  obtain ⟨w, hw, hle⟩ := h.shortest _ hdone n hreach
  cases hv.symm.trans hw
  dsimp only at hlt
  omega

/-- Dropping a node that is out of date loses nothing. -/
theorem skip (h : Settled m origin goal s done) (hpop : s.frontier.pop? = some (node, rest))
    (hcurrent : ¬ s.Current m node) : Settled m origin goal { s with frontier := rest } done := by
  obtain ⟨estimate, hlist⟩ := Frontier.toList_of_pop? hpop
  have hdistinct := h.distinct
  rw [hlist, List.map_cons, List.nodup_cons] at hdistinct
  refine ⟨h.toValid.pop hpop, hdistinct.2, h.once, h.inside, h.shortest, ?_, ?_⟩
  · intro e he
    exact h.stale e (hlist ▸ List.mem_cons_of_mem _ he)
  · intro c v hc hv hdone
    obtain ⟨e, he, heq⟩ := h.pending c v hc hv hdone
    rw [hlist] at he
    rcases List.mem_cons.mp he with rfl | he
    · cases heq
      exact absurd ⟨v, hv, rfl⟩ hcurrent
    · exact ⟨e, he, heq⟩

/-- Taking a node whose cost is current and least settles its cell. -/
theorem settle (h : Settled m origin goal s done) (hpop : s.frontier.pop? = some (node, rest))
    (hcurrent : s.Current m node)
    (hleast : ∀ n, m.Reaches origin n node.cell → s.Within m node.cell n) :
    Settled m origin goal { s with frontier := rest } (node.cell :: done) := by
  obtain ⟨estimate, hlist⟩ := Frontier.toList_of_pop? hpop
  obtain ⟨hin, -⟩ := h.linked.pop hpop
  obtain ⟨v, hv, hcost⟩ := id hcurrent
  have hfirst : (estimate, node) ∈ s.frontier.toList := hlist ▸ List.mem_cons_self
  have hrest : ∀ e ∈ rest.toList, e ∈ s.frontier.toList := fun e he =>
    hlist ▸ List.mem_cons_of_mem _ he
  have hdistinct := h.distinct
  rw [hlist, List.map_cons, List.nodup_cons] at hdistinct
  refine ⟨h.toValid.pop hpop, hdistinct.2,
    List.nodup_cons.mpr ⟨h.notMem_of_current hfirst hcurrent, h.once⟩,
    List.forall_mem_cons.mpr ⟨hin, h.inside⟩, List.forall_mem_cons.mpr ⟨hleast, h.shortest⟩,
    ?_, ?_⟩
  · intro e he hdone
    rcases List.mem_cons.mp hdone with heq | hdone
    · -- Any other node of the same cell entered before this one, at a greater cost.
      refine ⟨v.cost, ?_, heq ▸ h.reaches _ v hin hv⟩
      obtain ⟨w, hw, hle⟩ := h.known e (hrest e he)
      rw [heq, hv] at hw
      cases hw
      refine lt_of_le_of_ne hle fun hsame => hdistinct.1 (List.mem_map.mpr ⟨e, he, ?_⟩)
      calc
        e.2 = ⟨e.2.cost, e.2.cell⟩ := rfl
        _ = ⟨node.cost, node.cell⟩ := by rw [heq, ← hsame, hcost]
    · exact h.stale e (hrest e he) hdone
  · intro c w hc hw hdone
    obtain ⟨hne, hdone⟩ := not_or.mp (mt List.mem_cons.mpr hdone)
    obtain ⟨e, he, heq⟩ := h.pending c w hc hw hdone
    rw [hlist] at he
    rcases List.mem_cons.mp he with rfl | he
    · cases heq
      exact absurd rfl hne
    · exact ⟨e, he, heq⟩

/-! ## Relaxing the neighbours of a settled cell -/

section Relax

variable (h : Settled m origin goal s done) (hdone : node.cell ∈ done)
  (hcurrent : s.Current m node) (hnext : c ∈ m.neighbours node.cell)
include h hdone hcurrent hnext

theorem enter (hnew : ¬ s.Within m c (node.cost + 1)) :
    Settled m origin goal (s.enter m goal c ⟨node.cost + 1, some node.cell⟩) done := by
  have hin := h.inside _ hdone
  have hc := Maze.inBounds_of_mem_neighbours hnext
  have hfresh : c ∉ done := fun hmem =>
    hnew (h.shortest c hmem _ (h.reaches_next hin hcurrent hnext))
  refine ⟨h.toValid.enter hin hcurrent hnext hnew, ?_, h.once, h.inside, ?_, ?_, ?_⟩
  · refine ((Frontier.perm_push _ _ _).map _).nodup_iff.mpr (List.nodup_cons.mpr ⟨?_, h.distinct⟩)
    intro hmem
    obtain ⟨e, he, heq⟩ := List.mem_map.mp hmem
    have hknown := h.known e he
    rw [heq] at hknown
    exact hnew hknown
  · intro d hd n hreach
    exact (h.shortest d hd n hreach).enter h.linked hc (h.inside d hd) goal hnew
  · intro e he hd
    rcases mem_frontier_enter.mp he with rfl | he
    · exact absurd hd hfresh
    · exact h.stale e he hd
  · intro d w hd hw hdd
    by_cases hdc : d = c
    · subst hdc
      rw [visit?_enter h.linked.sized hc hc, if_pos rfl] at hw
      cases hw
      exact ⟨_, mem_frontier_enter.mpr (.inl rfl), rfl⟩
    · rw [visit?_enter_of_ne h.linked hc hd goal _ hdc] at hw
      obtain ⟨e, he, heq⟩ := h.pending d w hd hw hdd
      exact ⟨e, mem_frontier_enter.mpr (.inr he), heq⟩

theorem current_enter (hnew : ¬ s.Within m c (node.cost + 1)) (v : Visit) :
    (s.enter m goal c v).Current m node := by
  obtain ⟨u, hu, hcost⟩ := id hcurrent
  have hother := visit?_enter_of_ne h.linked (Maze.inBounds_of_mem_neighbours hnext)
    (h.inside _ hdone) goal v (hcurrent.ne hnew)
  exact ⟨u, hother.trans hu, hcost⟩

end Relax

end Settled

/-- What relaxing some neighbours of a settled cell leaves. -/
structure Relaxed (m : Maze) (origin goal : Cell) (done : List Cell) (node : Node) (s : Search)
    (nexts : List Cell) (t : Search) : Prop where
  settled : Settled m origin goal t done
  current : t.Current m node
  keeps : ∀ c n, m.inBounds c = true → s.Within m c n → t.Within m c n
  reached : ∀ c ∈ nexts, t.Within m c (node.cost + 1)
  entered : t.frontier.toList.length ≤ s.frontier.toList.length + nexts.length

theorem Settled.relax (h : Settled m origin goal s done) (hdone : node.cell ∈ done)
    (hcurrent : s.Current m node) (hnext : c ∈ m.neighbours node.cell) :
    Relaxed m origin goal done node s [c] (relax m goal node s c) := by
  obtain ⟨hknown, heq⟩ | ⟨hnew, heq⟩ := relax_cases m goal node s c
  · rw [heq]
    exact ⟨h, hcurrent, fun _ _ _ => id, List.forall_mem_singleton.mpr hknown, Nat.le_succ _⟩
  · rw [heq]
    have hc := Maze.inBounds_of_mem_neighbours hnext
    refine ⟨h.enter hdone hcurrent hnext hnew, h.current_enter hdone hcurrent hnext hnew _,
      fun d n hd hwithin => hwithin.enter h.linked hc hd goal hnew,
      List.forall_mem_singleton.mpr (within_enter_self h.linked hc goal _), ?_⟩
    exact (Frontier.perm_push _ _ _).length_eq.le

theorem Settled.relaxAll (h : Settled m origin goal s done) (hdone : node.cell ∈ done)
    (hcurrent : s.Current m node) {nexts : List Cell}
    (hnexts : ∀ c ∈ nexts, c ∈ m.neighbours node.cell) :
    Relaxed m origin goal done node s nexts (nexts.foldl (Search.relax m goal node) s) := by
  induction nexts generalizing s with
  | nil => exact ⟨h, hcurrent, fun _ _ _ => id, nofun, le_rfl⟩
  | cons c nexts ih =>
      obtain ⟨hc, hnexts⟩ := List.forall_mem_cons.mp hnexts
      have hfirst := h.relax hdone hcurrent hc
      have hrest := ih hfirst.settled hfirst.current hnexts
      have hin := Maze.inBounds_of_mem_neighbours hc
      refine ⟨hrest.settled, hrest.current,
        fun d n hd hwithin => hrest.keeps d n hd (hfirst.keeps d n hd hwithin),
        List.forall_mem_cons.mpr ⟨?_, hrest.reached⟩, ?_⟩
      · exact hrest.keeps c _ hin (hfirst.reached c (List.mem_singleton_self c))
      · have hone := hfirst.entered
        have hmore := hrest.entered
        simp only [List.length_cons, List.length_nil, List.foldl_cons] at hone hmore ⊢
        omega

/-! ## Between two expansions -/

/-- The goal is not settled yet, and the neighbours of every settled cell are known to be at most
one step further away. -/
structure Explored (m : Maze) (origin goal : Cell) (s : Search) (done : List Cell) : Prop
    extends Settled m origin goal s done where
  open_goal : goal ∉ done
  closed : ∀ c ∈ done, ∀ n, m.Reaches origin n c → ∀ d ∈ m.neighbours c, s.Within m d (n + 1)

/-- Bounds the nodes that can still leave the frontier. -/
def budget (m : Maze) (s : Search) (done : List Cell) : ℕ :=
  s.frontier.toList.length + 4 * (m.rows * m.cols - done.length)

theorem explored_start (horigin : m.inBounds origin = true) (goal : Cell) :
    Explored m origin goal (start m goal origin) [] :=
  ⟨settled_start horigin goal, List.not_mem_nil, nofun⟩

theorem budget_start (m : Maze) (goal origin : Cell) :
    budget m (start m goal origin) [] < m.searchBound := by
  simp only [budget, toList_frontier_start, Maze.searchBound, List.length_cons, List.length_nil]
  omega

namespace Explored

/-- However a walk gets to a cell, either a route as short is known or a node waits on the way
whose estimate is not above that of the walk. -/
theorem within_or_waiting (h : Explored m origin goal s done) (hreach : m.Reaches origin n c) :
    s.Within m c n ∨ ∃ e ∈ s.frontier.toList, e.1 ≤ n + c.manhattan goal := by
  induction hreach with
  | refl => exact .inl (h.within_origin 0)
  | @step n a b hreach hnext ih =>
      have hcloser := (Maze.mem_neighbours.mp hnext).1.manhattan_le goal
      obtain ⟨v, hv, hle⟩ | ⟨e, he, hestimate⟩ := ih
      · by_cases hdone : a ∈ done
        · exact .inl (h.closed a hdone n hreach b hnext)
        · obtain ⟨e, he, heq⟩ := h.pending a v (hreach.inBounds h.inBounds_origin) hv hdone
          have hestimate := h.estimates e he
          rw [heq] at hestimate
          refine .inr ⟨e, he, ?_⟩
          dsimp only at hestimate
          omega
      · exact .inr ⟨e, he, by omega⟩

/-- No walk to the cell of the node that leaves is shorter than what is recorded. -/
theorem within_of_pop (h : Explored m origin goal s done)
    (hpop : s.frontier.pop? = some (node, rest)) (hreach : m.Reaches origin n node.cell) :
    s.Within m node.cell n := by
  obtain hwithin | ⟨e, he, hle⟩ := h.within_or_waiting hreach
  · exact hwithin
  · obtain ⟨estimate, hlist, hleast⟩ := h.ordered.exists_least hpop
    have hmem : (estimate, node) ∈ s.frontier.toList := hlist ▸ List.mem_cons_self
    have hestimate := h.estimates _ hmem
    have hfirst := hleast e he
    dsimp only at hestimate
    exact (h.known _ hmem).mono (by dsimp only; omega)

/-- Once the frontier is empty, nothing that can be reached is unknown. -/
theorem not_reaches_goal (h : Explored m origin goal s done) (hempty : s.frontier.toList = []) :
    ¬ m.Reaches origin n goal := by
  intro hreach
  obtain ⟨v, hv, -⟩ | ⟨e, he, -⟩ := h.within_or_waiting hreach
  · obtain ⟨e, he, -⟩ :=
      h.pending goal v (hreach.inBounds h.inBounds_origin) hv h.open_goal
    exact List.not_mem_nil (hempty ▸ he)
  · exact List.not_mem_nil (hempty ▸ he)

theorem relaxAll (h : Explored m origin goal s done)
    (hpop : s.frontier.pop? = some (node, rest)) (hgoal : node.cell ≠ goal)
    (hcurrent : s.Current m node) :
    let t := (m.neighbours node.cell).foldl (Search.relax m goal node) { s with frontier := rest }
    Explored m origin goal t (node.cell :: done) ∧
      budget m t (node.cell :: done) < budget m s done := by
  have hsettled := h.settle hpop hcurrent fun n => h.within_of_pop hpop
  have hrelaxed := hsettled.relaxAll List.mem_cons_self hcurrent fun _ => id
  refine ⟨⟨hrelaxed.settled, List.not_mem_cons_of_ne_of_not_mem (Ne.symm hgoal) h.open_goal,
    List.forall_mem_cons.mpr ⟨?_, ?_⟩⟩, ?_⟩
  · intro n hreach d hd
    obtain ⟨v, hv, hcost⟩ := id hcurrent
    obtain ⟨w, hw, hle⟩ := h.within_of_pop hpop hreach
    cases hv.symm.trans hw
    exact (hrelaxed.reached d hd).mono (by omega)
  · intro c hc n hreach d hd
    exact hrelaxed.keeps d _ (Maze.inBounds_of_mem_neighbours hd) (h.closed c hc n hreach d hd)
  · -- Four neighbours at most enter, and four places are given up for the cell.
    obtain ⟨estimate, hlist⟩ := Frontier.toList_of_pop? hpop
    have hcells := Maze.length_le_of_nodup hsettled.once hsettled.inside
    have hentered := hrelaxed.entered
    have hfour := m.length_neighbours_le node.cell
    simp only [budget, hlist, List.length_cons] at hcells ⊢
    dsimp only at hentered
    omega

theorem skip (h : Explored m origin goal s done) (hpop : s.frontier.pop? = some (node, rest))
    (hcurrent : ¬ s.Current m node) :
    Explored m origin goal { s with frontier := rest } done ∧
      budget m { s with frontier := rest } done < budget m s done := by
  obtain ⟨estimate, hlist⟩ := Frontier.toList_of_pop? hpop
  refine ⟨⟨h.toSettled.skip hpop hcurrent, h.open_goal, h.closed⟩, ?_⟩
  simp only [budget, hlist, List.length_cons]
  omega

/-- Taking a node other than the goal leaves less to take. -/
theorem expand (h : Explored m origin goal s done)
    (hpop : s.frontier.pop? = some (node, rest)) (hgoal : node.cell ≠ goal) :
    ∃ done', Explored m origin goal (Search.expand m goal { s with frontier := rest } node) done' ∧
      budget m (Search.expand m goal { s with frontier := rest } node) done' <
        budget m s done := by
  obtain ⟨hcurrent, heq⟩ | ⟨hstale, heq⟩ :=
    expand_cases m goal { s with frontier := rest } node
  · rw [heq]
    exact ⟨_, h.relaxAll hpop hgoal hcurrent⟩
  · rw [heq]
    exact ⟨done, h.skip hpop hstale⟩

end Explored

/-- A search with enough steps left ends at the goal with a least cost recorded for it, or after
everything that can be reached. -/
theorem Explored.run (h : Explored m origin goal s done) {bound : ℕ}
    (hbound : budget m s done < bound) :
    (run m goal bound s = none ∧ ∀ n, ¬ m.Reaches origin n goal) ∨
      ∃ t v, run m goal bound s = some t ∧ Valid m origin goal t ∧
        t.visit? m goal = some v ∧ ∀ n, m.Reaches origin n goal → v.cost ≤ n := by
  induction bound generalizing s done with
  | zero => exact absurd hbound (Nat.not_lt_zero _)
  | succ bound ih =>
      rw [Search.run]
      split
      · rename_i hpop
        exact .inl ⟨rfl, fun n => h.not_reaches_goal (Frontier.pop?_eq_none_iff.mp hpop)⟩
      · rename_i node rest hpop
        dsimp only
        split
        · rename_i hgoal
          right
          obtain ⟨estimate, hlist⟩ := Frontier.toList_of_pop? hpop
          obtain ⟨v, hv, -⟩ := h.known (estimate, node) (hlist ▸ List.mem_cons_self)
          rw [hgoal] at hv
          refine ⟨_, v, rfl, h.toValid.pop hpop, hv, ?_⟩
          intro n hreach
          obtain ⟨w, hw, hle⟩ := h.within_of_pop hpop (hgoal.symm ▸ hreach)
          rw [hgoal, hv] at hw
          cases hw
          exact hle
        · rename_i hgoal
          obtain ⟨done', hexplored, hless⟩ := h.expand hpop hgoal
          exact ih hexplored (by omega)

end TileWorld.Search
