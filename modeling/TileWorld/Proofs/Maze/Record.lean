import TileWorld.Proofs.Maze.Distance
import TileWorld.Proofs.Maze.Frontier

/-! Every recorded cost is the number of steps of some walk from the origin, and costs fall along
the parents. -/

namespace TileWorld.Search

variable {m : Maze} {origin goal c d : Cell} {s : Search} {v : Visit} {node : Node} {k n : ℕ}

/-! ## Costs known so far -/

/-- A route of at most `n` steps to `c` is recorded. -/
def Within (m : Maze) (s : Search) (c : Cell) (n : ℕ) : Prop :=
  ∃ v, s.visit? m c = some v ∧ v.cost ≤ n

/-- No cheaper route to the cell of a node was found since the node was made. -/
def Current (m : Maze) (s : Search) (node : Node) : Prop :=
  ∃ v, s.visit? m node.cell = some v ∧ v.cost = node.cost

theorem Within.mono (h : s.Within m c k) (hle : k ≤ n) : s.Within m c n := by
  obtain ⟨v, hv, hcost⟩ := h
  exact ⟨v, hv, hcost.trans hle⟩

theorem Current.within (h : s.Current m node) : s.Within m node.cell node.cost := by
  obtain ⟨v, hv, hcost⟩ := h
  exact ⟨v, hv, hcost.le⟩

/-- A cell that a route through the node would improve is not the cell of the node. -/
theorem Current.ne (h : s.Current m node) (hnew : ¬ s.Within m c (node.cost + 1)) :
    node.cell ≠ c := by
  rintro rfl
  exact hnew (h.within.mono (Nat.le_succ _))

theorem relax_cases (m : Maze) (goal : Cell) (node : Node) (s : Search) (next : Cell) :
    s.Within m next (node.cost + 1) ∧ relax m goal node s next = s ∨
      ¬ s.Within m next (node.cost + 1) ∧
        relax m goal node s next = s.enter m goal next ⟨node.cost + 1, some node.cell⟩ := by
  rw [relax]
  split
  · rename_i v hv
    split
    · rename_i hle
      exact .inl ⟨⟨v, hv, hle⟩, rfl⟩
    · rename_i hlt
      refine .inr ⟨?_, rfl⟩
      rintro ⟨u, hu, hle⟩
      cases hv.symm.trans hu
      exact hlt hle
  · rename_i hv
    refine .inr ⟨?_, rfl⟩
    rintro ⟨u, hu, -⟩
    cases hv.symm.trans hu

theorem expand_cases (m : Maze) (goal : Cell) (s : Search) (node : Node) :
    s.Current m node ∧
        s.expand m goal node = (m.neighbours node.cell).foldl (relax m goal node) s ∨
      ¬ s.Current m node ∧ s.expand m goal node = s := by
  rw [expand]
  split
  · rename_i v hv
    split
    · rename_i hcost
      exact .inl ⟨⟨v, hv, hcost⟩, rfl⟩
    · rename_i hcost
      refine .inr ⟨?_, rfl⟩
      rintro ⟨u, hu, heq⟩
      cases hv.symm.trans hu
      exact hcost heq
  · rename_i hv
    refine .inr ⟨?_, rfl⟩
    rintro ⟨u, hu, -⟩
    cases hv.symm.trans hu

section Enter

variable (hs : Linked m s) (hc : m.inBounds c = true) (hd : m.inBounds d = true)
include hs hc

theorem within_enter_self (goal : Cell) (v : Visit) :
    (s.enter m goal c v).Within m c v.cost :=
  ⟨v, by rw [visit?_enter hs.sized hc hc, if_pos rfl], le_rfl⟩

include hd

theorem visit?_enter_of_ne (goal : Cell) (v : Visit) (hne : d ≠ c) :
    (s.enter m goal c v).visit? m d = s.visit? m d := by
  rw [visit?_enter hs.sized hc hd, if_neg hne]

/-- Entering a cell by a cheaper route forgets nothing. -/
theorem Within.enter (h : s.Within m d n) (goal : Cell) (hnew : ¬ s.Within m c v.cost) :
    (s.enter m goal c v).Within m d n := by
  by_cases hdc : d = c
  · subst hdc
    have hlt : v.cost < n := lt_of_not_ge fun hle => hnew (h.mono hle)
    exact (within_enter_self hs hc goal v).mono hlt.le
  · obtain ⟨u, hu, hle⟩ := h
    exact ⟨u, by rwa [visit?_enter_of_ne hs hc hd goal v hdc], hle⟩

end Enter

/-! ## The record -/

/-- Recorded costs are lengths of walks and fall along the parents up to the origin; nodes wait
under the estimate of their cost, which is not less than the cost recorded. -/
structure Valid (m : Maze) (origin goal : Cell) (s : Search) : Prop where
  linked : Linked m s
  ordered : s.frontier.Ordered
  inBounds_origin : m.inBounds origin = true
  visit_origin : s.visit? m origin = some ⟨0, none⟩
  reaches : ∀ c v, m.inBounds c = true → s.visit? m c = some v → m.Reaches origin v.cost c
  descends : ∀ c v, m.inBounds c = true → s.visit? m c = some v → c ≠ origin →
    ∃ p u, v.parent = some p ∧ s.visit? m p = some u ∧ u.cost + 1 ≤ v.cost
  estimates : ∀ e ∈ s.frontier.toList, e.1 = e.2.cost + e.2.cell.manhattan goal
  known : ∀ e ∈ s.frontier.toList, s.Within m e.2.cell e.2.cost

theorem visit?_blank (m : Maze) (c : Cell) :
    visit? m ⟨.empty, Array.replicate (m.rows * m.cols) none⟩ c = none := by
  rw [visit?, Array.getElem?_replicate]
  split <;> rfl

theorem visit?_start (horigin : m.inBounds origin = true) (hc : m.inBounds c = true)
    (goal : Cell) :
    (start m goal origin).visit? m c = if c = origin then some ⟨0, none⟩ else none := by
  rw [start, visit?_enter (by simp [m.size_tiles]) horigin hc, visit?_blank]

theorem toList_frontier_start (m : Maze) (goal origin : Cell) :
    (start m goal origin).frontier.toList = [(0 + origin.manhattan goal, ⟨0, origin⟩)] :=
  rfl

theorem valid_start (horigin : m.inBounds origin = true) (goal : Cell) :
    Valid m origin goal (start m goal origin) := by
  have hvisit : ∀ c v, m.inBounds c = true → (start m goal origin).visit? m c = some v →
      c = origin ∧ v = ⟨0, none⟩ := by
    intro c v hc hv
    rw [visit?_start horigin hc] at hv
    split at hv
    · rename_i heq
      exact ⟨heq, (Option.some.inj hv).symm⟩
    · cases hv
  have hfirst : (start m goal origin).visit? m origin = some ⟨0, none⟩ := by
    rw [visit?_start horigin horigin, if_pos rfl]
  refine ⟨linked_start horigin, Frontier.ordered_empty.push _ _, horigin, hfirst, ?_, ?_, ?_, ?_⟩
  · intro c v hc hv
    obtain ⟨rfl, rfl⟩ := hvisit c v hc hv
    exact .refl
  · intro c v hc hv hne
    exact absurd (hvisit c v hc hv).1 hne
  · rw [toList_frontier_start]
    exact List.forall_mem_singleton.mpr rfl
  · rw [toList_frontier_start]
    exact List.forall_mem_singleton.mpr ⟨_, hfirst, le_rfl⟩

namespace Valid

theorem within_origin (h : Valid m origin goal s) (n : ℕ) : s.Within m origin n :=
  ⟨_, h.visit_origin, Nat.zero_le n⟩

theorem pop (h : Valid m origin goal s) {rest : Frontier Node}
    (hpop : s.frontier.pop? = some (node, rest)) :
    Valid m origin goal { s with frontier := rest } := by
  obtain ⟨estimate, hlist⟩ := Frontier.toList_of_pop? hpop
  have hsub : ∀ e ∈ rest.toList, e ∈ s.frontier.toList := fun e he =>
    hlist ▸ List.mem_cons_of_mem _ he
  exact ⟨(h.linked.pop hpop).2, h.ordered.pop hpop, h.inBounds_origin, h.visit_origin, h.reaches,
    h.descends, fun e he => h.estimates e (hsub e he), fun e he => h.known e (hsub e he)⟩

section Enter

variable (h : Valid m origin goal s) (hnode : m.inBounds node.cell = true)
  (hcurrent : s.Current m node) (hnext : c ∈ m.neighbours node.cell)
  (hnew : ¬ s.Within m c (node.cost + 1))
include h hnode hcurrent hnext

theorem reaches_next : m.Reaches origin (node.cost + 1) c := by
  obtain ⟨u, hu, hcost⟩ := hcurrent
  exact hcost ▸ (h.reaches _ u hnode hu).step hnext

include hnew

/-- A better route to a neighbour keeps the record good: it is one step longer than that of the
node expanded, and those that go on from the neighbour have only become better. -/
theorem enter : Valid m origin goal (s.enter m goal c ⟨node.cost + 1, some node.cell⟩) := by
  obtain ⟨u, hu, hcost⟩ := id hcurrent
  have hc := Maze.inBounds_of_mem_neighbours hnext
  have horigin : origin ≠ c := fun he => hnew (he ▸ h.within_origin _)
  have hother : ∀ {d}, m.inBounds d = true → d ≠ c →
      (s.enter m goal c ⟨node.cost + 1, some node.cell⟩).visit? m d = s.visit? m d :=
    fun hd hne => visit?_enter_of_ne h.linked hc hd goal _ hne
  have hentered : (s.enter m goal c ⟨node.cost + 1, some node.cell⟩).visit? m c =
      some ⟨node.cost + 1, some node.cell⟩ := by
    rw [visit?_enter h.linked.sized hc hc, if_pos rfl]
  refine ⟨h.linked.enter hc ?_, h.ordered.push _ _, h.inBounds_origin, ?_, ?_, ?_, ?_, ?_⟩
  · rintro p ⟨⟩
    exact ⟨hnode, hnext⟩
  · rw [hother h.inBounds_origin horigin]
    exact h.visit_origin
  · intro d w hd hw
    by_cases hdc : d = c
    · subst hdc
      cases hentered.symm.trans hw
      exact h.reaches_next hnode hcurrent hnext
    · rw [hother hd hdc] at hw
      exact h.reaches d w hd hw
  · intro d w hd hw hne
    by_cases hdc : d = c
    · subst hdc
      cases hentered.symm.trans hw
      exact ⟨node.cell, u, rfl, (hother hnode (hcurrent.ne hnew)).trans hu, by simp [hcost]⟩
    · rw [hother hd hdc] at hw
      obtain ⟨p, x, hp, hx, hlt⟩ := h.descends d w hd hw hne
      by_cases hpc : p = c
      · subst hpc
        have hbetter : node.cost + 1 < x.cost :=
          lt_of_not_ge fun hle => hnew ⟨x, hx, hle⟩
        exact ⟨p, _, hp, hentered, by dsimp only; omega⟩
      · have hin := (h.linked.parents d w p hd hw hp).1
        exact ⟨p, x, hp, (hother hin hpc).trans hx, hlt⟩
  · intro e he
    rcases mem_frontier_enter.mp he with rfl | he
    · rfl
    · exact h.estimates e he
  · intro e he
    rcases mem_frontier_enter.mp he with rfl | he
    · exact within_enter_self h.linked hc goal _
    · exact (h.known e he).enter h.linked hc (h.linked.waiting e he) goal hnew

end Enter

end Valid

/-! ## The route read back -/

/-- Both cells are recorded, the first at less cost. -/
def Cheaper (m : Maze) (s : Search) (a b : Cell) : Prop :=
  ∃ u w, s.visit? m a = some u ∧ s.visit? m b = some w ∧ u.cost < w.cost

theorem Cheaper.trans {a b c : Cell} (hab : s.Cheaper m a b) (hbc : s.Cheaper m b c) :
    s.Cheaper m a c := by
  obtain ⟨u, v, hu, hv, huv⟩ := hab
  obtain ⟨v', w, hv', hw, hvw⟩ := hbc
  cases hv.symm.trans hv'
  exact ⟨u, w, hu, hw, huv.trans hvw⟩

theorem Cheaper.ne {a b : Cell} (h : s.Cheaper m a b) : a ≠ b := by
  rintro rfl
  obtain ⟨u, w, hu, hw, hlt⟩ := h
  cases hu.symm.trans hw
  exact lt_irrefl _ hlt

theorem trace_of_no_parent (hvisit : s.visit? m c = some v) (hp : v.parent = none) (bound : ℕ)
    (path : List Cell) : s.trace m (bound + 1) c path = c :: path := by
  simp [trace, hvisit, hp]

theorem trace_of_parent {p : Cell} (hvisit : s.visit? m c = some v) (hp : v.parent = some p)
    (bound : ℕ) (path : List Cell) :
    s.trace m (bound + 1) c path = s.trace m bound p (c :: path) := by
  simp [trace, hvisit, hp]

theorem suffix_trace (m : Maze) (s : Search) (bound : ℕ) (c : Cell) (path : List Cell) :
    c :: path <:+ s.trace m bound c path := by
  induction bound generalizing c path with
  | zero => exact List.suffix_rfl
  | succ bound ih =>
      rw [trace]
      split
      · exact List.suffix_rfl
      · rename_i parent _
        exact (List.suffix_cons parent (c :: path)).trans (ih parent (c :: path))

namespace Valid

variable (h : Valid m origin goal s) (hc : m.inBounds c = true) (hvisit : s.visit? m c = some v)
include h hc hvisit

theorem parent_cases : c = origin ∧ v.parent = none ∨
    ∃ p u, v.parent = some p ∧ m.inBounds p = true ∧ s.visit? m p = some u ∧
      u.cost + 1 ≤ v.cost := by
  by_cases horigin : c = origin
  · subst horigin
    cases h.visit_origin.symm.trans hvisit
    exact .inl ⟨rfl, rfl⟩
  · obtain ⟨p, u, hp, hu, hlt⟩ := h.descends c v hc hvisit horigin
    exact .inr ⟨p, u, hp, (h.linked.parents c v p hc hvisit hp).1, hu, hlt⟩

theorem isChain_trace {bound : ℕ} {path : List Cell}
    (hpath : (c :: path).IsChain (s.Cheaper m)) :
    (s.trace m bound c path).IsChain (s.Cheaper m) := by
  induction bound generalizing c v path with
  | zero => exact hpath
  | succ bound ih =>
      obtain ⟨-, hp⟩ | ⟨p, u, hp, hin, hu, hlt⟩ := h.parent_cases hc hvisit
      · rwa [trace_of_no_parent hvisit hp]
      · rw [trace_of_parent hvisit hp]
        exact ih hin hu (List.IsChain.cons_cons ⟨u, v, hu, hvisit, hlt⟩ hpath)

/-- No cell is read back twice. -/
theorem nodup_trace (bound : ℕ) : (s.trace m bound c []).Nodup := by
  have : IsTrans Cell (s.Cheaper m) := ⟨fun _ _ _ => Cheaper.trans⟩
  exact (h.isChain_trace hc hvisit (List.isChain_singleton c)).pairwise.imp Cheaper.ne

/-- The route read back has no more steps than the cost recorded. -/
theorem length_trace_le (bound : ℕ) (path : List Cell) :
    (s.trace m bound c path).length ≤ v.cost + 1 + path.length := by
  induction bound generalizing c v path with
  | zero => simp only [trace, List.length_cons]; omega
  | succ bound ih =>
      obtain ⟨-, hp⟩ | ⟨p, u, hp, hin, hu, hlt⟩ := h.parent_cases hc hvisit
      · rw [trace_of_no_parent hvisit hp, List.length_cons]
        omega
      · rw [trace_of_parent hvisit hp]
        have hlength := ih hin hu (c :: path)
        rw [List.length_cons] at hlength
        omega

/-- Reading back stops at the origin unless the bound stops it first. -/
theorem head?_trace (bound : ℕ) (path : List Cell) :
    (s.trace m bound c path).head? = some origin ∨
      (s.trace m bound c path).length = bound + 1 + path.length := by
  induction bound generalizing c v path with
  | zero =>
      right
      simp only [trace, List.length_cons]
      omega
  | succ bound ih =>
      obtain ⟨rfl, hp⟩ | ⟨p, u, hp, hin, hu, hlt⟩ := h.parent_cases hc hvisit
      · left
        rw [trace_of_no_parent hvisit hp, List.head?_cons]
      · rw [trace_of_parent hvisit hp]
        rcases ih hin hu (c :: path) with hhead | hlength
        · exact .inl hhead
        · right
          rw [hlength, List.length_cons]
          omega

/-- A trace cut off by a bound of as many steps as the maze has tiles would have more different cells
than there are tiles. -/
theorem length_trace_le_size :
    (s.trace m (m.rows * m.cols) c []).length ≤ m.rows * m.cols :=
  Maze.length_le_of_nodup (h.nodup_trace hc hvisit _) (h.linked.inBounds_trace hc nofun)

/-- With a bound of as many steps as the maze has tiles, the route read back is one from the origin
that visits no cell twice and has no more steps than the cost recorded. -/
theorem isRoute_trace : m.IsRoute origin c (s.trace m (m.rows * m.cols) c []) := by
  refine ⟨h.linked.isWalk_trace hc (List.isChain_singleton c), ?_, ?_⟩
  · have hlength := h.length_trace_le_size hc hvisit
    refine (h.head?_trace hc hvisit _ []).resolve_right fun heq => ?_
    rw [List.length_nil] at heq
    omega
  · obtain ⟨front, hfront⟩ := suffix_trace m s (m.rows * m.cols) c []
    rw [← hfront, List.getLast?_concat]

end Valid

end TileWorld.Search
