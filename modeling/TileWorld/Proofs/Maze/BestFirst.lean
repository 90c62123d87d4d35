import Mathlib.Logic.Function.Basic
import TileWorld.Proofs.Maze.Settling

/-! Best-first search by its rules. Any queue that lets go of the same nodes as the frontier leads
to the same answer. -/

namespace TileWorld

/-! ## Neighbours by direction -/

inductive Direction where
  | north | east | south | west

/-- The cell on that side; there is none above the first row or before the first column. -/
def Cell.beside? (c : Cell) : Direction → Option Cell
  | .north => if c.row = 0 then none else some ⟨c.row - 1, c.col⟩
  | .east => some ⟨c.row, c.col + 1⟩
  | .south => some ⟨c.row + 1, c.col⟩
  | .west => if c.col = 0 then none else some ⟨c.row, c.col - 1⟩

theorem Maze.neighbours_eq (m : Maze) (c : Cell) :
    m.neighbours c =
      ([.north, .east, .south, .west].filterMap c.beside?).filter m.isWalkable := by
  refine congrArg (List.filter m.isWalkable) ?_
  by_cases hrow : c.row = 0 <;> by_cases hcol : c.col = 0 <;> simp [Cell.beside?, hrow, hcol]

namespace BestFirst

/-! ## The rules -/

/-- A place for nodes to wait, pushed with their estimates. More than one node may be allowed to
leave next; when none is, no node waits. -/
structure Queue (σ : Type) where
  empty : σ
  push : σ → ℕ → Node → σ
  Pops : σ → Node → σ → Prop

/-- A search under way. -/
structure State (σ : Type) where
  waiting : σ
  visits : Cell → Option Visit

variable {σ : Type} (q : Queue σ) (m : Maze) (goal : Cell)

def enter (s : State σ) (c : Cell) (v : Visit) : State σ where
  waiting := q.push s.waiting (v.cost + c.manhattan goal) ⟨v.cost, c⟩
  visits := Function.update s.visits c (some v)

def begin (c : Cell) : State σ :=
  enter q goal ⟨q.empty, fun _ => none⟩ c ⟨0, none⟩

def relax (node : Node) (s : State σ) (next : Cell) : State σ :=
  if ∃ v ∈ s.visits next, v.cost ≤ node.cost + 1 then s
  else enter q goal s next ⟨node.cost + 1, some node.cell⟩

def expand (s : State σ) (node : Node) : State σ :=
  if ∃ v ∈ s.visits node.cell, v.cost = node.cost then
    (([.north, .east, .south, .west].filterMap node.cell.beside?).filter m.isWalkable).foldl
      (relax q goal node) s
  else s

/-- How a search ends: with the state in which the goal left, or without any. -/
inductive Ends : State σ → Option (State σ) → Prop
  | exhausted {s : State σ} : (∀ node rest, ¬ q.Pops s.waiting node rest) → Ends s none
  | arrived {s : State σ} {node : Node} {rest : σ} :
      q.Pops s.waiting node rest → node.cell = goal → Ends s (some { s with waiting := rest })
  | taken {s : State σ} {node : Node} {rest : σ} {last : Option (State σ)} :
      q.Pops s.waiting node rest → node.cell ≠ goal →
      Ends (expand q m goal { s with waiting := rest } node) last → Ends s last

/-- The cells that lead along recorded parents to `c`, followed by `path`. -/
inductive ReadBack (visits : Cell → Option Visit) : Cell → List Cell → List Cell → Prop
  | first {c : Cell} {path : List Cell} :
      (visits c).bind (·.parent) = none → ReadBack visits c path (c :: path)
  | behind {c parent : Cell} {path cells : List Cell} :
      (visits c).bind (·.parent) = some parent →
      ReadBack visits parent (c :: path) cells → ReadBack visits c path cells

/-- What the search answers when its nodes wait in `q`. -/
def Answers (start : Cell) (answer : Option (List Cell)) : Prop :=
  if m.inBounds start = false ∨ m.isWalkable goal = false then answer = none
  else if start = goal then answer = some [start]
  else ∃ last, Ends q m goal (begin q goal start) last ∧
    Option.Rel (fun s cells => ReadBack s.visits goal [] cells) last answer

variable {q m goal}

theorem ReadBack.eq {visits : Cell → Option Visit} {c : Cell} {path cells cells' : List Cell}
    (h : ReadBack visits c path cells) (h' : ReadBack visits c path cells') : cells = cells' := by
  induction h with
  | first hparent =>
      cases h' with
      | first => rfl
      | behind hparent' => cases hparent.symm.trans hparent'
  | behind hparent _ ih =>
      cases h' with
      | first hparent' => cases hparent'.symm.trans hparent
      | behind hparent' hrest =>
          cases hparent.symm.trans hparent'
          exact ih hrest

/-! ## Queues that agree with the frontier -/

/-- Related to a frontier, the queue can let go of a node exactly if the frontier does, and of no
other node than the frontier. -/
structure Queue.Follows (q : Queue σ) (R : Frontier Node → σ → Prop) : Prop where
  empty : R .empty q.empty
  push {f : Frontier Node} {w : σ} (estimate : ℕ) (node : Node) :
    R f w → R (f.push estimate node) (q.push w estimate node)
  pop {f g : Frontier Node} {w : σ} {node : Node} :
    R f w → f.pop? = some (node, g) → ∃ rest, q.Pops w node rest
  of_pops {f : Frontier Node} {w rest : σ} {node : Node} :
    R f w → q.Pops w node rest → ∃ g, f.pop? = some (node, g) ∧ R g rest

/-- Two searches that have recorded the same visits and whose nodes leave in the same order. -/
structure Agrees (R : Frontier Node → σ → Prop) (m : Maze) (s : Search) (p : State σ) : Prop where
  waiting : R s.frontier p.waiting
  visits : ∀ c, m.inBounds c = true → p.visits c = s.visit? m c

variable {R : Frontier Node → σ → Prop} {s : Search} {p : State σ} {node : Node} {c origin : Cell}

theorem Agrees.within_iff (h : Agrees R m s p) (hc : m.inBounds c = true) (n : ℕ) :
    (∃ v ∈ p.visits c, v.cost ≤ n) ↔ s.Within m c n := by
  simp only [h.visits c hc, Option.mem_def, Search.Within]

theorem Agrees.current_iff (h : Agrees R m s p) (hnode : m.inBounds node.cell = true) :
    (∃ v ∈ p.visits node.cell, v.cost = node.cost) ↔ s.Current m node := by
  simp only [h.visits _ hnode, Option.mem_def, Search.Current]

section Step

variable (hq : q.Follows R)
include hq

theorem Agrees.enter (h : Agrees R m s p) (hs : s.visits.size = m.tiles.size)
    (hc : m.inBounds c = true) (v : Visit) :
    Agrees R m (s.enter m goal c v) (BestFirst.enter q goal p c v) := by
  refine ⟨hq.push _ _ h.waiting, fun d hd => ?_⟩
  rw [Search.visit?_enter hs hc hd, ← h.visits d hd]
  exact Function.update_apply p.visits c (some v) d

theorem agrees_start (hc : m.inBounds c = true) :
    Agrees R m (Search.start m goal c) (begin q goal c) := by
  have hblank : Agrees R m ⟨.empty, Array.replicate (m.rows * m.cols) none⟩
      ⟨q.empty, fun _ => none⟩ := ⟨hq.empty, fun d _ => (Search.visit?_blank m d).symm⟩
  exact hblank.enter hq (by simp [m.size_tiles]) hc ⟨0, none⟩

theorem Agrees.relax (h : Agrees R m s p) (hs : Search.Linked m s) (hc : m.inBounds c = true) :
    Agrees R m (Search.relax m goal node s c) (BestFirst.relax q goal node p c) := by
  obtain ⟨hknown, heq⟩ | ⟨hnew, heq⟩ := Search.relax_cases m goal node s c
  · rw [heq, BestFirst.relax, if_pos ((h.within_iff hc _).mpr hknown)]
    exact h
  · rw [heq, BestFirst.relax, if_neg (mt (h.within_iff hc _).mp hnew)]
    exact h.enter hq hs.sized hc _

theorem Agrees.relaxAll (h : Agrees R m s p) (hs : Search.Linked m s)
    (hnode : m.inBounds node.cell = true) {nexts : List Cell}
    (hnexts : ∀ c ∈ nexts, c ∈ m.neighbours node.cell) :
    Agrees R m (nexts.foldl (Search.relax m goal node) s)
      (nexts.foldl (BestFirst.relax q goal node) p) := by
  induction nexts generalizing s p with
  | nil => exact h
  | cons c nexts ih =>
      obtain ⟨hc, hnexts⟩ := List.forall_mem_cons.mp hnexts
      have hin := Maze.inBounds_of_mem_neighbours hc
      exact ih (h.relax hq hs hin) (hs.relax hnode hc) hnexts

theorem Agrees.expand (h : Agrees R m s p) (hs : Search.Linked m s)
    (hnode : m.inBounds node.cell = true) :
    Agrees R m (s.expand m goal node) (BestFirst.expand q m goal p node) := by
  rw [BestFirst.expand, ← m.neighbours_eq]
  obtain ⟨hcurrent, heq⟩ | ⟨hstale, heq⟩ := Search.expand_cases m goal s node
  · rw [heq, if_pos ((h.current_iff hnode).mpr hcurrent)]
    exact h.relaxAll hq hs hnode fun _ => id
  · rw [heq, if_neg (mt (h.current_iff hnode).mp hstale)]
    exact h

/-- What leaves the queue leaves the frontier, and the searches still agree. -/
theorem Agrees.of_pops (h : Agrees R m s p) {rest : σ} (hpops : q.Pops p.waiting node rest) :
    ∃ g, s.frontier.pop? = some (node, g) ∧
      Agrees R m { s with frontier := g } { p with waiting := rest } := by
  obtain ⟨g, hpop, hrest⟩ := hq.of_pops h.waiting hpops
  exact ⟨g, hpop, hrest, h.visits⟩

/-! ## The end of a search -/

/-- With enough steps left, the program ends its search as the rules say, which they do in one way
only. -/
theorem Agrees.run {done : List Cell} (h : Agrees R m s p)
    (hs : Search.Explored m origin goal s done) {bound : ℕ}
    (hbound : Search.budget m s done < bound) :
    (∃ last, Ends q m goal p last) ∧
      ∀ last, Ends q m goal p last → Option.Rel (Agrees R m) (s.run m goal bound) last := by
  induction bound generalizing s p done with
  | zero => exact absurd hbound (Nat.not_lt_zero _)
  | succ bound ih =>
      rw [Search.run]
      cases hpop : s.frontier.pop? with
      | none =>
          have hnone : ∀ node rest, ¬ q.Pops p.waiting node rest := by
            intro node rest hpops
            obtain ⟨g, hsome, -⟩ := h.of_pops hq hpops
            cases hpop.symm.trans hsome
          refine ⟨⟨none, .exhausted hnone⟩, fun last hends => ?_⟩
          cases hends with
          | exhausted => exact .none
          | arrived hpops => exact absurd hpops (hnone _ _)
          | taken hpops => exact absurd hpops (hnone _ _)
      | some popped =>
          obtain ⟨node, g⟩ := popped
          obtain ⟨rest, hpops⟩ := hq.pop h.waiting hpop
          have hsame : ∀ {node' : Node} {rest' : σ}, q.Pops p.waiting node' rest' →
              node' = node ∧ Agrees R m { s with frontier := g } { p with waiting := rest' } := by
            intro node' rest' hpops'
            obtain ⟨g', hpop', hagrees⟩ := h.of_pops hq hpops'
            cases hpop.symm.trans hpop'
            exact ⟨rfl, hagrees⟩
          obtain ⟨hnode, hlinked⟩ := hs.linked.pop hpop
          dsimp only
          by_cases hgoal : node.cell = goal
          · rw [if_pos hgoal]
            refine ⟨⟨_, .arrived hpops hgoal⟩, fun last hends => ?_⟩
            cases hends with
            | exhausted hnone => exact absurd hpops (hnone _ _)
            | arrived hpops' => exact .some (hsame hpops').2
            | taken hpops' hother =>
                obtain ⟨rfl, -⟩ := hsame hpops'
                exact absurd hgoal hother
          · rw [if_neg hgoal]
            obtain ⟨done', hexplored, hless⟩ := hs.expand hpop hgoal
            have hrest : ∀ {rest' : σ}, q.Pops p.waiting node rest' → _ := fun hpops' =>
              ih ((hsame hpops').2.expand hq hlinked hnode) hexplored (by omega)
            constructor
            · obtain ⟨last, hlast⟩ := (hrest hpops).1
              exact ⟨last, .taken hpops hgoal hlast⟩
            · intro last hends
              cases hends with
              | exhausted hnone => exact absurd hpops (hnone _ _)
              | arrived hpops' hgoal' =>
                  obtain ⟨rfl, -⟩ := hsame hpops'
                  exact absurd hgoal' hgoal
              | taken hpops' _ hlast =>
                  obtain ⟨rfl, -⟩ := hsame hpops'
                  exact (hrest hpops').2 last hlast

end Step

/-- The program reads a route back as the rules say, unless its bound stops it first. -/
theorem Agrees.readBack_trace (h : Agrees R m s p) (hs : Search.Valid m origin goal s)
    (hc : m.inBounds c = true) {v : Visit} (hvisit : s.visit? m c = some v) (bound : ℕ)
    (path : List Cell) :
    ReadBack p.visits c path (s.trace m bound c path) ∨
      (s.trace m bound c path).length = bound + 1 + path.length := by
  induction bound generalizing c v path with
  | zero =>
      right
      simp only [Search.trace, List.length_cons]
      omega
  | succ bound ih =>
      have hparent : (p.visits c).bind (·.parent) = v.parent := by
        rw [h.visits c hc, hvisit, Option.bind_some]
      obtain ⟨-, hp⟩ | ⟨parent, u, hp, hin, hu, -⟩ := hs.parent_cases hc hvisit
      · rw [Search.trace_of_no_parent hvisit hp]
        exact .inl (.first (hparent.trans hp))
      · rw [Search.trace_of_parent hvisit hp]
        rcases ih hin hu (c :: path) with hread | hlength
        · exact .inl (.behind (hparent.trans hp) hread)
        · right
          rw [hlength, List.length_cons]
          omega

theorem Agrees.readBack_iff (h : Agrees R m s p) (hs : Search.Valid m origin goal s)
    (hc : m.inBounds c = true) {v : Visit} (hvisit : s.visit? m c = some v) {cells : List Cell} :
    ReadBack p.visits c [] cells ↔ s.trace m (m.rows * m.cols) c [] = cells := by
  have hread : ReadBack p.visits c [] (s.trace m (m.rows * m.cols) c []) := by
    refine (h.readBack_trace hs hc hvisit _ []).resolve_right fun heq => ?_
    have hlength := hs.length_trace_le_size hc hvisit
    rw [List.length_nil] at heq
    omega
  constructor
  · exact hread.eq
  · rintro rfl
    exact hread

section Answer

variable (hq : q.Follows R) {start : Cell} {answer : Option (List Cell)}
include hq

/-- However the rules end a search, they answer what the program reads back. -/
theorem rel_readBack_iff (hstart : m.inBounds start = true) (hgoal : m.isWalkable goal = true)
    {last : Option (State σ)} (hlast : Ends q m goal (begin q goal start) last) :
    Option.Rel (fun p cells => ReadBack p.visits goal [] cells) last answer ↔
      ((Search.start m goal start).run m goal m.searchBound).map
        (fun t => t.trace m (m.rows * m.cols) goal []) = answer := by
  have hexplored := Search.explored_start hstart goal
  have hbound := Search.budget_start m goal start
  have hrel := ((agrees_start hq hstart).run hq hexplored hbound).2 last hlast
  obtain ⟨hrun, -⟩ | ⟨t, v, hrun, hvalid, hvisit, -⟩ := hexplored.run hbound
  · rw [hrun] at hrel ⊢
    cases hrel
    cases answer <;> simp
  · rw [hrun] at hrel ⊢
    cases hrel with
    | @some _ p hagrees =>
        have hread : ∀ cells, ReadBack p.visits goal [] cells ↔
            t.trace m (m.rows * m.cols) goal [] = cells := fun cells =>
          hagrees.readBack_iff hvalid (Maze.inBounds_of_isWalkable hgoal) hvisit
        cases answer <;> simp [hread]

/-- A queue that follows the frontier of the program leads to its answer and to no other. -/
theorem answers_iff_of_follows :
    Answers q m goal start answer ↔ m.findPath start goal = answer := by
  rw [Answers, Maze.findPath]
  by_cases hends : m.inBounds start = false ∨ m.isWalkable goal = false
  · have hrefused : (!m.inBounds start || !m.isWalkable goal) = true := by simpa using hends
    rw [if_pos hends, if_pos hrefused]
    exact eq_comm
  · have hopen : ¬ (!m.inBounds start || !m.isWalkable goal) = true := by simpa using hends
    rw [if_neg hends, if_neg hopen]
    obtain ⟨hstart, hgoal⟩ : m.inBounds start = true ∧ m.isWalkable goal = true := by
      simpa using hends
    by_cases heq : start = goal
    · rw [if_pos heq, if_pos heq]
      exact eq_comm
    · rw [if_neg heq, if_neg heq]
      obtain ⟨⟨last, hlast⟩, -⟩ := (agrees_start hq hstart).run hq
        (Search.explored_start hstart goal) (Search.budget_start m goal start)
      constructor
      · rintro ⟨last, hlast, hanswer⟩
        exact (rel_readBack_iff hq hstart hgoal hlast).mp hanswer
      · intro hanswer
        exact ⟨last, hlast, (rel_readBack_iff hq hstart hgoal hlast).mpr hanswer⟩

end Answer

end BestFirst

end TileWorld
