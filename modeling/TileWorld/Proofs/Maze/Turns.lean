import Mathlib.Data.Multiset.AddSub
import TileWorld.Proofs.Maze.BestFirst

/-! A list in order of arrival, and a heap that knows this order by numbers alone: both let go of
the same nodes as the frontier. -/

namespace TileWorld

namespace BestFirst

/-! ## In the order of arrival -/

/-- Nodes with their estimates in the order in which they were pushed. The earliest of those with
the least estimate leaves. -/
def inTurn : Queue (List (ℕ × Node)) where
  empty := []
  push entries estimate node := entries ++ [(estimate, node)]
  Pops entries node rest := ∃ estimate before after,
    entries = before ++ (estimate, node) :: after ∧ rest = before ++ after ∧
      (∀ e ∈ before, estimate < e.1) ∧ ∀ e ∈ after, estimate ≤ e.1

/-- The same nodes wait, and those of one estimate leave in the order in which they came. -/
structure Queued (f : Frontier Node) (entries : List (ℕ × Node)) : Prop where
  ordered : f.Ordered
  alike : ∀ k, Frontier.withEstimate k f.toList = Frontier.withEstimate k entries

namespace Queued

variable {f g : Frontier Node} {entries rest : List (ℕ × Node)} {node : Node}

theorem mem_iff (h : Queued f entries) {e : ℕ × Node} : e ∈ f.toList ↔ e ∈ entries := by
  have hmem : e ∈ Frontier.withEstimate e.1 f.toList ↔ e ∈ Frontier.withEstimate e.1 entries := by
    rw [h.alike]
  simpa [Frontier.mem_withEstimate] using hmem

theorem push (h : Queued f entries) (estimate : ℕ) (node : Node) :
    Queued (f.push estimate node) (inTurn.push entries estimate node) := by
  refine ⟨h.ordered.push estimate node, fun k => ?_⟩
  rw [h.ordered.withEstimate_push, Frontier.withEstimate_append, h.alike,
    ← Frontier.withEstimate_append]
  rfl

theorem pop (h : Queued f entries) (hpop : f.pop? = some (node, g)) :
    ∃ rest, inTurn.Pops entries node rest := by
  obtain ⟨estimate, hlist, hleast⟩ := h.ordered.exists_least hpop
  have hfirst : Frontier.withEstimate estimate entries =
      (estimate, node) :: Frontier.withEstimate estimate g.toList := by
    rw [← h.alike, hlist, Frontier.withEstimate_cons, if_pos rfl]
  obtain ⟨before, after, hentries, hbefore, -, -⟩ := List.filter_eq_cons_iff.mp hfirst
  have hle : ∀ e ∈ entries, estimate ≤ e.1 := fun e he => hleast e (h.mem_iff.mpr he)
  rw [hentries, List.forall_mem_append, List.forall_mem_cons] at hle
  refine ⟨before ++ after, estimate, before, after, hentries, rfl, fun e he => ?_, hle.2.2⟩
  exact (hle.1 e he).lt_of_ne' (by simpa using hbefore e he)

/-- The frontier without its first node holds what the list holds without the earliest entry of the
least estimate. -/
theorem of_pops (h : Queued f entries) (hpops : inTurn.Pops entries node rest) :
    ∃ g, f.pop? = some (node, g) ∧ Queued g rest := by
  obtain ⟨estimate, before, after, rfl, rfl, hbefore, hafter⟩ := hpops
  have hmem : (estimate, node) ∈ f.toList := h.mem_iff.mpr (by simp)
  obtain ⟨⟨first, g⟩, hpop⟩ : ∃ popped, f.pop? = some popped := by
    refine Option.ne_none_iff_exists'.mp fun hnone => ?_
    rw [Frontier.pop?_eq_none_iff.mp hnone] at hmem
    cases hmem
  obtain ⟨least, hlist, hleast⟩ := h.ordered.exists_least hpop
  have hle : ∀ e ∈ before ++ (estimate, node) :: after, estimate ≤ e.1 :=
    List.forall_mem_append.mpr ⟨fun e he => (hbefore e he).le,
      List.forall_mem_cons.mpr ⟨le_rfl, hafter⟩⟩
  have hfirst : (least, first) ∈ f.toList := hlist ▸ List.mem_cons_self
  obtain rfl : least = estimate :=
    le_antisymm (hleast _ hmem) (hle _ (h.mem_iff.mp hfirst))
  have halike : ∀ k, Frontier.withEstimate k ((least, first) :: g.toList) =
      Frontier.withEstimate k before ++ Frontier.withEstimate k ((least, node) :: after) :=
    fun k => by rw [← hlist, h.alike, Frontier.withEstimate_append]
  have hnone := Frontier.withEstimate_eq_nil hbefore
  have hheads := halike least
  rw [hnone, Frontier.withEstimate_cons, Frontier.withEstimate_cons, if_pos rfl, if_pos rfl,
    List.nil_append] at hheads
  injection hheads with hentry hrest
  obtain rfl : first = node := congrArg Prod.snd hentry
  refine ⟨g, hpop, h.ordered.pop hpop, fun k => ?_⟩
  rw [Frontier.withEstimate_append]
  by_cases hk : least = k
  · subst hk
    rw [hnone, hrest]
    rfl
  · have hothers := halike k
    rwa [Frontier.withEstimate_cons, Frontier.withEstimate_cons, if_neg hk, if_neg hk] at hothers

end Queued

theorem follows_inTurn : inTurn.Follows Queued :=
  ⟨⟨Frontier.ordered_empty, fun _ => rfl⟩, fun _ _ h => h.push _ _, Queued.pop, Queued.of_pops⟩

/-! ## By number -/

/-- A node in a heap, with the number of nodes that were pushed before it. -/
structure Ticket where
  estimate : ℕ
  cost : ℕ
  tie : ℕ
  cell : Cell

/-- The reverse order of the estimates, and of the numbers where the estimates are equal. -/
instance : Ord Ticket where
  compare a b := (compare b.estimate a.estimate).then (compare b.tie a.tie)

structure Heap where
  tickets : Multiset Ticket
  issued : ℕ

/-- A greatest ticket leaves, whichever it is. -/
def greatest : Queue Heap where
  empty := ⟨0, 0⟩
  push h estimate node := ⟨⟨estimate, node.cost, h.issued, node.cell⟩ ::ₘ h.tickets, h.issued + 1⟩
  Pops h node rest := ∃ t : Ticket, node = ⟨t.cost, t.cell⟩ ∧
    h.tickets = t ::ₘ rest.tickets ∧ rest.issued = h.issued ∧
      ∀ u ∈ h.tickets, (compare u t).isLE

def Ticket.entry (t : Ticket) : ℕ × Node := (t.estimate, ⟨t.cost, t.cell⟩)

theorem Ticket.isLE_compare_iff {t u : Ticket} :
    (compare u t).isLE ↔ t.estimate < u.estimate ∨ t.estimate = u.estimate ∧ t.tie ≤ u.tie := by
  have hcompare : compare u t = (compare t.estimate u.estimate).then (compare t.tie u.tie) := rfl
  rw [hcompare]
  rcases lt_trichotomy t.estimate u.estimate with hlt | heq | hgt
  · simp [compare_lt_iff_lt.mpr hlt, hlt]
  · simp [heq, ← Nat.isLE_compare]
  · simp [compare_gt_iff_gt.mpr hgt, hgt.not_gt, hgt.ne']

/-- The heap holds the entries, with numbers that ascend in the order of arrival. -/
def Numbered (entries : List (ℕ × Node)) (h : Heap) : Prop :=
  ∃ tickets : List Ticket, h.tickets = tickets ∧ entries = tickets.map Ticket.entry ∧
    tickets.Pairwise (fun t u => t.tie < u.tie) ∧ ∀ t ∈ tickets, t.tie < h.issued

theorem coe_middle (first last : List Ticket) (t : Ticket) :
    (↑(first ++ t :: last) : Multiset Ticket) = t ::ₘ ↑(first ++ last) :=
  Multiset.coe_eq_coe.mpr List.perm_middle

namespace Numbered

variable {entries rest : List (ℕ × Node)} {h h' : Heap} {node : Node}

theorem empty : Numbered inTurn.empty greatest.empty :=
  ⟨[], rfl, rfl, .nil, nofun⟩

theorem push (hn : Numbered entries h) (estimate : ℕ) (node : Node) :
    Numbered (inTurn.push entries estimate node) (greatest.push h estimate node) := by
  obtain ⟨tickets, htickets, rfl, hties, hissued⟩ := hn
  refine ⟨tickets ++ [⟨estimate, node.cost, h.issued, node.cell⟩], ?_, ?_, ?_, ?_⟩
  · show (_ ::ₘ h.tickets) = _
    rw [htickets, Multiset.cons_coe, Multiset.coe_eq_coe]
    exact (List.perm_append_singleton _ _).symm
  · rw [List.map_append]
    rfl
  · refine List.pairwise_append.mpr ⟨hties, List.pairwise_singleton _ _, fun t ht u hu => ?_⟩
    rw [List.mem_singleton.mp hu]
    exact hissued t ht
  · refine List.forall_mem_append.mpr ⟨fun t ht => Nat.lt_succ_of_lt (hissued t ht), ?_⟩
    exact List.forall_mem_singleton.mpr (Nat.lt_succ_self _)

theorem pop (hn : Numbered entries h) (hpops : inTurn.Pops entries node rest) :
    ∃ h', greatest.Pops h node h' := by
  obtain ⟨tickets, htickets, rfl, hties, -⟩ := hn
  obtain ⟨estimate, before, after, hentries, -, hbefore, hafter⟩ := hpops
  obtain ⟨first, tail, rfl, rfl, htail⟩ := List.map_eq_append_iff.mp hentries
  obtain ⟨t, last, rfl, ht, rfl⟩ := List.map_eq_cons_iff.mp htail
  obtain ⟨rfl, rfl⟩ := Prod.mk.inj ht
  refine ⟨⟨↑(first ++ last), h.issued⟩, t, rfl, htickets.trans (coe_middle first last t), rfl, ?_⟩
  intro u hu
  rw [htickets, Multiset.mem_coe, List.mem_append, List.mem_cons] at hu
  rw [Ticket.isLE_compare_iff]
  rcases hu with hu | rfl | hu
  · exact .inl (hbefore u.entry (List.mem_map_of_mem hu))
  · exact .inr ⟨rfl, le_rfl⟩
  · have htie := List.rel_of_pairwise_cons (List.pairwise_append.mp hties).2.1 hu
    exact (hafter u.entry (List.mem_map_of_mem hu)).lt_or_eq.imp_right fun heq => ⟨heq, htie.le⟩

/-- A greatest ticket is the earliest of those with the least estimate. -/
theorem of_pops (hn : Numbered entries h) (hpops : greatest.Pops h node h') :
    ∃ rest, inTurn.Pops entries node rest ∧ Numbered rest h' := by
  obtain ⟨tickets, htickets, rfl, hties, hissued⟩ := hn
  obtain ⟨t, rfl, hrest, hsame, hgreatest⟩ := hpops
  simp only [Ticket.isLE_compare_iff, htickets, Multiset.mem_coe] at hgreatest
  rw [htickets] at hrest
  obtain ⟨first, last, rfl⟩ : ∃ first last, tickets = first ++ t :: last :=
    List.append_of_mem (Multiset.mem_coe.mp (hrest ▸ Multiset.mem_cons_self t _))
  obtain ⟨hfirst, hlast, hcross⟩ := List.pairwise_append.mp hties
  rw [List.forall_mem_append, List.forall_mem_cons] at hgreatest hissued
  refine ⟨(first ++ last).map Ticket.entry,
    ⟨t.estimate, first.map Ticket.entry, last.map Ticket.entry, ?_, ?_, ?_, ?_⟩,
    ⟨first ++ last, ?_, rfl, ?_, ?_⟩⟩
  · exact List.map_append
  · exact List.map_append
  · intro e he
    obtain ⟨u, hu, rfl⟩ := List.mem_map.mp he
    have htie := hcross u hu t List.mem_cons_self
    exact (hgreatest.1 u hu).resolve_right fun heq => htie.not_ge heq.2
  · intro e he
    obtain ⟨u, hu, rfl⟩ := List.mem_map.mp he
    exact (hgreatest.2.2 u hu).elim le_of_lt fun heq => heq.1.le
  · rw [coe_middle, Multiset.cons_inj_right] at hrest
    exact hrest.symm
  · exact List.pairwise_append.mpr ⟨hfirst, (List.pairwise_cons.mp hlast).2,
      fun u hu v hv => hcross u hu v (List.mem_cons_of_mem t hv)⟩
  · rw [hsame]
    exact List.forall_mem_append.mpr ⟨hissued.1, hissued.2.2⟩

end Numbered

theorem follows_greatest :
    greatest.Follows fun f h => ∃ entries, Queued f entries ∧ Numbered entries h := by
  refine ⟨⟨[], follows_inTurn.empty, .empty⟩, ?_, ?_, ?_⟩
  · rintro f h estimate node ⟨entries, hq, hn⟩
    exact ⟨_, hq.push estimate node, hn.push estimate node⟩
  · rintro f g h node ⟨entries, hq, hn⟩ hpop
    obtain ⟨rest, hpops⟩ := hq.pop hpop
    exact hn.pop hpops
  · rintro f h h' node ⟨entries, hq, hn⟩ hpops
    obtain ⟨rest, hrest, hn⟩ := hn.of_pops hpops
    obtain ⟨g, hpop, hq⟩ := hq.of_pops hrest
    exact ⟨g, hpop, rest, hq, hn⟩

end BestFirst

namespace Maze

/-- The program finds the same route, cell by cell, as the search whose nodes wait in the order in
which they came and whose earliest node of the least estimate leaves. The search with a heap, which
goes by the numbers of its tickets alone, finds it as well. -/
theorem findPath_eq_iff (m : Maze) (start goal : Cell) (answer : Option (List Cell)) :
    (BestFirst.Answers BestFirst.inTurn m goal start answer ↔ m.findPath start goal = answer) ∧
      (BestFirst.Answers BestFirst.greatest m goal start answer ↔
        m.findPath start goal = answer) :=
  ⟨BestFirst.answers_iff_of_follows BestFirst.follows_inTurn,
    BestFirst.answers_iff_of_follows BestFirst.follows_greatest⟩

/-- Of the two shortest routes between opposite corners, the one that starts to the east. -/
example : (free 2 2).findPath ⟨0, 0⟩ ⟨1, 1⟩ = some [⟨0, 0⟩, ⟨0, 1⟩, ⟨1, 1⟩] := by decide

end Maze

end TileWorld
