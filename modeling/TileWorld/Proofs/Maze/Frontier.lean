import Mathlib.Data.List.Pairwise
import TileWorld.Maze.Frontier

/-! # The least node leaves first -/

namespace TileWorld.Frontier

variable {α : Type} {f g : Frontier α} {a : α}

/-- Each estimate has one bucket at most, and smaller estimates come first. -/
def Ordered (f : Frontier α) : Prop :=
  f.buckets.Pairwise fun b c => b.1 < c.1

theorem ordered_empty : Ordered (empty : Frontier α) :=
  .nil

theorem fst_of_mem_pushInto {estimate : ℕ} {buckets : List (ℕ × Bucket α)} {b : ℕ × Bucket α}
    (hb : b ∈ pushInto estimate a buckets) : b.1 = estimate ∨ ∃ c ∈ buckets, c.1 = b.1 := by
  induction buckets with
  | nil =>
      rw [List.mem_singleton.mp hb]
      exact .inl rfl
  | cons first rest ih =>
      obtain ⟨e, bucket⟩ := first
      rw [pushInto] at hb
      split at hb
      · rcases List.mem_cons.mp hb with rfl | hb
        · exact .inr ⟨_, List.mem_cons_self, rfl⟩
        · rcases ih hb with hb | ⟨c, hc, hcb⟩
          · exact .inl hb
          · exact .inr ⟨c, List.mem_cons_of_mem _ hc, hcb⟩
      · split at hb
        · rename_i heq
          rcases List.mem_cons.mp hb with rfl | hb
          · exact .inl heq
          · exact .inr ⟨b, List.mem_cons_of_mem _ hb, rfl⟩
        · rcases List.mem_cons.mp hb with rfl | hb
          · exact .inl rfl
          · exact .inr ⟨b, hb, rfl⟩

private theorem pairwise_pushInto {buckets : List (ℕ × Bucket α)}
    (h : buckets.Pairwise fun b c => b.1 < c.1) (estimate : ℕ) (a : α) :
    (pushInto estimate a buckets).Pairwise fun b c => b.1 < c.1 := by
  induction buckets with
  | nil => exact List.pairwise_singleton _ _
  | cons first rest ih =>
      obtain ⟨e, bucket⟩ := first
      obtain ⟨hfirst, hrest⟩ := List.pairwise_cons.mp h
      rw [pushInto]
      split
      · rename_i hlt
        refine List.pairwise_cons.mpr ⟨?_, ih hrest⟩
        intro b hb
        rcases fst_of_mem_pushInto hb with hb | ⟨c, hc, hcb⟩
        · exact hb ▸ hlt
        · exact hcb ▸ hfirst c hc
      · split
        · exact List.pairwise_cons.mpr ⟨hfirst, hrest⟩
        · refine List.pairwise_cons.mpr ⟨?_, h⟩
          have hlt : estimate < e := by omega
          intro b hb
          rcases List.mem_cons.mp hb with rfl | hb
          · exact hlt
          · exact Nat.lt_trans hlt (hfirst b hb)

theorem Ordered.push (h : f.Ordered) (estimate : ℕ) (a : α) : (f.push estimate a).Ordered :=
  pairwise_pushInto h estimate a

private theorem pairwise_popFrom? {buckets rest : List (ℕ × Bucket α)}
    (h : buckets.Pairwise fun b c => b.1 < c.1) (hpop : popFrom? buckets = some (a, rest)) :
    rest.Pairwise fun b c => b.1 < c.1 := by
  induction buckets with
  | nil => cases hpop
  | cons first more ih =>
      obtain ⟨e, bucket⟩ := first
      obtain ⟨hfirst, hmore⟩ := List.pairwise_cons.mp h
      rw [popFrom?] at hpop
      split at hpop
      · cases hpop
        exact List.pairwise_cons.mpr ⟨hfirst, hmore⟩
      · exact ih hmore hpop

theorem Ordered.pop (h : f.Ordered) (hpop : f.pop? = some (a, g)) : g.Ordered := by
  obtain ⟨⟨b, rest⟩, hrest, heq⟩ := Option.map_eq_some_iff.mp hpop
  cases heq
  exact pairwise_popFrom? h hrest

theorem Ordered.pairwise_toList (h : f.Ordered) : f.toList.Pairwise fun x y => x.1 ≤ y.1 := by
  refine List.pairwise_flatMap.mpr ⟨fun b _ => ?_, h.imp fun hlt x hx y hy => ?_⟩
  · exact List.pairwise_map.mpr (List.pairwise_of_forall fun _ _ => Nat.le_refl _)
  · obtain ⟨_, -, rfl⟩ := List.mem_map.mp hx
    obtain ⟨_, -, rfl⟩ := List.mem_map.mp hy
    exact Nat.le_of_lt hlt

/-- The node that leaves has the least estimate of all. -/
theorem Ordered.exists_least (h : f.Ordered) (hpop : f.pop? = some (a, g)) :
    ∃ estimate, f.toList = (estimate, a) :: g.toList ∧ ∀ e ∈ f.toList, estimate ≤ e.1 := by
  obtain ⟨estimate, hlist⟩ := toList_of_pop? hpop
  have hpairwise := h.pairwise_toList
  refine ⟨estimate, hlist, ?_⟩
  rw [hlist] at hpairwise ⊢
  exact List.forall_mem_cons.mpr ⟨Nat.le_refl _, (List.pairwise_cons.mp hpairwise).1⟩

/-! ## Equal estimates -/

def withEstimate (k : ℕ) (entries : List (ℕ × α)) : List (ℕ × α) :=
  entries.filter fun e => e.1 = k

theorem withEstimate_append (k : ℕ) (entries others : List (ℕ × α)) :
    withEstimate k (entries ++ others) = withEstimate k entries ++ withEstimate k others :=
  List.filter_append ..

theorem withEstimate_cons (k : ℕ) (e : ℕ × α) (entries : List (ℕ × α)) :
    withEstimate k (e :: entries) =
      if e.1 = k then e :: withEstimate k entries else withEstimate k entries := by
  simp [withEstimate, List.filter_cons]

theorem withEstimate_eq_nil {k : ℕ} {entries : List (ℕ × α)} (h : ∀ e ∈ entries, k < e.1) :
    withEstimate k entries = [] :=
  List.filter_eq_nil_iff.mpr fun e he => by simpa using Nat.ne_of_gt (h e he)

theorem mem_withEstimate {k : ℕ} {entries : List (ℕ × α)} {e : ℕ × α} :
    e ∈ withEstimate k entries ↔ e ∈ entries ∧ e.1 = k := by
  simp [withEstimate]

/-- An entry may stand anywhere among those of other estimates. -/
theorem withEstimate_cons_of_lt {estimate : ℕ} {entries : List (ℕ × α)}
    (h : ∀ e ∈ entries, estimate < e.1) (k : ℕ) (a : α) :
    withEstimate k ((estimate, a) :: entries) = withEstimate k (entries ++ [(estimate, a)]) := by
  rw [withEstimate_append, withEstimate_cons, withEstimate_cons]
  by_cases hk : estimate = k
  · subst hk
    rw [if_pos rfl, if_pos rfl, withEstimate_eq_nil h]
    rfl
  · rw [if_neg hk, if_neg hk]
    exact (List.append_nil _).symm

theorem toList_cons (e : ℕ) (bucket : Bucket α) (rest : List (ℕ × Bucket α)) :
    toList ⟨(e, bucket) :: rest⟩ = bucket.toList.map (fun a => (e, a)) ++ toList ⟨rest⟩ :=
  rfl

theorem lt_of_mem_toList {buckets : List (ℕ × Bucket α)} {k : ℕ}
    (h : ∀ b ∈ buckets, k < b.1) : ∀ e ∈ toList ⟨buckets⟩, k < e.1 := by
  intro e he
  obtain ⟨b, hb, he⟩ := List.mem_flatMap.mp he
  obtain ⟨a, -, rfl⟩ := List.mem_map.mp he
  exact h b hb

private theorem withEstimate_pushInto {buckets : List (ℕ × Bucket α)}
    (h : buckets.Pairwise fun b c => b.1 < c.1) (k estimate : ℕ) (a : α) :
    withEstimate k (toList ⟨pushInto estimate a buckets⟩) =
      withEstimate k (toList ⟨buckets⟩ ++ [(estimate, a)]) := by
  induction buckets with
  | nil => rfl
  | cons first rest ih =>
      obtain ⟨e, bucket⟩ := first
      obtain ⟨hfirst, hrest⟩ := List.pairwise_cons.mp h
      rw [pushInto]
      split
      · rw [toList_cons, toList_cons, List.append_assoc, withEstimate_append, ih hrest,
          ← withEstimate_append]
      · split
        · rename_i heq
          subst heq
          rw [toList_cons, toList_cons, Bucket.toList_push, List.map_append, List.append_assoc,
            List.append_assoc, withEstimate_append, List.map_singleton, List.singleton_append,
            withEstimate_cons_of_lt (lt_of_mem_toList hfirst), ← withEstimate_append]
        · have hlt : estimate < e := by omega
          have hall : ∀ b ∈ (e, bucket) :: rest, estimate < b.1 :=
            List.forall_mem_cons.mpr ⟨hlt, fun b hb => Nat.lt_trans hlt (hfirst b hb)⟩
          rw [← withEstimate_cons_of_lt (lt_of_mem_toList hall)]
          rfl

/-- A node that is pushed leaves after all others of its estimate. -/
theorem Ordered.withEstimate_push (h : f.Ordered) (k estimate : ℕ) (a : α) :
    withEstimate k (f.push estimate a).toList = withEstimate k (f.toList ++ [(estimate, a)]) :=
  withEstimate_pushInto h k estimate a

end TileWorld.Frontier
