import TileWorld.Geometry

/-! The nodes that wait in a search, in buckets by their estimate. Nodes of one estimate leave in
the order in which they came. -/

namespace TileWorld

/-- A first-in first-out queue: the nodes to leave next, and those behind them in reverse. -/
structure Bucket (α : Type) where
  front : List α
  back : List α

namespace Bucket

variable {α : Type}

def toList (q : Bucket α) : List α := q.front ++ q.back.reverse

def single (a : α) : Bucket α := ⟨[a], []⟩

def push (q : Bucket α) (a : α) : Bucket α := { q with back := a :: q.back }

def pop? (q : Bucket α) : Option (α × Bucket α) :=
  match q.front with
  | a :: front => some (a, { q with front })
  | [] =>
    match q.back.reverse with
    | a :: front => some (a, ⟨front, []⟩)
    | [] => none

@[simp]
theorem toList_single (a : α) : (single a).toList = [a] := rfl

@[simp]
theorem toList_push (q : Bucket α) (a : α) : (q.push a).toList = q.toList ++ [a] := by
  simp [toList, push]

theorem pop?_eq_none_iff {q : Bucket α} : q.pop? = none ↔ q.toList = [] := by
  obtain ⟨front, back⟩ := q
  cases front <;> cases h : back.reverse <;> simp_all [pop?, toList]

theorem toList_of_pop? {q r : Bucket α} {a : α} (h : q.pop? = some (a, r)) :
    q.toList = a :: r.toList := by
  obtain ⟨front, back⟩ := q
  cases front with
  | cons b front =>
    simp only [pop?, Option.some.injEq, Prod.mk.injEq] at h
    obtain ⟨rfl, rfl⟩ := h
    rfl
  | nil =>
    cases hb : back.reverse with
    | nil => simp [pop?, hb] at h
    | cons b rest =>
      simp only [pop?, hb, Option.some.injEq, Prod.mk.injEq] at h
      obtain ⟨rfl, rfl⟩ := h
      simp [toList, hb]

end Bucket

/-- Buckets in ascending order of their estimates. -/
structure Frontier (α : Type) where
  buckets : List (Nat × Bucket α)

namespace Frontier

variable {α : Type}

def empty : Frontier α := ⟨[]⟩

/-- All waiting nodes with their estimates, in the order in which they would leave. -/
def toList (f : Frontier α) : List (Nat × α) :=
  f.buckets.flatMap fun (estimate, bucket) => bucket.toList.map fun a => (estimate, a)

def pushInto (estimate : Nat) (a : α) : List (Nat × Bucket α) → List (Nat × Bucket α)
  | [] => [(estimate, .single a)]
  | (e, bucket) :: rest =>
    if e < estimate then (e, bucket) :: pushInto estimate a rest
    else if e = estimate then (e, bucket.push a) :: rest
    else (estimate, .single a) :: (e, bucket) :: rest

def push (f : Frontier α) (estimate : Nat) (a : α) : Frontier α :=
  ⟨pushInto estimate a f.buckets⟩

def popFrom? : List (Nat × Bucket α) → Option (α × List (Nat × Bucket α))
  | [] => none
  | (estimate, bucket) :: rest =>
    match bucket.pop? with
    | some (a, bucket) => some (a, (estimate, bucket) :: rest)
    | none => popFrom? rest

/-- The node that leaves next, and the frontier without it. -/
def pop? (f : Frontier α) : Option (α × Frontier α) :=
  (popFrom? f.buckets).map fun (a, buckets) => (a, ⟨buckets⟩)

theorem popFrom?_eq_none_iff {buckets : List (Nat × Bucket α)} :
    popFrom? buckets = none ↔ toList ⟨buckets⟩ = [] := by
  induction buckets with
  | nil => simp [popFrom?, toList]
  | cons b rest ih =>
    obtain ⟨estimate, bucket⟩ := b
    cases h : bucket.pop? with
    | none => simpa [popFrom?, h, toList, Bucket.pop?_eq_none_iff.1 h] using ih
    | some p => simp [popFrom?, h, toList, Bucket.toList_of_pop? h]

theorem toList_of_popFrom? {buckets rest : List (Nat × Bucket α)} {a : α}
    (h : popFrom? buckets = some (a, rest)) :
    ∃ estimate, toList ⟨buckets⟩ = (estimate, a) :: toList ⟨rest⟩ := by
  induction buckets with
  | nil => simp [popFrom?] at h
  | cons b more ih =>
    obtain ⟨estimate, bucket⟩ := b
    cases hb : bucket.pop? with
    | none =>
      obtain ⟨e, he⟩ := ih (by simpa [popFrom?, hb] using h)
      exact ⟨e, by simpa [toList, Bucket.pop?_eq_none_iff.1 hb] using he⟩
    | some p =>
      obtain ⟨first, bucket'⟩ := p
      simp only [popFrom?, hb, Option.some.injEq, Prod.mk.injEq] at h
      obtain ⟨rfl, rfl⟩ := h
      exact ⟨estimate, by simp [toList, Bucket.toList_of_pop? hb]⟩

theorem pop?_eq_none_iff {f : Frontier α} : f.pop? = none ↔ f.toList = [] := by
  simp [pop?, popFrom?_eq_none_iff]

theorem toList_of_pop? {f rest : Frontier α} {a : α} (h : f.pop? = some (a, rest)) :
    ∃ estimate, f.toList = (estimate, a) :: rest.toList := by
  obtain ⟨p, hp, he⟩ := Option.map_eq_some_iff.1 h
  simp only [Prod.mk.injEq] at he
  obtain ⟨rfl, rfl⟩ := he
  exact toList_of_popFrom? hp

/-- One node more waits, and all others still do. -/
theorem perm_pushInto (estimate : Nat) (a : α) (buckets : List (Nat × Bucket α)) :
    (toList ⟨pushInto estimate a buckets⟩).Perm ((estimate, a) :: toList ⟨buckets⟩) := by
  induction buckets with
  | nil => simp [pushInto, toList]
  | cons b rest ih =>
    obtain ⟨e, bucket⟩ := b
    unfold pushInto
    split
    · simp only [toList, List.flatMap_cons] at ih ⊢
      exact (List.Perm.append_left _ ih).trans List.perm_middle
    · split
      · rename_i heq
        subst heq
        simp only [toList, List.flatMap_cons, Bucket.toList_push, List.map_append, List.map_cons,
          List.map_nil, List.append_assoc, List.singleton_append]
        exact List.perm_middle
      · simp [toList]

theorem perm_push (f : Frontier α) (estimate : Nat) (a : α) :
    (f.push estimate a).toList.Perm ((estimate, a) :: f.toList) :=
  perm_pushInto estimate a f.buckets

end Frontier

end TileWorld
