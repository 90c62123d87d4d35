/-! Tables with one value per key, in ascending order of the keys. -/

namespace TileWorld

namespace Entries

variable {α : Type}

/-- Strictly ascending keys, so that no key occurs twice. -/
def Ascending (entries : List (String × α)) : Prop :=
  entries.Pairwise fun a b => a.1 < b.1

/-- Puts a value in its place and replaces the one with the same key. -/
def put (key : String) (value : α) : List (String × α) → List (String × α)
  | [] => [(key, value)]
  | (k, v) :: rest =>
    if k < key then (k, v) :: put key value rest
    else if k = key then (key, value) :: rest
    else (key, value) :: (k, v) :: rest

/-- Entries in any order; of two with one key the later stays. -/
def ofList (entries : List (String × α)) : List (String × α) :=
  entries.foldl (fun done entry => put entry.1 entry.2 done) []

theorem mem_put {key : String} {value : α} {entries : List (String × α)} {e : String × α}
    (h : e ∈ put key value entries) : e = (key, value) ∨ e ∈ entries := by
  induction entries with
  | nil => simpa [put] using h
  | cons first rest ih =>
    obtain ⟨k, v⟩ := first
    unfold put at h
    grind

theorem ascending_put {key : String} {value : α} {entries : List (String × α)}
    (h : Ascending entries) : Ascending (put key value entries) := by
  induction entries with
  | nil => simp [put, Ascending]
  | cons first rest ih =>
    obtain ⟨k, v⟩ := first
    have hrest : Ascending rest := List.Pairwise.of_cons h
    have hfirst : ∀ e ∈ rest, k < e.1 := fun e he => List.rel_of_pairwise_cons h he
    unfold put
    split
    · rename_i hlt
      refine List.pairwise_cons.2 ⟨fun e he => ?_, ih hrest⟩
      rcases mem_put he with rfl | he
      · exact hlt
      · exact hfirst e he
    · split
      · rename_i heq
        subst heq
        exact List.pairwise_cons.2 ⟨hfirst, hrest⟩
      · rename_i hnot hne
        have hlt : key < k := by grind
        refine List.pairwise_cons.2 ⟨fun e he => ?_, h⟩
        rcases List.mem_cons.1 he with rfl | he
        · exact hlt
        · exact String.lt_trans hlt (hfirst e he)

theorem ascending_ofList (entries : List (String × α)) : Ascending (ofList entries) := by
  suffices h : ∀ done, Ascending done →
      Ascending (entries.foldl (fun done entry => put entry.1 entry.2 done) done) from
    h [] List.Pairwise.nil
  induction entries with
  | nil => exact fun _ h => h
  | cons _ _ ih => exact fun _ h => ih _ (ascending_put h)

theorem lookup_put (key other : String) (value : α) (entries : List (String × α)) :
    (put key value entries).lookup other =
      if other = key then some value else entries.lookup other := by
  induction entries with
  | nil => simp only [put, List.lookup_cons, List.lookup_nil]; grind
  | cons first rest ih =>
    obtain ⟨k, v⟩ := first
    unfold put
    split
    · simp only [List.lookup_cons, ih]
      grind
    · split
      · grind
      · grind

theorem length_put {key : String} {entries : List (String × α)} (h : entries.lookup key = none)
    (value : α) : (put key value entries).length = entries.length + 1 := by
  induction entries with
  | nil => rfl
  | cons first rest ih =>
    obtain ⟨k, v⟩ := first
    unfold put
    split
    · have hrest : rest.lookup key = none := by
        rw [List.lookup_cons] at h
        grind
      rw [List.length_cons, ih hrest, List.length_cons]
    · split
      · rename_i heq
        simp [heq] at h
      · rfl

theorem lookup_eq_none {key : String} {entries : List (String × α)}
    (h : key ∉ entries.map Prod.fst) : entries.lookup key = none := by
  induction entries with
  | nil => rfl
  | cons first rest ih =>
    obtain ⟨k, v⟩ := first
    rw [List.map_cons, List.mem_cons, not_or] at h
    rw [List.lookup_cons, beq_eq_false_iff_ne.2 h.1]
    exact ih h.2

/-- Entries with distinct keys are looked up alike in any order. -/
theorem lookup_ofList {entries : List (String × α)} (h : (entries.map Prod.fst).Nodup)
    (key : String) : (ofList entries).lookup key = entries.lookup key := by
  suffices hall : ∀ done : List (String × α),
      (entries.foldl (fun done entry => put entry.1 entry.2 done) done).lookup key =
        (entries.lookup key).or (done.lookup key) from
    (hall []).trans (Option.or_none)
  induction entries with
  | nil => exact fun done => rfl
  | cons first rest ih =>
    obtain ⟨k, v⟩ := first
    obtain ⟨hfirst, hrest⟩ := List.nodup_cons.1 h
    intro done
    rw [List.foldl_cons, ih hrest, lookup_put, List.lookup_cons]
    by_cases hkey : key = k
    · subst hkey
      rw [lookup_eq_none hfirst, if_pos rfl, beq_self_eq_true, Option.none_or]
      rfl
    · rw [if_neg hkey, beq_eq_false_iff_ne.2 hkey]

theorem put_of_forall_lt {key : String} {entries : List (String × α)}
    (h : ∀ e ∈ entries, e.1 < key) (value : α) :
    put key value entries = entries ++ [(key, value)] := by
  induction entries with
  | nil => rfl
  | cons first rest ih =>
    obtain ⟨hfirst, hrest⟩ := List.forall_mem_cons.1 h
    rw [put, if_pos hfirst, ih hrest, List.cons_append]

/-- Entries in order stay as they are. -/
theorem ofList_of_ascending {entries : List (String × α)} (h : Ascending entries) :
    ofList entries = entries := by
  suffices hall : ∀ done, Ascending (done ++ entries) →
      entries.foldl (fun done entry => put entry.1 entry.2 done) done = done ++ entries from
    hall [] h
  clear h
  induction entries with
  | nil => exact fun done _ => (List.append_nil done).symm
  | cons first rest ih =>
    intro done h
    have hlast : ∀ e ∈ done, e.1 < first.1 := fun e he =>
      (List.pairwise_append.1 h).2.2 e he first List.mem_cons_self
    rw [List.append_cons] at h
    rw [List.foldl_cons, put_of_forall_lt hlast, ih _ h, ← List.append_cons]

def mapValues {β : Type} (f : String → α → β) (entries : List (String × α)) :
    List (String × β) :=
  entries.map fun e => (e.1, f e.1 e.2)

theorem ascending_mapValues {β : Type} (f : String → α → β) {entries : List (String × α)}
    (h : Ascending entries) : Ascending (mapValues f entries) := by
  simpa [mapValues, Ascending, List.pairwise_map] using h

/-- Ascending entries are told by which entries there are. -/
theorem eq_of_mem_iff {s t : List (String × α)} (hs : Ascending s) (ht : Ascending t)
    (h : ∀ e, e ∈ s ↔ e ∈ t) : s = t := by
  induction s generalizing t with
  | nil => exact (List.eq_nil_iff_forall_not_mem.2 fun e he => by simpa using (h e).2 he).symm
  | cons a s ih =>
    cases t with
    | nil => simpa using (h a).1 List.mem_cons_self
    | cons b t =>
      have has := (List.pairwise_cons.1 hs).1
      have hbt := (List.pairwise_cons.1 ht).1
      have hab : a = b := by
        rcases List.mem_cons.1 ((h a).1 List.mem_cons_self) with hab | hat
        · exact hab
        · rcases List.mem_cons.1 ((h b).2 List.mem_cons_self) with hba | hbs
          · exact hba.symm
          · exact absurd (String.lt_trans (has b hbs) (hbt a hat)) (String.lt_irrefl _)
      subst hab
      have hrest : ∀ e, e ∈ s ↔ e ∈ t := by
        intro e
        constructor
        · intro he
          rcases List.mem_cons.1 ((h e).1 (List.mem_cons_of_mem a he)) with rfl | h'
          · exact absurd (has e he) (String.lt_irrefl _)
          · exact h'
        · intro he
          rcases List.mem_cons.1 ((h e).2 (List.mem_cons_of_mem a he)) with rfl | h'
          · exact absurd (hbt e he) (String.lt_irrefl _)
          · exact h'
      rw [ih hs.of_cons ht.of_cons hrest]

end Entries

structure Table (α : Type) where
  entries : List (String × α)
  ascending : Entries.Ascending entries

namespace Table

variable {α : Type}

@[ext]
theorem ext {s t : Table α} (h : s.entries = t.entries) : s = t := by
  cases s; cases t; simp_all

def empty : Table α := ⟨[], List.Pairwise.nil⟩

instance : Inhabited (Table α) := ⟨empty⟩

def ofList (entries : List (String × α)) : Table α :=
  ⟨Entries.ofList entries, Entries.ascending_ofList entries⟩

theorem ofList_entries (t : Table α) : ofList t.entries = t :=
  ext (Entries.ofList_of_ascending t.ascending)

def size (t : Table α) : Nat := t.entries.length

def keys (t : Table α) : List String := t.entries.map (·.1)

def values (t : Table α) : List α := t.entries.map (·.2)

def find? (t : Table α) (key : String) : Option α := t.entries.lookup key

def contains (t : Table α) (key : String) : Bool := (t.find? key).isSome

def insert (t : Table α) (key : String) (value : α) : Table α :=
  ⟨Entries.put key value t.entries, Entries.ascending_put t.ascending⟩

def filter (keep : String → α → Bool) (t : Table α) : Table α :=
  ⟨t.entries.filter fun e => keep e.1 e.2, t.ascending.filter _⟩

def erase (t : Table α) (key : String) : Table α := t.filter fun k _ => k != key

def mapValues {β : Type} (f : String → α → β) (t : Table α) : Table β :=
  ⟨Entries.mapValues f t.entries, Entries.ascending_mapValues f t.ascending⟩

/-- Changes the value of one key, if it is there. -/
def modify (t : Table α) (key : String) (f : α → α) : Table α :=
  t.mapValues fun k v => if k = key then f v else v

@[simp]
theorem find?_empty (key : String) : (empty : Table α).find? key = none := rfl

@[simp]
theorem find?_insert (t : Table α) (key other : String) (value : α) :
    (t.insert key value).find? other = if other = key then some value else t.find? other :=
  Entries.lookup_put key other value t.entries

theorem size_insert {t : Table α} {key : String} (h : t.find? key = none) (value : α) :
    (t.insert key value).size = t.size + 1 :=
  Entries.length_put h value

@[simp]
theorem find?_mapValues {β : Type} (f : String → α → β) (t : Table α) (key : String) :
    (t.mapValues f).find? key = (t.find? key).map (f key) := by
  obtain ⟨entries, h⟩ := t
  simp only [mapValues, Entries.mapValues, find?]
  clear h
  induction entries with
  | nil => rfl
  | cons e rest ih => grind

theorem size_mapValues {β : Type} (f : String → α → β) (t : Table α) :
    (t.mapValues f).size = t.size := List.length_map _

theorem mem_of_find?_eq_some {t : Table α} {key : String} {value : α}
    (h : t.find? key = some value) : (key, value) ∈ t.entries := by
  obtain ⟨entries, hs⟩ := t
  simp only [find?] at h ⊢
  clear hs
  induction entries with
  | nil => simp at h
  | cons e rest ih => grind

theorem find?_eq_some_of_mem {t : Table α} {key : String} {value : α}
    (h : (key, value) ∈ t.entries) : t.find? key = some value := by
  obtain ⟨entries, hs⟩ := t
  simp only [find?]
  simp only at h
  induction entries with
  | nil => simp at h
  | cons e rest ih =>
    have hrest := ih (List.Pairwise.of_cons hs)
    have hfirst : ∀ other ∈ rest, e.1 < other.1 := fun _ h => List.rel_of_pairwise_cons hs h
    grind

theorem find?_eq_some_iff {t : Table α} {key : String} {value : α} :
    t.find? key = some value ↔ (key, value) ∈ t.entries :=
  ⟨mem_of_find?_eq_some, find?_eq_some_of_mem⟩

theorem nodup_keys (t : Table α) : t.keys.Nodup :=
  List.pairwise_map.2 (t.ascending.imp fun h => String.ne_of_lt h)

theorem mem_values {t : Table α} {value : α} :
    value ∈ t.values ↔ ∃ key, t.find? key = some value := by
  simp [values, find?_eq_some_iff]

theorem ext_find? {s t : Table α} (h : ∀ key, s.find? key = t.find? key) : s = t := by
  refine Table.ext (Entries.eq_of_mem_iff s.ascending t.ascending fun e => ?_)
  rw [← find?_eq_some_iff, ← find?_eq_some_iff, h]

@[simp]
theorem find?_filter (keep : String → α → Bool) (t : Table α) (key : String) :
    (t.filter keep).find? key = (t.find? key).filter (keep key) := by
  ext value
  rw [Option.filter_eq_some_iff, find?_eq_some_iff, find?_eq_some_iff]
  simp [filter]

@[simp]
theorem find?_erase (t : Table α) (key other : String) :
    (t.erase key).find? other = if other = key then none else t.find? other := by
  rw [erase, find?_filter]
  by_cases h : other = key
  · subst h
    cases t.find? other <;> simp [Option.filter]
  · cases t.find? other <;> simp [Option.filter, h]

@[simp]
theorem find?_modify (t : Table α) (key other : String) (f : α → α) :
    (t.modify key f).find? other =
      if other = key then (t.find? other).map f else t.find? other := by
  rw [modify, find?_mapValues]
  by_cases h : other = key <;> simp [h]

theorem values_filter (keep : α → Bool) (t : Table α) :
    (t.filter fun _ value => keep value).values = t.values.filter keep := by
  simp [values, filter, List.filter_map, Function.comp_def]

end Table

end TileWorld
