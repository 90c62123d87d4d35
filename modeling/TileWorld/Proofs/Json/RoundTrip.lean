import TileWorld.Proofs.Json.Number

/-! Written JSON reads back in front of any text that can follow a value. -/

namespace TileWorld.Json

variable {α β : Type} {bound : Nat}

def Begins (c : Char) : Prop := isBlank c = false ∧ c ≠ ']' ∧ c ≠ '\x7d'

instance : DecidablePred Begins := fun c =>
  inferInstanceAs (Decidable (isBlank c = false ∧ c ≠ ']' ∧ c ≠ '\x7d'))

/-- What is written in front of a delimiter is read with this result, up to the delimiter, as long
as the text is within the bound of the reader. -/
structure Reads (bound : Nat) (read : List Char → Option (α × List Char))
    (write : List Char → List Char) (result : Option α) : Prop where
  first : ∀ rest, ∃ c cs, write rest = c :: cs ∧ Begins c ∧ rest.length ≤ cs.length
  read : ∀ rest, Delimited rest → (write rest).length ≤ bound →
    read (write rest) = result.map (·, rest)

theorem BeginsNumeral.begins {c : Char} (hc : BeginsNumeral c) : Begins c :=
  ⟨hc.isBlank, hc.ne (by decide), hc.ne (by decide)⟩

/-! ## Sequences -/

/-- Texts that each follow a comma, the closing character and `rest`. -/
def furtherOnto (close : Char) (texts : List (List Char → List Char)) (rest : List Char) :
    List Char :=
  texts.foldr (fun text done => ',' :: text done) (close :: rest)

def listOnto (close : Char) : List (List Char → List Char) → List Char → List Char
  | [], rest => close :: rest
  | text :: texts, rest => text (furtherOnto close texts rest)

section Sequence

variable {close : Char} (hclose : close = ']' ∨ close = '\x7d')
  {read : List Char → Option (α × List Char)} {write : β → List Char → List Char}
  {result : β → Option α} {items : List β}

include hclose

theorem delimited_furtherOnto (texts : List (List Char → List Char)) (rest : List Char) :
    Delimited (furtherOnto close texts rest) := by
  cases texts with
  | nil => exact delimited_cons.mpr (.inr hclose)
  | cons text texts => exact delimited_cons.mpr (.inl rfl)

omit hclose in
theorem length_lt_furtherOnto (h : ∀ b ∈ items, Reads bound read (write b) (result b))
    (rest : List Char) :
    items.length + rest.length < (furtherOnto close (items.map write) rest).length := by
  induction items with
  | nil => simp [furtherOnto]
  | cons b items ih =>
      obtain ⟨hb, hitems⟩ := List.forall_mem_cons.mp h
      obtain ⟨c, cs, htext, -, hle⟩ := hb.first (furtherOnto close (items.map write) rest)
      have hlt := ih hitems
      have hcons : furtherOnto close ((b :: items).map write) rest = ',' :: c :: cs :=
        congrArg (',' :: ·) htext
      simp only [hcons, List.length_cons]
      omega

omit hclose in
theorem length_lt_listOnto (h : ∀ b ∈ items, Reads bound read (write b) (result b))
    (rest : List Char) : rest.length < (listOnto close (items.map write) rest).length := by
  cases items with
  | nil => exact Nat.lt_succ_self _
  | cons b items =>
      obtain ⟨hb, hitems⟩ := List.forall_mem_cons.mp h
      obtain ⟨c, cs, htext, -, hle⟩ := hb.first (furtherOnto close (items.map write) rest)
      have hlt : items.length + rest.length <
          (furtherOnto close (items.map write) rest).length := length_lt_furtherOnto hitems rest
      have hcons : listOnto close ((b :: items).map write) rest = c :: cs := htext
      simp only [hcons, List.length_cons]
      omega

theorem furtherItems_furtherOnto (h : ∀ b ∈ items, Reads bound read (write b) (result b))
    {fuel : Nat} (done : List α) (rest : List Char) (hfuel : items.length < fuel)
    (hbound : (furtherOnto close (items.map write) rest).length ≤ bound) :
    furtherItems close read fuel done (furtherOnto close (items.map write) rest) =
      (items.mapM result).map fun made => (done.reverse ++ made, rest) := by
  have hblank : isBlank close = false := by rcases hclose with rfl | rfl <;> rfl
  have hcomma : ',' ≠ close := by rcases hclose with rfl | rfl <;> decide
  -- Each item takes one step, and its text is shorter than what is left by at least its comma.
  induction items generalizing done fuel with
  | nil =>
      obtain ⟨fuel, rfl⟩ := Nat.exists_eq_add_one.mpr hfuel
      rw [List.map_nil, furtherOnto, List.foldr_nil, furtherItems, skipBlanks_cons hblank]
      simp
  | cons b items ih =>
      obtain ⟨hb, hitems⟩ := List.forall_mem_cons.mp h
      obtain ⟨fuel, rfl⟩ := Nat.exists_eq_add_one.mpr (Nat.zero_lt_of_lt hfuel)
      have htext : furtherOnto close ((b :: items).map write) rest =
        ',' :: write b (furtherOnto close (items.map write) rest) := rfl
      rw [htext, List.length_cons] at hbound
      have hread := hb.read _ (delimited_furtherOnto hclose (items.map write) rest) (by omega)
      obtain ⟨c, cs, hfirst, -, hle⟩ := hb.first (furtherOnto close (items.map write) rest)
      have hshorter : (furtherOnto close (items.map write) rest).length ≤ bound := by
        rw [hfirst, List.length_cons] at hbound
        omega
      rw [htext, furtherItems, skipBlanks_cons (by rfl)]
      simp only [if_neg hcomma, if_true, hread]
      rw [List.mapM_cons]
      cases result b with
      | none => rfl
      | some a =>
          have hrest := ih hitems (a :: done) (Nat.lt_of_succ_lt_succ hfuel) hshorter
          simp only [Option.map_some, hrest, List.reverse_cons, List.append_assoc,
            List.singleton_append]
          cases items.mapM result <;> rfl

theorem sequence_listOnto (h : ∀ b ∈ items, Reads bound read (write b) (result b))
    (rest : List Char) (hbound : (listOnto close (items.map write) rest).length ≤ bound) :
    sequence close read bound (listOnto close (items.map write) rest) =
      (items.mapM result).map (·, rest) := by
  have hblank : isBlank close = false := by rcases hclose with rfl | rfl <;> rfl
  cases items with
  | nil =>
      rw [List.map_nil, listOnto, sequence, skipBlanks_cons hblank]
      simp
  | cons b items =>
      obtain ⟨hb, hitems⟩ := List.forall_mem_cons.mp h
      have htext : listOnto close ((b :: items).map write) rest =
        write b (furtherOnto close (items.map write) rest) := rfl
      rw [htext] at hbound ⊢
      have hread := hb.read _ (delimited_furtherOnto hclose (items.map write) rest) hbound
      obtain ⟨c, cs, hfirst, ⟨hc, hsquare, hbrace⟩, hle⟩ :=
        hb.first (furtherOnto close (items.map write) rest)
      have hopen : c ≠ close := by rcases hclose with rfl | rfl <;> assumption
      rw [hfirst] at hbound hread ⊢
      rw [List.length_cons] at hbound
      have hfuel : items.length + rest.length <
          (furtherOnto close (items.map write) rest).length := length_lt_furtherOnto hitems rest
      rw [sequence, skipBlanks_cons hc]
      simp only [if_neg hopen, hread]
      rw [List.mapM_cons]
      cases result b with
      | none => rfl
      | some a =>
          simp only [Option.map_some]
          rw [furtherItems_furtherOnto hclose hitems [a] rest (by omega) (by omega)]
          cases items.mapM result <;> rfl

end Sequence

/-! ## Values

`Writes write j n` says that a text stands for the value `j` and that arrays and objects nest `n`
levels deep in it. The readers of values take a greatest depth, so that this is a statement about
every such depth. -/

def Writes (write : List Char → List Char) (j : Json) (n : Nat) : Prop :=
  ∀ bound depth, Reads bound (value bound depth) write (if n ≤ depth then some j else none)

def deepest (depths : List Nat) : Nat := depths.foldr max 0

theorem one_add_deepest_le {items : List β} {nesting : β → Nat} {depth : Nat} :
    1 + deepest (items.map nesting) ≤ depth + 1 ↔ ∀ b ∈ items, nesting b ≤ depth := by
  rw [Nat.add_comm, Nat.add_le_add_iff_right]
  induction items with
  | nil => simp [deepest]
  | cons b items ih =>
      rw [List.forall_mem_cons, ← ih]
      exact Nat.max_le

theorem mapM_eq_ite {items : List β} {read : β → Option α} {made : β → α} {P : β → Prop}
    [DecidablePred P] (h : ∀ b ∈ items, read b = if P b then some (made b) else none) :
    items.mapM read = if ∀ b ∈ items, P b then some (items.map made) else none := by
  induction items with
  | nil => rfl
  | cons b items ih =>
      obtain ⟨hread, hitems⟩ := List.forall_mem_cons.mp h
      rw [List.mapM_cons, hread, ih hitems]
      by_cases hb : P b
      · by_cases hall : ∀ b ∈ items, P b
        · rw [if_pos hb, if_pos hall, if_pos (List.forall_mem_cons.mpr ⟨hb, hall⟩)]
          rfl
        · rw [if_pos hb, if_neg hall, if_neg fun h => hall (List.forall_mem_cons.mp h).2]
          rfl
      · rw [if_neg hb, if_neg fun h => hb (List.forall_mem_cons.mp h).1]
        rfl

/-- A text that is read alike at every depth. -/
theorem writes_scalar {write : List Char → List Char} {j : Json}
    (hfirst : ∀ rest, ∃ c cs, write rest = c :: cs ∧ Begins c ∧ rest.length ≤ cs.length)
    (h : ∀ bound depth rest, Delimited rest → value bound depth (write rest) = some (j, rest)) :
    Writes write j 0 := by
  intro bound depth
  refine ⟨hfirst, fun rest hrest _ => ?_⟩
  rw [h bound depth rest hrest, if_pos (Nat.zero_le depth)]
  rfl

theorem writes_text (c : Char) (tail : List Char) {j : Json} (hc : Begins c)
    (h : ∀ bound depth rest, Delimited rest →
      value bound depth (c :: tail ++ rest) = some (j, rest)) : Writes (c :: tail ++ ·) j 0 :=
  writes_scalar (fun rest => ⟨c, tail ++ rest, rfl, hc, by simp⟩) h

theorem writes_null : Writes (onto .null) .null 0 :=
  writes_text 'n' ['u', 'l', 'l'] (by decide) fun _ depth _ _ => by cases depth <;> rfl

theorem writes_bool (b : Bool) : Writes (onto (.bool b)) (.bool b) 0 := by
  cases b with
  | false =>
      exact writes_text 'f' ['a', 'l', 's', 'e'] (by decide) fun _ depth _ _ => by
        cases depth <;> rfl
  | true =>
      exact writes_text 't' ['r', 'u', 'e'] (by decide) fun _ depth _ _ => by cases depth <;> rfl

theorem length_le_escape (cs rest : List Char) : rest.length ≤ (escape cs rest).length := by
  induction cs with
  | nil => exact Nat.le_succ _
  | cons c cs ih =>
      have hcons : escape (c :: cs) rest = escapeChar c ++ escape cs rest := rfl
      rw [hcons, List.length_append]
      exact Nat.le_trans ih (Nat.le_add_left ..)

theorem writes_string (s : String) : Writes (stringOnto s) (.string s) 0 := by
  refine writes_scalar (fun rest => ⟨'"', _, rfl, by decide, length_le_escape s.toList rest⟩)
    fun bound depth rest _ => ?_
  have hscalar : scalar ('"' :: escape s.toList rest) = some (.string s, rest) := by
    simp only [scalar, stringBody_escape, Option.map_some, String.ofList_toList]
  cases depth <;> exact hscalar

theorem IsNumeral.writes {cs : List Char} {r : Number.Reading} (h : IsNumeral cs r) :
    Writes (cs ++ ·) (ofReading r) 0 := by
  obtain ⟨l, hl, hr⟩ := h
  obtain ⟨c, tail, rfl, hc⟩ := exists_cons_of_numeral hl
  have hnumeral : IsNumeral (c :: tail) r := ⟨l, hl, hr⟩
  exact writes_text c tail hc.begins fun bound depth rest hrest =>
    hnumeral.value_append hrest bound depth

section Brackets

variable {items : List β} {write : β → List Char → List Char} {nesting : β → Nat}

/-- Brackets around a sequence make one more level. -/
theorem writes_brackets {opening close : Char} (hopening : Begins opening)
    (hclose : close = ']' ∨ close = '\x7d')
    {read : Nat → Nat → List Char → Option (α × List Char)} {make : List α → Json} {made : β → α}
    (hflat : ∀ bound cs, value bound 0 (opening :: cs) = none)
    (hdeep : ∀ bound depth cs, value bound (depth + 1) (opening :: cs) =
      (sequence close (read bound depth) bound cs).map fun (list, rest) => (make list, rest))
    (h : ∀ bound depth, ∀ b ∈ items, Reads bound (read bound depth) (write b)
      (if nesting b ≤ depth then some (made b) else none)) :
    Writes (fun rest => opening :: listOnto close (items.map write) rest)
      (make (items.map made)) (1 + deepest (items.map nesting)) := by
  intro bound depth
  refine ⟨fun rest => ⟨opening, _, rfl, hopening, ?_⟩, fun rest hrest hbound => ?_⟩
  · exact Nat.le_of_lt (length_lt_listOnto (h bound depth) rest)
  · cases depth with
    | zero =>
        rw [if_neg (by omega), hflat]
        rfl
    | succ depth =>
        rw [hdeep, sequence_listOnto hclose (h bound depth) rest (Nat.le_of_succ_le hbound),
          mapM_eq_ite fun _ _ => rfl]
        simp only [one_add_deepest_le]
        split <;> rfl

theorem writes_array {made : β → Json}
    (h : ∀ b ∈ items, Writes (write b) (made b) (nesting b)) :
    Writes (arrayOnto (items.map write)) (.array (items.map made))
      (1 + deepest (items.map nesting)) := by
  have harray : arrayOnto (items.map write) =
      fun rest => '[' :: listOnto ']' (items.map write) rest := by
    funext rest
    cases items <;> rfl
  rw [harray]
  exact writes_brackets (by decide) (.inl rfl) (fun _ _ => rfl) (fun _ _ _ => rfl)
    fun bound depth b hb => h b hb bound depth

theorem fieldName_fieldOnto (name : String) (write : List Char → List Char) (rest : List Char) :
    fieldName (fieldOnto (name, write) rest) = some (name, write rest) := by
  simp [fieldName, fieldOnto, stringOnto, skipBlanks_cons, stringBody_escape, isBlank]

/-- A reader of fields that leaves the value to another reader. -/
theorem reads_field {γ : Type} {read : List Char → Option (α × List Char)}
    {readField : List Char → Option (γ × List Char)} {write : List Char → List Char}
    {result : Option α} {name : String} (make : α → γ) (h : Reads bound read write result)
    (hfield : ∀ rest, readField (fieldOnto (name, write) rest) =
      (read (write rest)).map (Prod.map make id)) :
    Reads bound readField (fieldOnto (name, write)) (result.map make) := by
  have hname : ∀ rest, (write rest).length < (escape name.toList (':' :: write rest)).length :=
    fun rest => length_le_escape name.toList (':' :: write rest)
  refine ⟨fun rest => ⟨'"', _, rfl, by decide, ?_⟩, fun rest hrest hbound => ?_⟩
  · obtain ⟨c, cs, htext, -, hle⟩ := h.first rest
    have hlt := hname rest
    simp only [htext, List.length_cons] at hlt ⊢
    omega
  · have hlt := hname rest
    simp only [fieldOnto, stringOnto, List.length_cons] at hbound
    rw [hfield, h.read rest hrest (by omega)]
    cases result <;> rfl

theorem recordOnto_map (name : β → String) (items : List β) :
    recordOnto (items.map fun b => (name b, write b)) = fun rest =>
      '\x7b' :: listOnto '\x7d' (items.map fun b => fieldOnto (name b, write b)) rest := by
  funext rest
  cases items with
  | nil => rfl
  | cons b items => simp [recordOnto, listOnto, furtherOnto, List.foldr_map]

theorem writes_record (name : β → String) {made : β → Json}
    (h : ∀ b ∈ items, Writes (write b) (made b) (nesting b)) :
    Writes (recordOnto (items.map fun b => (name b, write b)))
      (ofFields (items.map fun b => (name b, made b))) (1 + deepest (items.map nesting)) := by
  rw [recordOnto_map]
  refine writes_brackets (by decide) (.inr rfl) (fun _ _ => rfl) (fun _ _ _ => rfl)
    fun bound depth b hb => ?_
  have hnamed : Reads bound (namedItem (value bound depth)) (fieldOnto (name b, write b))
      ((if nesting b ≤ depth then some (made b) else none).map (name b, ·)) := by
    refine reads_field _ (h b hb bound depth) fun rest => ?_
    rw [namedItem, fieldName_fieldOnto]
    simp only [Option.bind_eq_bind, Option.bind_some]
    cases value bound depth (write b rest) <;> rfl
  rwa [apply_ite (Option.map _)] at hnamed

end Brackets

/-! ## Trees -/

mutual

/-- How many arrays and objects are inside each other in a value. -/
def nesting : Json → Nat
  | .array items => 1 + itemsNesting items
  | .object fields => 1 + fieldsNesting fields
  | _ => 0

def itemsNesting : List Json → Nat
  | [] => 0
  | item :: items => max item.nesting (itemsNesting items)

def fieldsNesting : List (String × Json) → Nat
  | [] => 0
  | (_, value) :: fields => max value.nesting (fieldsNesting fields)

end

theorem itemsNesting_eq (items : List Json) : itemsNesting items = deepest (items.map nesting) := by
  induction items with
  | nil => rfl
  | cons item items ih => rw [itemsNesting, ih]; rfl

theorem fieldsNesting_eq (fields : List (String × Json)) :
    fieldsNesting fields = deepest (fields.map (·.2.nesting)) := by
  induction fields with
  | nil => rfl
  | cons field fields ih => rw [fieldsNesting, ih]; rfl

theorem onto_array (items : List Json) : onto (.array items) = arrayOnto (items.map onto) := by
  have hitems : ∀ (items : List Json) rest,
      itemsOnto items rest = furtherOnto ']' (items.map onto) rest := by
    intro items rest
    induction items with
    | nil => rfl
    | cons item items ih => rw [itemsOnto, ih]; rfl
  funext rest
  cases items with
  | nil => rfl
  | cons item items => rw [onto, hitems]; rfl

theorem onto_object (fields : List (String × Json)) :
    onto (.object fields) = recordOnto (fields.map fun f => (f.1, f.2.onto)) := by
  have hfields : ∀ (fields : List (String × Json)) rest, fieldsOnto fields rest =
      furtherOnto '\x7d' (fields.map fun f => fieldOnto (f.1, f.2.onto)) rest := by
    intro fields rest
    induction fields with
    | nil => rfl
    | cons field fields ih => rw [fieldsOnto, ih]; rfl
  rw [recordOnto_map]
  funext rest
  cases fields with
  | nil => rfl
  | cons field fields => rw [onto, hfields]; rfl

/-- The text of the number, by itself, is read as that number. -/
def ReadsBack (x : Float) : Prop := scalar (realOnto x []) = some (.real x, [])

/-- The values that a text can stand for: integers fit a signed or an unsigned word, the texts of
reals read back, and the fields of an object are in order. -/
inductive Proper : Json → Prop where
  | null : Proper .null
  | bool (b : Bool) : Proper (.bool b)
  | int {n : Int} (hlow : -2 ^ 63 ≤ n) (hhigh : n < 2 ^ 64) : Proper (.int n)
  | real {x : Float} (h : ReadsBack x) : Proper (.real x)
  | string (s : String) : Proper (.string s)
  | array {items : List Json} (h : ∀ item ∈ items, Proper item) : Proper (.array items)
  | object {fields : List (String × Json)} (hnames : Entries.Ascending fields)
      (h : ∀ field ∈ fields, Proper field.2) : Proper (.object fields)

/-- The text of a value is read as that value, unless it nests too deep. -/
theorem Proper.writes {j : Json} (h : j.Proper) : Writes j.onto j j.nesting := by
  induction h with
  | null => exact writes_null
  | bool b => exact writes_bool b
  | int hlow hhigh => exact (isNumeral_intChars hlow hhigh).writes
  | @real x h =>
      have honto : onto (.real x) = (realOnto x [] ++ ·) := by
        funext rest
        simp [onto, realOnto]
      rw [honto]
      exact (isNumeral_of_scalar (r := .real x) h).writes
  | string s => exact writes_string s
  | array h ih =>
      have hmade := writes_array ih
      rwa [List.map_id', ← onto_array, ← itemsNesting_eq] at hmade
  | object hnames h ih =>
      have hmade := writes_record Prod.fst ih
      rwa [List.map_id', ← onto_object, ← fieldsNesting_eq, ofFields,
        Entries.ofList_of_ascending hnames] at hmade

end TileWorld.Json
