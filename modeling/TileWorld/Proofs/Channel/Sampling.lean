import Mathlib.Tactic.Ring
import TileWorld.Proofs.Channel.Spawn

/-! The search for a free cell stays within its radius on every stream exactly if no walkable cell
can be reached around the end of the 64-bit words. -/

namespace TileWorld

/-- At most `radius` apart. -/
def Near (radius n k : ℕ) : Prop := n ≤ k + radius ∧ k ≤ n + radius

/-- At most `radius` steps above `n`, past the end of the words of 64 bits, comes `k`. -/
def PastEnd (radius n k : ℕ) : Prop := k + 2 ^ 64 ≤ n + radius

def Cell.Within (radius : ℕ) (preferred c : Cell) : Prop :=
  Near radius preferred.row c.row ∧ Near radius preferred.col c.col

/-- Within a radius, but past the end of the words in one direction at least. -/
structure Cell.Across (radius : ℕ) (preferred c : Cell) : Prop where
  row : Near radius preferred.row c.row ∨ PastEnd radius preferred.row c.row
  col : Near radius preferred.col c.col ∨ PastEnd radius preferred.col c.col
  far : ¬ preferred.Within radius c

namespace Words

/-- The offsets of one attempt, down and to the right. -/
def offsets (radius : ℕ) (s : Words) : (ℤ × ℤ) × Words :=
  let (down, s) := s.offset radius
  let (right, s) := s.offset radius
  ((down, right), s)

/-- What a number of attempts leave of a stream. -/
def skip (radius : ℕ) (s : Words) (n : ℕ) : Words := (fun s => (s.offsets radius).2)^[n] s

/-- The offsets of an attempt, those before it numbered from zero. -/
def sample (radius : ℕ) (s : Words) (n : ℕ) : ℤ × ℤ := ((s.skip radius n).offsets radius).1

theorem skip_zero (radius : ℕ) (s : Words) : s.skip radius 0 = s := rfl

theorem skip_succ (radius : ℕ) (s : Words) (n : ℕ) :
    s.skip radius (n + 1) = (s.offsets radius).2.skip radius n :=
  Function.iterate_succ_apply ..

theorem sample_zero (radius : ℕ) (s : Words) : s.sample radius 0 = (s.offsets radius).1 := by
  rw [sample, skip_zero]

theorem sample_succ (radius : ℕ) (s : Words) (n : ℕ) :
    s.sample radius (n + 1) = (s.offsets radius).2.sample radius n := by
  rw [sample, skip_succ, sample]

end Words

namespace Channel

variable {m : Maze} {preferred c : Cell} {settings : SpawnSettings} {radius attempts : ℕ}
  {s t : Words} {offsets : ℤ × ℤ}

/-- The walkable cell `c` is at the offsets from the preferred one. -/
structure Hits (m : Maze) (preferred : Cell) (offsets : ℤ × ℤ) (c : Cell) : Prop where
  row : (c.row : ℤ) = preferred.row + offsets.1
  col : (c.col : ℤ) = preferred.col + offsets.2
  walkable : m.isWalkable c = true

/-- The place at the offsets is negative, outside the maze or blocked. -/
def Misses (m : Maze) (preferred : Cell) (offsets : ℤ × ℤ) : Prop :=
  ∀ c, ¬ Hits m preferred offsets c

/-- What a search with the given settings promises of its result on a stream. -/
structure Searches (m : Maze) (preferred : Cell) (settings : SpawnSettings) (s : Words)
    (result : Option Cell × Words) : Prop where
  /-- A walkable preferred cell is taken without a draw. -/
  taken : m.isWalkable preferred = true → result = (some preferred, s)
  sampled : ∀ n, (s.sample settings.radius n).1.natAbs ≤ settings.radius ∧
    (s.sample settings.radius n).2.natAbs ≤ settings.radius
  /-- Any other result is what the first attempt that hits something has hit. -/
  found : m.isWalkable preferred = false → ∀ c t, result = (some c, t) ↔
    ∃ n < settings.attempts, Hits m preferred (s.sample settings.radius n) c ∧
      (∀ k < n, Misses m preferred (s.sample settings.radius k)) ∧
      t = s.skip settings.radius (n + 1)
  missed : ∀ t, result = (none, t) ↔ m.isWalkable preferred = false ∧
    (∀ n < settings.attempts, Misses m preferred (s.sample settings.radius n)) ∧
    t = s.skip settings.radius settings.attempts
  sound : ∀ c, result.1 = some c →
    m.isWalkable c = true ∧ m.inBounds c = true ∧ preferred.Within settings.radius c
  enclosed : (∀ c, preferred.Within settings.radius c → m.isWalkable c = false) →
    result.1 = none
  bounded : ∃ n ≤ settings.attempts, result.2 = s.skip settings.radius n

/-- What a program with words of 64 bits can hold: its coordinates are unsigned words, its radius is
a signed one, and no list has `2 ^ 63` entries. -/
structure Holds (m : Maze) (preferred : Cell) (radius : ℕ) : Prop where
  tiles : m.tiles.size < 2 ^ 63
  row : preferred.row < 2 ^ 64
  col : preferred.col < 2 ^ 64
  radius : radius < 2 ^ 63

/-! ## One attempt -/

/-- Where an attempt comes to, none if that is not a walkable cell. -/
def attempt (m : Maze) (preferred : Cell) (offsets : ℤ × ℤ) : Option Cell :=
  let row := signedShift preferred.row offsets.1
  let col := signedShift preferred.col offsets.2
  if row < 0 ∨ col < 0 then none
  else
    let cell : Cell := ⟨row.toNat, col.toNat⟩
    if m.isWalkable cell then some cell else none

theorem attempt_eq_some_iff : attempt m preferred offsets = some c ↔
    signedShift preferred.row offsets.1 = c.row ∧ signedShift preferred.col offsets.2 = c.col ∧
      m.isWalkable c = true := by
  obtain ⟨row, col⟩ := c
  unfold attempt
  grind

/-- One attempt of the search. A draw allows for so many refusals that it must not be evaluated. -/
theorem sampleSpawn_eq_attempt : sampleSpawn m preferred radius (attempts + 1) s =
    match attempt m preferred (s.offsets radius).1 with
    | some c => (some c, (s.offsets radius).2)
    | none => sampleSpawn m preferred radius attempts (s.offsets radius).2 := by
  rw [sampleSpawn_succ]
  unfold Words.offsets attempt
  generalize s.offset radius = first
  obtain ⟨down, s⟩ := first
  dsimp only
  generalize s.offset radius = second
  obtain ⟨right, s⟩ := second
  dsimp only
  split_ifs <;> rfl

/-! ## All attempts -/

/-- The attempts up to the first that comes to a walkable cell. -/
theorem sampleSpawn_cases (m : Maze) (preferred : Cell) (radius attempts : ℕ) (s : Words) :
    (∃ n < attempts, ∃ c, attempt m preferred (s.sample radius n) = some c ∧
      (∀ k < n, attempt m preferred (s.sample radius k) = none) ∧
      sampleSpawn m preferred radius attempts s = (some c, s.skip radius (n + 1))) ∨
    ((∀ n < attempts, attempt m preferred (s.sample radius n) = none) ∧
      sampleSpawn m preferred radius attempts s = (none, s.skip radius attempts)) := by
  induction attempts generalizing s with
  | zero => exact .inr ⟨fun n hn => absurd hn n.not_lt_zero, rfl⟩
  | succ attempts ih =>
      rw [sampleSpawn_eq_attempt]
      cases hfirst : attempt m preferred (s.offsets radius).1 with
      | some c =>
          refine .inl ⟨0, attempts.succ_pos, c, ?_, fun k hk => absurd hk k.not_lt_zero, ?_⟩
          · rw [Words.sample_zero, hfirst]
          · rw [Words.skip_succ, Words.skip_zero]
      | none =>
          have hbefore : ∀ {n}, (∀ k < n, attempt m preferred
              ((s.offsets radius).2.sample radius k) = none) →
              ∀ k < n + 1, attempt m preferred (s.sample radius k) = none := by
            intro n h k hk
            cases k with
            | zero => rw [Words.sample_zero, hfirst]
            | succ k =>
                rw [Words.sample_succ]
                exact h k (Nat.lt_of_succ_lt_succ hk)
          rcases ih (s.offsets radius).2 with ⟨n, hn, c, hc, hnone, heq⟩ | ⟨hnone, heq⟩
          · refine .inl ⟨n + 1, Nat.succ_lt_succ hn, c, ?_, hbefore hnone, ?_⟩
            · rw [Words.sample_succ, hc]
            · rw [Words.skip_succ]
              exact heq
          · refine .inr ⟨hbefore hnone, ?_⟩
            rw [Words.skip_succ]
            exact heq

theorem sampleSpawn_eq_some_iff : sampleSpawn m preferred radius attempts s = (some c, t) ↔
    ∃ n < attempts, attempt m preferred (s.sample radius n) = some c ∧
      (∀ k < n, attempt m preferred (s.sample radius k) = none) ∧ t = s.skip radius (n + 1) := by
  rcases sampleSpawn_cases m preferred radius attempts s with
    ⟨n, hn, c', hc', hbefore, heq⟩ | ⟨hnone, heq⟩
  · rw [heq, Prod.mk.injEq, Option.some.injEq]
    constructor
    · rintro ⟨rfl, rfl⟩
      exact ⟨n, hn, hc', hbefore, rfl⟩
    · rintro ⟨k, hk, hc, hfirst, rfl⟩
      rcases lt_trichotomy k n with hlt | rfl | hlt
      · cases hc.symm.trans (hbefore k hlt)
      · exact ⟨Option.some.inj (hc'.symm.trans hc), rfl⟩
      · cases hc'.symm.trans (hfirst n hlt)
  · rw [heq]
    constructor
    · intro hsome
      cases congrArg Prod.fst hsome
    · rintro ⟨n, hn, hc, -, -⟩
      cases hc.symm.trans (hnone n hn)

theorem sampleSpawn_eq_none_iff : sampleSpawn m preferred radius attempts s = (none, t) ↔
    (∀ n < attempts, attempt m preferred (s.sample radius n) = none) ∧
      t = s.skip radius attempts := by
  rcases sampleSpawn_cases m preferred radius attempts s with
    ⟨n, hn, c, hc, -, heq⟩ | ⟨hnone, heq⟩
  · rw [heq]
    constructor
    · intro hsome
      cases congrArg Prod.fst hsome
    · rintro ⟨hnone, -⟩
      cases hc.symm.trans (hnone n hn)
  · rw [heq, Prod.mk.injEq]
    exact ⟨fun ht => ⟨hnone, ht.2.symm⟩, fun ht => ⟨rfl, ht.2.symm⟩⟩

theorem natAbs_offset_le (radius : ℕ) (s : Words) : (s.offset radius).1.natAbs ≤ radius := by
  have hlt : (s.below (2 * radius + 1)).1 < 2 * radius + 1 := by
    rw [Words.below]
    exact Words.drawBelow_lt (Nat.succ_pos _) Words.maxRefusals s
  rw [Words.offset]
  generalize s.below (2 * radius + 1) = draw at hlt ⊢
  dsimp only
  omega

theorem natAbs_sample_le (radius : ℕ) (s : Words) (n : ℕ) :
    (s.sample radius n).1.natAbs ≤ radius ∧ (s.sample radius n).2.natAbs ≤ radius := by
  rw [Words.sample, Words.offsets]
  have hdown := natAbs_offset_le radius (s.skip radius n)
  generalize (s.skip radius n).offset radius = first at hdown ⊢
  have hright := natAbs_offset_le radius first.2
  obtain ⟨down, rest⟩ := first
  dsimp only at hright ⊢
  generalize rest.offset radius = second at hright ⊢
  exact ⟨hdown, hright⟩

/-! ## Words of 64 bits -/

/-- A coordinate below `2 ^ 63` is reached as it should be or past the end of the words. -/
theorem signedShift_eq_iff {n k : ℕ} {offset : ℤ} (hn : n < 2 ^ 64) (hk : k < 2 ^ 63)
    (hoffset : offset.natAbs < 2 ^ 63) :
    signedShift n offset = k ↔ (k : ℤ) = n + offset ∨ (k : ℤ) + 2 ^ 64 = n + offset := by
  unfold signedShift
  rw [Int.bmod_def]
  omega

/-! ## Checks for overflow -/

theorem signedShift_of_eq_some {n : ℕ} {offset k : ℤ} (h : signedShift? n offset = some k) :
    signedShift n offset = k := by
  rw [signedShift?, Number.int64?, Number.minInt64, Number.maxInt64] at h
  split at h
  · obtain rfl := Option.some_inj.mp h
    rw [signedShift, ← Int.bmod_add_bmod]
    exact Int.bmod_eq_of_le (by omega) (by omega)
  · cases h

theorem exists_signedShift? {n : ℕ} {offset : ℤ} (hn : n + radius < 2 ^ 63)
    (hoffset : offset.natAbs ≤ radius) : ∃ k, signedShift? n offset = some k := by
  rw [signedShift?, Number.int64?, Number.minInt64, Number.maxInt64,
    Int.bmod_eq_of_le (by omega) (by omega)]
  exact ⟨_, if_pos (by omega)⟩

theorem sampleSpawn?_succ (preferred : Cell) (radius attempts : ℕ) (s : Words) :
    sampleSpawn? m preferred radius (attempts + 1) s = (do
      let _ ← Number.int64? radius
      let row ← signedShift? preferred.row (s.offsets radius).1.1
      let col ← signedShift? preferred.col (s.offsets radius).1.2
      if row < 0 ∨ col < 0 then sampleSpawn? m preferred radius attempts (s.offsets radius).2
      else
        let cell : Cell := ⟨row.toNat, col.toNat⟩
        if m.isWalkable cell then return (some cell, (s.offsets radius).2)
        else sampleSpawn? m preferred radius attempts (s.offsets radius).2) := by
  change (Number.int64? radius).bind _ = _
  unfold Words.offsets
  generalize s.offset radius = first
  obtain ⟨down, s⟩ := first
  dsimp only
  generalize s.offset radius = second
  rfl

theorem sampleSpawn_of_eq_some {result : Option Cell × Words}
    (h : sampleSpawn? m preferred radius attempts s = some result) :
    sampleSpawn m preferred radius attempts s = result := by
  induction attempts generalizing s with
  | zero => exact Option.some_inj.mp h
  | succ attempts ih =>
      simp only [sampleSpawn?_succ, Option.bind_eq_bind, Option.bind_eq_some_iff] at h
      obtain ⟨_, -, row, hrow, col, hcol, h⟩ := h
      rw [sampleSpawn_eq_attempt, attempt, signedShift_of_eq_some hrow,
        signedShift_of_eq_some hcol]
      dsimp only at h ⊢
      split_ifs at h ⊢
      · exact ih h
      · exact Option.some_inj.mp h
      · exact ih h

theorem exists_sampleSpawn? (hrow : preferred.row + radius < 2 ^ 63)
    (hcol : preferred.col + radius < 2 ^ 63) (m : Maze) (attempts : ℕ) (s : Words) :
    ∃ result, sampleSpawn? m preferred radius attempts s = some result := by
  induction attempts generalizing s with
  | zero => exact ⟨_, rfl⟩
  | succ attempts ih =>
      obtain ⟨hdown, hright⟩ := natAbs_sample_le radius s 0
      rw [Words.sample_zero] at hdown hright
      obtain ⟨row, hrow⟩ := exists_signedShift? hrow hdown
      obtain ⟨col, hcol⟩ := exists_signedShift? hcol hright
      have hradius : Number.int64? radius = some (radius : ℤ) := by
        rw [Number.int64?, Number.minInt64, Number.maxInt64]
        exact if_pos (by omega)
      rw [sampleSpawn?_succ, hradius, hrow, hcol]
      dsimp only [Option.bind_eq_bind, Option.bind_some]
      split
      · exact ih _
      · split
        · exact ⟨_, rfl⟩
        · exact ih _

/-- With checks for overflow a search has the same result if it has one, and it has one unless the
radius leads past the last signed word. -/
theorem findSpawn?_spec (m : Maze) (preferred : Cell) (settings : SpawnSettings) (s : Words) :
    (∀ result, findSpawn? m preferred settings s = some result →
      findSpawn m preferred settings s = result) ∧
    (preferred.row + settings.radius < 2 ^ 63 → preferred.col + settings.radius < 2 ^ 63 →
      ∃ result, findSpawn? m preferred settings s = some result) := by
  rw [findSpawn?, findSpawn]
  split
  · exact ⟨fun _ => Option.some_inj.mp, fun _ _ => ⟨_, rfl⟩⟩
  · exact ⟨fun _ => sampleSpawn_of_eq_some, fun hrow hcol => exists_sampleSpawn? hrow hcol m _ s⟩

/-- Agents are placed without an overflow in every maze that leaves room for the radius. -/
theorem findSpawn?_of_cell? {d : Dims} {p : Point} {cell : Cell} (h : d.cell? p = some cell)
    (hrows : d.mazeRows + settings.radius ≤ 2 ^ 63) (hcols : d.mazeCols + settings.radius ≤ 2 ^ 63)
    (m : Maze) (s : Words) :
    findSpawn? m cell settings s = some (findSpawn m cell settings s) := by
  simp only [Dims.cell?, Option.bind_eq_bind, Option.bind_eq_some_iff] at h
  obtain ⟨col, hcol, row, hrow, hcell⟩ := h
  obtain rfl := Option.some_inj.mp hcell
  have hcol := Dims.lt_of_index?_eq_some hcol
  have hrow := Dims.lt_of_index?_eq_some hrow
  obtain ⟨hsame, hresult⟩ := findSpawn?_spec m ⟨row, col⟩ settings s
  obtain ⟨result, hresult⟩ := hresult (by dsimp only; omega) (by dsimp only; omega)
  rw [hresult, hsame result hresult]

/-! ## Coordinates past the end of the words -/

theorem lt_of_isWalkable (hm : m.tiles.size < 2 ^ 63) (hc : m.isWalkable c = true) :
    c.row < 2 ^ 63 ∧ c.col < 2 ^ 63 := by
  have hin := Maze.inBounds_iff.mp (Maze.inBounds_of_isWalkable hc)
  have hsize := m.size_tiles
  have hrows : m.rows * 1 ≤ m.rows * m.cols := Nat.mul_le_mul_left _ (by omega)
  have hcols : 1 * m.cols ≤ m.rows * m.cols := Nat.mul_le_mul_right _ (by omega)
  omega

section Held

variable (h : Holds m preferred radius)
include h

theorem attempt_eq_some_iff_of_holds (hdown : offsets.1.natAbs ≤ radius)
    (hright : offsets.2.natAbs ≤ radius) (hc : m.isWalkable c = true) :
    attempt m preferred offsets = some c ↔
      ((c.row : ℤ) = preferred.row + offsets.1 ∨
        (c.row : ℤ) + 2 ^ 64 = preferred.row + offsets.1) ∧
      ((c.col : ℤ) = preferred.col + offsets.2 ∨
        (c.col : ℤ) + 2 ^ 64 = preferred.col + offsets.2) := by
  obtain ⟨hrow, hcol⟩ := lt_of_isWalkable h.tiles hc
  rw [attempt_eq_some_iff, signedShift_eq_iff h.row hrow (hdown.trans_lt h.radius),
    signedShift_eq_iff h.col hcol (hright.trans_lt h.radius), eq_true hc, and_true]

/-- Where no walkable cell lies past the end of the words, an attempt comes to what it hits. -/
theorem attempt_eq_some_iff_hits
    (hnone : ¬ ∃ c, m.isWalkable c = true ∧ preferred.Across radius c)
    (hdown : offsets.1.natAbs ≤ radius) (hright : offsets.2.natAbs ≤ radius) :
    attempt m preferred offsets = some c ↔ Hits m preferred offsets c := by
  constructor
  · intro hsome
    have hc : m.isWalkable c = true := (attempt_eq_some_iff.mp hsome).2.2
    obtain ⟨hrow, hcol⟩ := (attempt_eq_some_iff_of_holds h hdown hright hc).mp hsome
    have hwithin : preferred.Within radius c := by
      by_contra hfar
      refine hnone ⟨c, hc, ?_, ?_, hfar⟩
      · unfold Near PastEnd
        omega
      · unfold Near PastEnd
        omega
    have hradius := h.radius
    unfold Cell.Within Near at hwithin
    exact ⟨by omega, by omega, hc⟩
  · rintro ⟨hrow, hcol, hc⟩
    exact (attempt_eq_some_iff_of_holds h hdown hright hc).mpr ⟨.inl hrow, .inl hcol⟩

/-- Nothing lies past the end of the words from inside a maze. -/
theorem not_isWalkable_of_across (hc : preferred.Across radius c) :
    m.isWalkable preferred = false := by
  rw [Bool.eq_false_iff]
  intro hpreferred
  have hlt := lt_of_isWalkable h.tiles hpreferred
  have hradius := h.radius
  obtain ⟨hrow, hcol, hfar⟩ := hc
  unfold Near PastEnd at hrow hcol
  refine hfar ⟨?_, ?_⟩ <;>
  · unfold Near
    omega

theorem attempt_eq_none_iff_misses
    (hnone : ¬ ∃ c, m.isWalkable c = true ∧ preferred.Across radius c)
    (hdown : offsets.1.natAbs ≤ radius) (hright : offsets.2.natAbs ≤ radius) :
    attempt m preferred offsets = none ↔ Misses m preferred offsets := by
  simp only [Option.eq_none_iff_forall_ne_some, Misses, ne_eq,
    attempt_eq_some_iff_hits h hnone hdown hright]

end Held

theorem Hits.within (h : Hits m preferred offsets c) (hdown : offsets.1.natAbs ≤ radius)
    (hright : offsets.2.natAbs ≤ radius) : preferred.Within radius c := by
  obtain ⟨hrow, hcol, -⟩ := h
  unfold Cell.Within Near
  omega

/-! ## The search -/

theorem findSpawn_of_isWalkable (h : m.isWalkable preferred = true) :
    findSpawn m preferred settings s = (some preferred, s) :=
  if_pos h

theorem findSpawn_of_blocked (h : m.isWalkable preferred = false) :
    findSpawn m preferred settings s =
      sampleSpawn m preferred settings.radius settings.attempts s :=
  if_neg (by rw [h]; decide)

theorem searches_of_isWalkable (h : m.isWalkable preferred = true) :
    Searches m preferred settings s (some preferred, s) := by
  have hself : preferred.Within settings.radius preferred := by
    unfold Cell.Within Near
    omega
  exact {
    taken := fun _ => rfl
    sampled := natAbs_sample_le settings.radius s
    found := fun hblocked => absurd (h.symm.trans hblocked) (by decide)
    missed := fun t => ⟨fun hlost => (nomatch congrArg Prod.fst hlost),
      fun hlost => absurd (h.symm.trans hlost.1) (by decide)⟩
    sound := fun c hc => Option.some.inj hc ▸ ⟨h, Maze.inBounds_of_isWalkable h, hself⟩
    enclosed := fun hblocked => absurd (h.symm.trans (hblocked _ hself)) (by decide)
    bounded := ⟨0, Nat.zero_le _, rfl⟩ }

section Blocked

variable (h : Holds m preferred radius)
  (hnone : ¬ ∃ c, m.isWalkable c = true ∧ preferred.Across radius c)
include h hnone

theorem sampleSpawn_eq_some_iff_hits : sampleSpawn m preferred radius attempts s = (some c, t) ↔
    ∃ n < attempts, Hits m preferred (s.sample radius n) c ∧
      (∀ k < n, Misses m preferred (s.sample radius k)) ∧ t = s.skip radius (n + 1) := by
  have hsampled := natAbs_sample_le radius s
  simp only [sampleSpawn_eq_some_iff,
    attempt_eq_some_iff_hits h hnone (hsampled _).1 (hsampled _).2,
    attempt_eq_none_iff_misses h hnone (hsampled _).1 (hsampled _).2]

theorem sampleSpawn_eq_none_iff_misses : sampleSpawn m preferred radius attempts s = (none, t) ↔
    (∀ n < attempts, Misses m preferred (s.sample radius n)) ∧ t = s.skip radius attempts := by
  have hsampled := natAbs_sample_le radius s
  simp only [sampleSpawn_eq_none_iff,
    attempt_eq_none_iff_misses h hnone (hsampled _).1 (hsampled _).2]

theorem searches_sampleSpawn (hpreferred : m.isWalkable preferred = false) :
    Searches m preferred ⟨radius, attempts⟩ s (sampleSpawn m preferred radius attempts s) := by
  have hsampled := natAbs_sample_le radius s
  have hfound : ∀ c t, sampleSpawn m preferred radius attempts s = (some c, t) ↔ _ :=
    fun _ _ => sampleSpawn_eq_some_iff_hits h hnone
  have hmissed : ∀ t, sampleSpawn m preferred radius attempts s = (none, t) ↔ _ :=
    fun _ => sampleSpawn_eq_none_iff_misses h hnone
  have hsound : ∀ c t, sampleSpawn m preferred radius attempts s = (some c, t) →
      m.isWalkable c = true ∧ preferred.Within radius c ∧
        ∃ n ≤ attempts, t = s.skip radius n := by
    intro c t hresult
    obtain ⟨n, hn, hhits, -, ht⟩ := (hfound c t).mp hresult
    exact ⟨hhits.walkable, hhits.within (hsampled n).1 (hsampled n).2, n + 1, hn, ht⟩
  generalize sampleSpawn m preferred radius attempts s = result at hfound hmissed hsound ⊢
  obtain ⟨found, t⟩ := result
  exact {
    taken := fun hwalkable => absurd (hwalkable.symm.trans hpreferred) (by decide)
    sampled := hsampled
    found := fun _ => hfound
    missed := fun u => (hmissed u).trans (iff_and_self.mpr fun _ => hpreferred)
    sound := by
      rintro c rfl
      obtain ⟨hc, hwithin, -⟩ := hsound c t rfl
      exact ⟨hc, Maze.inBounds_of_isWalkable hc, hwithin⟩
    enclosed := by
      intro hblocked
      cases found with
      | none => rfl
      | some c =>
          obtain ⟨hc, hwithin, -⟩ := hsound c t rfl
          cases hc.symm.trans (hblocked c hwithin)
    bounded := by
      cases found with
      | none => exact ⟨attempts, le_rfl, ((hmissed t).mp rfl).2⟩
      | some c => exact (hsound c t rfl).2.2 }

end Blocked

/-! ## Streams that come out at the other end -/

/-- A number that is drawn below a range without a refusal. -/
theorem exists_draw {range n : ℕ} (hn : n < range) (hrange : range ≤ 2 ^ 64) :
    ∃ v < 2 ^ 64, v * range / 2 ^ 64 = n ∧ v * range % 2 ^ 64 ≤ Words.zone range := by
  obtain ⟨v, hv⟩ : ∃ v, v = (n * 2 ^ 64 + (range - 1)) / range := ⟨_, rfl⟩
  have hle : v * range ≤ n * 2 ^ 64 + (range - 1) := hv ▸ Nat.div_mul_le_self ..
  have hlt : n * 2 ^ 64 + (range - 1) < (v + 1) * range := by
    rw [Nat.mul_comm (v + 1), hv]
    exact Nat.lt_mul_div_succ _ (by omega)
  have hlow : n * 2 ^ 64 ≤ v * range := by
    rw [Nat.add_one_mul v] at hlt
    omega
  refine ⟨v, ?_, ?_, ?_⟩
  · refine Nat.lt_of_mul_lt_mul_right (a := range) ?_
    omega
  · omega
  · have hzone : range * 1 ≤ range * 2 ^ (63 - range.log2) :=
      Nat.mul_le_mul_left _ Nat.one_le_two_pow
    unfold Words.zone
    omega

/-- The stream of these numbers of 64 bits, from the number at `n` on. -/
def streamOf (numbers : ℕ → ℕ) (n : ℕ) : Words where
  word i := UInt32.ofNat (numbers (i / 2) / 2 ^ (32 * (i % 2)))
  used := 2 * n

theorem next64_streamOf (numbers : ℕ → ℕ) (n : ℕ) (h : numbers n < 2 ^ 64) :
    (streamOf numbers n).next64 = (numbers n, streamOf numbers (n + 1)) := by
  have hhalf : (2 * n + 1) / 2 = n := by omega
  have hodd : (2 * n + 1) % 2 = 1 := by omega
  simp [streamOf, Words.next64, Words.next, hhalf, hodd, Nat.mul_add]
  omega

theorem below_eq {range v n : ℕ} (hnext : s.next64 = (v, t)) (hdiv : v * range / 2 ^ 64 = n)
    (hzone : v * range % 2 ^ 64 ≤ Words.zone range) : s.below range = (n, t) := by
  obtain ⟨refusals, hrefusals⟩ : ∃ refusals, Words.maxRefusals = refusals + 1 := ⟨65535, rfl⟩
  rw [Words.below, hrefusals, Words.drawBelow, hnext]
  simp only [hzone, if_true, hdiv]

theorem offset_eq {v : ℕ} {offset : ℤ} (hnext : s.next64 = (v, t))
    (hdiv : v * (2 * radius + 1) / 2 ^ 64 = (offset + radius).toNat)
    (hzone : v * (2 * radius + 1) % 2 ^ 64 ≤ Words.zone (2 * radius + 1))
    (hoffset : offset.natAbs ≤ radius) : s.offset radius = (offset, t) := by
  rw [Words.offset, below_eq hnext hdiv hzone]
  dsimp only
  rw [Int.toNat_of_nonneg (by omega), add_sub_cancel_right]

theorem offsets_eq {u : Words} {down right : ℤ} (hdown : s.offset radius = (down, t))
    (hright : t.offset radius = (right, u)) : s.offsets radius = ((down, right), u) := by
  rw [Words.offsets, hdown]
  dsimp only
  rw [hright]

/-- Any two offsets within the radius are drawn from some stream. -/
theorem exists_offsets_eq {down right : ℤ} (hradius : radius < 2 ^ 63)
    (hdown : down.natAbs ≤ radius) (hright : right.natAbs ≤ radius) :
    ∃ s t : Words, s.offsets radius = ((down, right), t) := by
  have hdown' : (down + radius).toNat < 2 * radius + 1 := by omega
  have hright' : (right + radius).toNat < 2 * radius + 1 := by omega
  obtain ⟨v, hv, hvdiv, hvzone⟩ := exists_draw hdown' (by omega)
  obtain ⟨w, hw, hwdiv, hwzone⟩ := exists_draw hright' (by omega)
  let numbers : ℕ → ℕ := fun n => if n = 0 then v else w
  exact ⟨streamOf numbers 0, streamOf numbers 2, offsets_eq
    (offset_eq (next64_streamOf numbers 0 hv) hvdiv hvzone hdown)
    (offset_eq (next64_streamOf numbers 1 hw) hwdiv hwzone hright)⟩

theorem exists_shift {n k : ℕ} (hn : n < 2 ^ 64) (h : Near radius n k ∨ PastEnd radius n k) :
    ∃ offset : ℤ, offset.natAbs ≤ radius ∧
      ((k : ℤ) = n + offset ∨ (k : ℤ) + 2 ^ 64 = n + offset) := by
  unfold Near PastEnd at h
  rcases h with hnear | hpast
  · exact ⟨k - n, by omega, .inl (by omega)⟩
  · exact ⟨k + 2 ^ 64 - n, by omega, .inr (by omega)⟩

theorem findSpawn_eq_of_attempt (hpreferred : m.isWalkable preferred = false)
    (hoffsets : s.offsets radius = (offsets, t)) (hc : attempt m preferred offsets = some c) :
    findSpawn m preferred ⟨radius, 1⟩ s = (some c, t) := by
  rw [findSpawn_of_blocked hpreferred, sampleSpawn_eq_attempt, hoffsets, hc]

/-- A search keeps its promise on every stream, with any number of attempts, exactly if no walkable
cell can be reached past the end of the words. -/
theorem searches_iff_not_across (h : Holds m preferred radius) :
    (∀ attempts s, Searches m preferred ⟨radius, attempts⟩ s
      (findSpawn m preferred ⟨radius, attempts⟩ s)) ↔
    ¬ ∃ c, m.isWalkable c = true ∧ preferred.Across radius c := by
  constructor
  · rintro hsearches ⟨c, hc, hacross⟩
    obtain ⟨down, hdown, hrow⟩ := exists_shift h.row hacross.row
    obtain ⟨right, hright, hcol⟩ := exists_shift h.col hacross.col
    obtain ⟨s, t, hoffsets⟩ := exists_offsets_eq h.radius hdown hright
    have hattempt : attempt m preferred (down, right) = some c :=
      (attempt_eq_some_iff_of_holds h hdown hright hc).mpr ⟨hrow, hcol⟩
    have hresult := findSpawn_eq_of_attempt (not_isWalkable_of_across h hacross) hoffsets hattempt
    exact hacross.far ((hsearches 1 s).sound c (congrArg Prod.fst hresult)).2.2
  · intro hnone attempts s
    cases hpreferred : m.isWalkable preferred with
    | true =>
        rw [findSpawn_of_isWalkable hpreferred]
        exact searches_of_isWalkable hpreferred
    | false =>
        rw [findSpawn_of_blocked hpreferred]
        exact searches_sampleSpawn h hnone hpreferred

/-- Three by three cells around a blocked one. -/
def pond : Maze := (Maze.free 3 3).set ⟨1, 1⟩ true

theorem searches_pond : Holds pond ⟨1, 1⟩ 1 ∧ ∀ attempts s, Searches pond ⟨1, 1⟩ ⟨1, attempts⟩ s
    (findSpawn pond ⟨1, 1⟩ ⟨1, attempts⟩ s) := by
  have hholds : Holds pond ⟨1, 1⟩ 1 := ⟨by decide, by decide, by decide, by decide⟩
  refine ⟨hholds, (searches_iff_not_across hholds).mpr ?_⟩
  rintro ⟨c, -, hrow, hcol, hfar⟩
  unfold Cell.Within at hfar
  unfold Near PastEnd at *
  dsimp only at *
  omega

/-- A stream whose offsets within a radius of one are all a step down and a step to the right. -/
def descending : Words := ⟨fun _ => 0xC0000000, 0⟩

theorem not_searches_lastWord :
    ¬ Searches (Maze.free 1 1) ⟨2 ^ 64 - 1, 2 ^ 64 - 1⟩ ⟨1, 1⟩ descending
      (findSpawn (Maze.free 1 1) ⟨2 ^ 64 - 1, 2 ^ 64 - 1⟩ ⟨1, 1⟩ descending) := by
  intro hsearches
  have hdown : descending.offset 1 = (1, { descending with used := 2 }) :=
    offset_eq (v := 0xC0000000C0000000) rfl (by decide) (by decide) (by decide)
  have hright : Words.offset { descending with used := 2 } 1 =
      (1, { descending with used := 4 }) :=
    offset_eq (v := 0xC0000000C0000000) rfl (by decide) (by decide) (by decide)
  have hattempt : attempt (Maze.free 1 1) ⟨2 ^ 64 - 1, 2 ^ 64 - 1⟩ (1, 1) = some ⟨0, 0⟩ := by
    decide
  have hresult := findSpawn_eq_of_attempt (by decide) (offsets_eq hdown hright) hattempt
  have hwithin := (hsearches.sound ⟨0, 0⟩ (congrArg Prod.fst hresult)).2.2
  unfold Cell.Within Near at hwithin
  dsimp only at hwithin
  omega

end Channel

end TileWorld
