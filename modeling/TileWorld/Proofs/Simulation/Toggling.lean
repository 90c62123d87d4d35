import Mathlib.Data.List.Induction
import TileWorld.Proofs.Simulation.Response

/-! After any requests each item is worn or not as the last request that names it asks. -/

namespace TileWorld.Simulation

variable {s : Simulation} {player item other : String} {active : Bool} {layers : List String}
  {requests : List (String × Bool)}

/-- The requests of a player, as calls of the simulation. -/
def activations (requests : List (String × Bool)) : List Call :=
  requests.map fun r => .handle (.activate r.1 r.2)

def toggleAll (requests : List (String × Bool)) (layers : List String) : List String :=
  requests.foldl (fun layers r => toggle r.1 r.2 layers) layers

/-- What the last request that names the item asks for. -/
def lastWord? (requests : List (String × Bool)) (item : String) : Option Bool :=
  requests.reverse.lookup item

/-- Layers after requests, compared with those before. -/
structure LastWins (requests : List (String × Bool)) (before after : List String) : Prop where
  mem : ∀ item, item ∈ after ↔
    lastWord? requests item = some true ∨ item ∉ requests.map (·.1) ∧ item ∈ before
  count : ∀ item, before.count item ≤ 1 → after.count item ≤ 1
  /-- The items that are never named keep their order, and each of them its number. -/
  unnamed : after.filter (· ∉ requests.map (·.1)) = before.filter (· ∉ requests.map (·.1))

/-! ## One request -/

/-- A request finds the item as it asks, or it adds the item, or it takes the item away. -/
theorem toggle_cases (item : String) (active : Bool) (layers : List String) :
    (item ∈ layers ↔ active = true) ∧ toggle item active layers = layers ∨
      item ∉ layers ∧ active = true ∧ toggle item active layers = layers ++ [item] ∨
      item ∈ layers ∧ active = false ∧ toggle item active layers = layers.filter (· != item) := by
  cases active <;> by_cases h : item ∈ layers <;> simp [toggle, h]

theorem toggle_eq_self (h : item ∈ layers ↔ active = true) :
    toggle item active layers = layers := by
  rcases toggle_cases item active layers with ⟨-, heq⟩ | ⟨habsent, ha, -⟩ | ⟨hworn, ha, -⟩
  · exact heq
  · exact absurd (h.mpr ha) habsent
  · rw [h.mp hworn] at ha
    cases ha

theorem mem_toggle_iff :
    other ∈ toggle item active layers ↔
      if other = item then active = true else other ∈ layers := by
  by_cases hother : other = item
  · subst hother
    rw [if_pos rfl]
    rcases toggle_cases other active layers with ⟨h, heq⟩ | ⟨-, ha, heq⟩ | ⟨-, ha, heq⟩ <;> rw [heq]
    · exact h
    · simp [ha]
    · simp [ha]
  · rw [if_neg hother]
    rcases toggle_cases item active layers with ⟨-, heq⟩ | ⟨-, -, heq⟩ | ⟨-, -, heq⟩ <;>
      simp [heq, hother]

theorem mem_toggle_true (item : String) (layers : List String) :
    item ∈ toggle item true layers := by
  rw [mem_toggle_iff, if_pos rfl]

theorem filter_toggle {p : String → Bool} (hp : p item = false) (active : Bool)
    (layers : List String) : (toggle item active layers).filter p = layers.filter p := by
  rcases toggle_cases item active layers with ⟨-, heq⟩ | ⟨-, -, heq⟩ | ⟨-, -, heq⟩ <;> rw [heq]
  · simp [hp]
  · rw [List.filter_filter]
    refine List.filter_congr fun x _ => ?_
    by_cases hx : x = item <;> simp [hx, hp]

theorem count_toggle_le_one (h : layers.count other ≤ 1) :
    (toggle item active layers).count other ≤ 1 := by
  rcases toggle_cases item active layers with ⟨-, heq⟩ | ⟨hnew, -, heq⟩ | ⟨-, -, heq⟩ <;> rw [heq]
  · exact h
  · rw [List.count_append]
    by_cases hother : other = item
    · subst hother
      simp [List.count_eq_zero.mpr hnew]
    · simpa [List.count_singleton, Ne.symm hother] using h
  · exact Nat.le_trans (List.filter_sublist.count_le other) h

/-! ## All requests -/

theorem toggleAll_append (requests : List (String × Bool)) (r : String × Bool)
    (layers : List String) :
    toggleAll (requests ++ [r]) layers = toggle r.1 r.2 (toggleAll requests layers) :=
  List.foldl_append

theorem lastWord?_append (requests : List (String × Bool)) (r : String × Bool) (item : String) :
    lastWord? (requests ++ [r]) item =
      if item = r.1 then some r.2 else lastWord? requests item := by
  rw [lastWord?, List.reverse_append, List.reverse_singleton, List.singleton_append,
    List.lookup_cons]
  split <;> simp_all [lastWord?]

theorem mem_toggleAll_iff :
    item ∈ toggleAll requests layers ↔
      lastWord? requests item = some true ∨ item ∉ requests.map (·.1) ∧ item ∈ layers := by
  induction requests using List.reverseRecOn with
  | nil => simp [toggleAll, lastWord?]
  | append_singleton requests r ih =>
      rw [toggleAll_append, mem_toggle_iff, lastWord?_append, ih]
      by_cases hitem : item = r.1 <;> simp [hitem]

theorem count_toggleAll_le_one (h : layers.count item ≤ 1) :
    (toggleAll requests layers).count item ≤ 1 :=
  List.foldlRecOn (motive := fun layers : List String => layers.count item ≤ 1) _ _ h
    fun _ h _ _ => count_toggle_le_one h

theorem filter_toggleAll {p : String → Bool} (hp : ∀ r ∈ requests, p r.1 = false)
    (layers : List String) : (toggleAll requests layers).filter p = layers.filter p :=
  List.foldlRecOn (motive := fun after : List String => after.filter p = layers.filter p) _ _ rfl
    fun after h r hr => (filter_toggle (hp r hr) r.2 after).trans h

theorem lastWins_toggleAll (requests : List (String × Bool)) (layers : List String) :
    LastWins requests layers (toggleAll requests layers) where
  mem _ := mem_toggleAll_iff
  count _ := count_toggleAll_le_one
  unnamed :=
    filter_toggleAll (fun _ hr => decide_eq_false (not_not_intro (List.mem_map_of_mem hr))) layers

/-- Once an item is as the last request asks, asking again makes no difference. -/
theorem toggle_toggleAll_append (requests : List (String × Bool)) (item : String) (active : Bool)
    (layers : List String) :
    toggle item active (toggleAll (requests ++ [(item, active)]) layers) =
      toggleAll (requests ++ [(item, active)]) layers := by
  refine toggle_eq_self ?_
  rw [toggleAll_append, mem_toggle_iff, if_pos rfl]

/-! ## The simulation -/

/-- Whether or not the player is there, a request can change nothing but its layers. -/
theorem changesOnly_handle_activate (hplayer : s.player = some player) (item : String)
    (active : Bool) :
    ChangesOnly s (s.handle (.activate item active)).2 player
      (fun o => { o with layers := toggle item active o.layers }) := by
  rw [handle, hplayer]
  dsimp only
  cases ho : s.world.find? player with
  | none =>
      rw [activateItem_of_missing item active ho]
      refine changesOnly_self fun o hsome => ?_
      rw [ho] at hsome
      cases hsome
  | some o =>
      rw [activateItem_of_find? item active ho]
      exact changesOnly_modify s (fun _ => by rfl) fun _ => by rfl

theorem changesOnly_run_activations (hplayer : s.player = some player)
    (requests : List (String × Bool)) :
    ChangesOnly s (s.run (activations requests)) player
      (fun o => { o with layers := toggleAll requests o.layers }) := by
  induction requests using List.reverseRecOn with
  | nil => exact changesOnly_self fun _ _ => rfl
  | append_singleton requests r ih =>
      have hrun : s.run (activations (requests ++ [r])) =
          ((s.run (activations requests)).handle (.activate r.1 r.2)).2 := by
        rw [activations, List.map_append, run_append]
        rfl
      simp only [hrun, toggleAll_append]
      exact ih.trans (changesOnly_handle_activate (ih.player.trans hplayer) r.1 r.2)

/-- After any requests the layers of the player, and nothing else, are as the last request on each
item asks, and to repeat the last request of all changes nothing any more. -/
theorem lastWins_run_activations (hplayer : s.player = some player)
    (requests : List (String × Bool)) :
    let t := s.run (activations requests)
    ChangesOnly s t player (fun o => { o with layers := toggleAll requests o.layers }) ∧
      (∀ layers, LastWins requests layers (toggleAll requests layers)) ∧
      ∀ earlier item active, requests = earlier ++ [(item, active)] →
        (t.handle (.activate item active)).2 = t := by
  intro t
  have hrun : ChangesOnly s t player (fun o => { o with layers := toggleAll requests o.layers }) :=
    changesOnly_run_activations hplayer requests
  refine ⟨hrun, lastWins_toggleAll requests, ?_⟩
  rintro earlier item active rfl
  have hagain := changesOnly_handle_activate (hrun.player.trans hplayer) item active
  have hself : ChangesOnly t t player
      (fun o => { o with layers := toggle item active o.layers }) := by
    refine changesOnly_self fun o ho => ?_
    rw [hrun.changed] at ho
    obtain ⟨before, -, rfl⟩ := Option.map_eq_some_iff.mp ho
    simp only [toggle_toggleAll_append]
  rw [hagain.eq_modify (fun _ => rfl) fun _ => rfl]
  exact (hself.eq_modify (fun _ => rfl) fun _ => rfl).symm

/-- One item is asked for again after it was taken off, another one is taken off in the end. -/
theorem lastWins_run_cornered :
    let requests :=
      [("anon", false), ("hat", true), ("lantern", true), ("anon", true), ("hat", false)]
    cornered.player = some "player-1" ∧
      (let t := cornered.run (activations requests)
      ChangesOnly cornered t "player-1"
          (fun o => { o with layers := toggleAll requests o.layers }) ∧
        (∀ layers, LastWins requests layers (toggleAll requests layers)) ∧
        ∀ earlier item active, requests = earlier ++ [(item, active)] →
          (t.handle (.activate item active)).2 = t) ∧
      toggleAll requests ["anon", "boots", "boots"] = ["boots", "boots", "lantern", "anon"] := by
  intro requests
  exact ⟨rfl, lastWins_run_activations rfl requests, by decide +kernel⟩

end TileWorld.Simulation
