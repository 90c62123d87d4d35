import TileWorld.Proofs.Replica.Account
import TileWorld.Proofs.Replica.Fresh

/-! A marker stays as it was placed until the first frame at its decay time or later, and does not
come back. -/

namespace TileWorld.Replica

variable {r : Replica} {id : String} {marker : Object} {decay : Float} {event : Event}

/-- No message names an id that is kept for markers. -/
def Event.SparesMarkers : Event → Prop
  | .message (.state objects _) _ => ∀ id, objects.contains id = true → ¬ Reserved id
  | .message (.route mover _) _ => ¬ Reserved mover
  | .message (.removed id _) _ => ¬ Reserved id
  | _ => True

/-- A frame at the decay time or later. -/
def Event.retires (decay : Float) : Event → Bool
  | .frame _ now => decay ≤ now
  | _ => false

/-! ## Markers at rest -/

/-- Fleeting until its decay time, on its way nowhere, and under an id that is kept for markers. -/
structure Fleeting (marker : Object) (decay : Float) : Prop where
  reserved : Reserved marker.id
  persistent : marker.persistent = false
  path : marker.path = []
  decay : marker.decay = some decay

theorem fleeting_marker (kind : Kind) (word : String) (number : Nat) (p : Point) (decay : Float) :
    Fleeting (Replica.marker kind word number p decay) decay :=
  ⟨reserved_markerId word number, rfl, rfl, rfl⟩

theorem exists_fleeting_of_mem_placed (h : marker ∈ r.placed event) :
    ∃ decay, Fleeting marker decay := by
  cases event with
  | message m now =>
      cases m with
      | route mover path =>
          rw [placed] at h
          split at h
          · obtain ⟨i, _, rfl⟩ := List.mem_mapIdx.mp h
            exact ⟨_, fleeting_marker ..⟩
          · cases h
      | state | assigned | message | chat | removed => cases h
  | move target now =>
      rw [List.mem_singleton.mp h]
      exact ⟨_, fleeting_marker ..⟩
  | frame dt now => cases h

theorem Fleeting.isExpired (h : Fleeting marker decay) (now : Float) :
    marker.isExpired now = decide (decay ≤ now) := by
  simp [Object.isExpired, h.persistent, h.decay]

/-! ## One event -/

/-- New markers have ids of their own, so under an id that was made before stands what the rest of
the event leaves there. -/
theorem find?_perform_of_numbered (h : Numbered r.markers id) (event : Event) :
    (r.perform event).2.world.find? id = (r.ground event).find? id := by
  rw [world_perform, World.find?_foldl_insert_of_forall_ne]
  rintro x hx rfl
  exact (new_of_mem_placed hx).2 h

theorem numbered_perform (h : Numbered r.markers id) (event : Event) :
    Numbered (r.perform event).2.markers id :=
  h.mono (by rw [markers_perform]; exact Nat.le_add_right ..)

/-- Nothing but a frame at its decay time or later takes a marker away, and nothing changes it. -/
theorem Fleeting.find?_ground (h : Fleeting marker decay)
    (hfind : r.world.find? marker.id = some marker) (hevent : event.SparesMarkers) :
    (r.ground event).find? marker.id =
      if event.retires decay then none else some marker := by
  cases event with
  | message m now =>
      cases m with
      | state objects channel =>
          have hentry : objects.find? marker.id = none :=
            Option.not_isSome_iff_eq_none.mp fun hsome => hevent _ hsome h.reserved
          rw [ground, World.find?_reconcile, World.find?_merged, hentry, hfind]
          simp [Event.retires, h.persistent]
      | route mover path =>
          have hne : marker.id ≠ mover := fun heq => hevent (heq ▸ h.reserved)
          rw [ground, World.find?_modify_eq_map, hfind]
          simp [Event.retires, hne]
      | assigned | message | chat | removed => exact hfind
  | move target now => exact hfind
  | frame dt now =>
      have hstill := Object.step_of_path_eq_nil h.path dt now
      rw [ground, World.find?_sweep, World.find?_integrate, hfind, Option.map_some, hstill]
      by_cases hdecay : decay ≤ now <;>
        simp [Option.filter, h.isExpired, Event.retires, hdecay]

/-- Nobody but a snapshot could bring back an id that is kept for markers. -/
theorem find?_ground_of_reserved (hid : Reserved id) (hfind : r.world.find? id = none)
    (hevent : event.SparesMarkers) : (r.ground event).find? id = none := by
  by_contra hsome
  obtain ⟨o, ho⟩ := Option.ne_none_iff_exists'.mp hsome
  rcases find?_ground ho with ⟨x, hx⟩ | ⟨objects, channel, now, rfl, hentry⟩
  · rw [hfind] at hx
    cases hx
  · exact hevent id hentry hid

theorem Reports.filter_eq_nil (hr : r.Reports) (hid : Reserved id)
    (hevent : event.SparesMarkers)
    (hkeep : r.world.find? id = none ∨ (r.perform event).2.world.find? id ≠ none) :
    (r.perform event).1.filter (·.id = id) = [] := by
  have haccount : ∀ {notices : List Notice},
      World.Accounted r.world (r.perform event).2.world notices →
      notices.filter (·.id = id) = [] := by
    intro notices haccount
    refine List.filter_eq_nil_iff.mpr fun n hn hn' => ?_
    obtain ⟨⟨o, ho⟩, hgone⟩ := haccount.gone n hn
    rw [of_decide_eq_true hn'] at ho hgone
    rcases hkeep with hnone | hsome
    · rw [hnone] at ho
      cases ho
    · exact hsome hgone
  cases event with
  | message m now =>
      cases m with
      | state objects channel => exact haccount (hr.state objects channel now)
      | removed other layer =>
          have hne : other ≠ id := fun heq => hevent (heq ▸ hid)
          rw [perform, hr.removed]
          simp [hne]
      | assigned | message | chat | route =>
          rw [perform, hr.silent _ now]
          · rfl
          · intro _ _ h
            cases h
          · intro _ _ h
            cases h
  | move target now => rfl
  | frame dt now => exact haccount (hr.frame dt now)

theorem Fleeting.filter_perform (h : Fleeting marker decay) (hr : r.Reports)
    (hfind : r.world.find? marker.id = some marker) (hnumbered : Numbered r.markers marker.id)
    (hevent : event.SparesMarkers) :
    (r.perform event).1.filter (·.id = marker.id) =
      if event.retires decay then World.noticesFor (marker.id, marker) else [] := by
  have hafter := find?_perform_of_numbered hnumbered event
  rw [h.find?_ground hfind hevent] at hafter
  cases hretires : event.retires decay with
  | false =>
      rw [hretires, if_neg Bool.false_ne_true] at hafter
      exact hr.filter_eq_nil h.reserved hevent (.inr (by simp [hafter]))
  | true =>
      rw [hretires, if_pos rfl] at hafter
      cases event with
      | frame dt now => exact (hr.frame dt now).once marker.id marker hfind hafter
      | message | move => cases hretires

/-! ## Runs -/

/-- What the renderer is told of in the course of further events. -/
def told (r : Replica) : List Event → List Notice
  | [] => []
  | event :: events => (r.perform event).1 ++ told (r.perform event).2 events

theorem told_append (r : Replica) (events : List Event) (event : Event) :
    told r (events ++ [event]) =
      told r events ++ ((events.foldl (fun r e => (r.perform e).2) r).perform event).1 := by
  induction events generalizing r with
  | nil => exact List.append_nil _
  | cons first events ih => rw [List.cons_append, told, ih, told, List.append_assoc]; rfl

/-- After further events a marker is there as it was placed or is gone for good, and the renderer
has heard of its layers once or not at all. -/
theorem Fleeting.after (h : Fleeting marker decay) {events : List Event}
    (hplaced : (run events).world.find? marker.id = some marker)
    (hnumbered : Numbered (run events).markers marker.id) {later : List Event}
    (hlater : ∀ e ∈ later, e.SparesMarkers) :
    Numbered (run (events ++ later)).markers marker.id ∧
      (run (events ++ later)).world.find? marker.id =
        (if later.any (·.retires decay) then none else some marker) ∧
      (told (run events) later).filter (·.id = marker.id) =
        if later.any (·.retires decay) then World.noticesFor (marker.id, marker) else [] := by
  induction later using List.reverseRecOn with
  | nil => simpa [told] using ⟨hnumbered, hplaced⟩
  | append_singleton later event ih =>
      obtain ⟨hnum, hfind, htold⟩ := ih fun e he => hlater e (List.mem_append_left _ he)
      have hevent : event.SparesMarkers := hlater event (by simp)
      have hr : (run (events ++ later)).Reports := .of_layers (layered_run _)
      have hrun : run (events ++ (later ++ [event])) = ((run (events ++ later)).perform event).2 := by
        rw [← List.append_assoc, run_append]
      have hlast : (told (run events) (later ++ [event])).filter (·.id = marker.id) =
          (told (run events) later).filter (·.id = marker.id) ++
            ((run (events ++ later)).perform event).1.filter (·.id = marker.id) := by
        rw [told_append, List.filter_append, run, run, List.foldl_append]
      have hafter := find?_perform_of_numbered hnum event
      rw [hrun, hlast, htold, List.any_append, List.any_cons, List.any_nil, Bool.or_false]
      refine ⟨numbered_perform hnum event, ?_⟩
      cases hgone : later.any (·.retires decay) with
      | true =>
          rw [hgone, if_pos rfl] at hfind
          rw [find?_ground_of_reserved h.reserved hfind hevent] at hafter
          rw [hr.filter_eq_nil h.reserved hevent (.inl hfind), Bool.true_or, if_pos rfl,
            List.append_nil]
          exact ⟨hafter, rfl⟩
      | false =>
          rw [hgone, if_neg Bool.false_ne_true] at hfind
          rw [h.find?_ground hfind hevent] at hafter
          rw [h.filter_perform hr hfind hnum hevent, Bool.false_or, if_neg Bool.false_ne_true,
            List.nil_append]
          exact ⟨hafter, rfl⟩

/-- What becomes of a marker that an event places after others. -/
structure Lifetime (events : List Event) (event : Event) (marker : Object) (decay : Float) :
    Prop where
  placed : (run (events ++ [event])).world =
    ((run events).placed event).foldl World.insert ((run events).ground event)
  decays : marker.decay = some decay
  /-- It stays as it was placed as long as no frame reaches its decay time. -/
  stays : ∀ later, (∀ e ∈ later, e.SparesMarkers) → later.any (·.retires decay) = false →
    (run (events ++ event :: later)).world.find? marker.id = some marker
  /-- The first frame that does takes it away and reports its layers. -/
  leaves : ∀ later dt now, (∀ e ∈ later, e.SparesMarkers) →
    later.any (·.retires decay) = false → decay ≤ now →
    let r := (run (events ++ event :: later)).update dt now
    r.2.2.world.find? marker.id = none ∧
      r.2.1.filter (·.id = marker.id) = marker.layers.map fun layer => ⟨marker.id, layer⟩
  /-- It does not come back. -/
  gone : ∀ later, (∀ e ∈ later, e.SparesMarkers) → later.any (·.retires decay) = true →
    (run (events ++ event :: later)).world.find? marker.id = none
  /-- In all that follows, its layers are reported once if it leaves, and not at all if it stays. -/
  told : ∀ later, (∀ e ∈ later, e.SparesMarkers) →
    (told (run (events ++ [event])) later).filter (·.id = marker.id) =
      if later.any (·.retires decay) then marker.layers.map fun layer => ⟨marker.id, layer⟩
      else []

theorem find?_perform_of_mem_placed (h : marker ∈ r.placed event) :
    (r.perform event).2.world.find? marker.id = some marker := by
  rw [world_perform]
  exact World.find?_foldl_insert_of_mem (nodup_placed r event) h _

/-- A marker that an event places lives from then on until the first frame at its decay time or
later, whatever came before and whatever comes in between. -/
theorem lifetime_run (events : List Event) (event : Event) {marker : Object}
    (hmarker : marker ∈ (run events).placed event) :
    ∃ decay, Lifetime events event marker decay := by
  obtain ⟨decay, h⟩ := exists_fleeting_of_mem_placed hmarker
  have hfind : (run (events ++ [event])).world.find? marker.id = some marker := by
    rw [run_append]
    exact find?_perform_of_mem_placed hmarker
  have hnumbered : Numbered (run (events ++ [event])).markers marker.id := by
    rw [run_append]
    exact numbered_of_mem_placed hmarker
  have hafter : ∀ later, (∀ e ∈ later, e.SparesMarkers) →
      Numbered (run (events ++ event :: later)).markers marker.id ∧
        (run (events ++ event :: later)).world.find? marker.id =
          (if later.any (·.retires decay) then none else some marker) ∧
        (Replica.told (run (events ++ [event])) later).filter (·.id = marker.id) =
          if later.any (·.retires decay) then World.noticesFor (marker.id, marker) else [] := by
    intro later hlater
    rw [List.append_cons]
    exact h.after hfind hnumbered hlater
  have hstays : ∀ later, (∀ e ∈ later, e.SparesMarkers) →
      later.any (·.retires decay) = false →
      (run (events ++ event :: later)).world.find? marker.id = some marker := by
    intro later hlater hquiet
    simpa [hquiet] using (hafter later hlater).2.1
  refine ⟨decay, ?_, h.decay, hstays, ?_, ?_, fun later hlater => (hafter later hlater).2.2⟩
  · rw [run_append, world_perform]
  · intro later dt now hlater hquiet hdecay r
    have hretires : Event.retires decay (.frame dt now) = true := decide_eq_true hdecay
    have hfound := hstays later hlater hquiet
    have hnum := (hafter later hlater).1
    have hspares : Event.SparesMarkers (.frame dt now) := trivial
    have hgone := find?_perform_of_numbered hnum (.frame dt now)
    have hr : (run (events ++ event :: later)).Reports := .of_layers (layered_run _)
    have htold := h.filter_perform hr hfound hnum hspares
    rw [h.find?_ground hfound hspares, hretires, if_pos rfl] at hgone
    rw [hretires, if_pos rfl] at htold
    exact ⟨hgone, htold⟩
  · intro later hlater hretired
    simpa [hretired] using (hafter later hlater).2.1

/-- The markers of a route that is told at six seconds outlive a snapshot of nothing at all, and are
gone two and a half seconds after the route was told. -/
theorem lifetime_firstSteps :
    let event := Event.message (.route "hero" [⟨64, 64⟩, ⟨80, 64⟩, ⟨64, 64⟩]) 6
    let waiting : List Event := [.message (.state .empty none) 7, .frame 1 8.25]
    (∃ marker decay, marker.id = "gfx-path-3" ∧ marker ∈ (run firstSteps).placed event ∧
        Lifetime firstSteps event marker decay) ∧
      (run (firstSteps ++ event :: waiting)).world.objects.keys =
        ["gfx-path-2", "gfx-path-3", "gfx-path-4"] ∧
      (run (firstSteps ++ event :: waiting ++ [.frame 1 8.5])).world.objects.keys = [] := by
  intro event waiting
  have hids : ((run firstSteps).placed event).map (·.id) =
      ["gfx-path-2", "gfx-path-3", "gfx-path-4"] := by decide +kernel
  have hmem : "gfx-path-3" ∈ ((run firstSteps).placed event).map (·.id) := by
    rw [hids]
    decide
  obtain ⟨marker, hmarker, hid⟩ := List.mem_map.mp hmem
  obtain ⟨decay, hlifetime⟩ := lifetime_run firstSteps event hmarker
  exact ⟨⟨marker, decay, hid, hmarker, hlifetime⟩, by decide +kernel, by decide +kernel⟩

end TileWorld.Replica
