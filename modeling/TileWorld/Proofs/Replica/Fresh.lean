import TileWorld.Proofs.Replica.Run
import TileWorld.Proofs.World.Departure

/-! Every marker is placed under an id that is new to the whole run, as long as no snapshot brings
in an id kept for markers. -/

namespace TileWorld.Replica

variable {r : Replica}

/-- Every id kept for markers is that of one of the markers made so far. -/
def Bounded (r : Replica) : Prop :=
  ∀ id o, r.world.find? id = some o → Reserved id → Numbered r.markers id

/-- No snapshot brings in an id that is kept for markers; other messages bring in no id. -/
def Event.Unreserved : Event → Prop
  | .message (.state objects _) _ => ∀ id, objects.contains id = true → ¬ Reserved id
  | _ => True

/-! ## One event -/

theorem exists_word (r : Replica) (event : Event) :
    ∃ word, '-' ∉ word.toList ∧
      ∀ i x, (r.placed event)[i]? = some x → x.id = markerId word (r.markers + i + 1) := by
  cases event with
  | message m now =>
      cases m with
      | route mover path =>
          refine ⟨"path", by simp, fun i x hx => ?_⟩
          rw [placed] at hx
          split at hx
          · exact id_of_getElem?_pathMarkers hx
          · cases hx
      | state | assigned | message | chat | removed => exact ⟨"path", by simp, by simp [placed]⟩
  | move target now =>
      refine ⟨"click", by simp, fun i x hx => ?_⟩
      obtain ⟨rfl, rfl⟩ : i = 0 ∧ clickMarker r.markers (r.world.dims.clamp target) now = x := by
        simpa [placed, List.getElem?_singleton] using hx
      rfl
  | frame dt now => exact ⟨"path", by simp, by simp [placed]⟩

theorem numbered_of_mem_placed {event : Event} {marker : Object} (h : marker ∈ r.placed event) :
    Numbered (r.perform event).2.markers marker.id := by
  obtain ⟨word, hword, hids⟩ := r.exists_word event
  obtain ⟨i, hi, rfl⟩ := List.getElem_of_mem h
  rw [markers_perform]
  exact ⟨word, r.markers + i + 1, hword, by omega, hids i _ (List.getElem?_eq_getElem hi)⟩

/-- Each marker of an event has a number that no marker before the event had. -/
theorem new_of_mem_placed {event : Event} {marker : Object} (h : marker ∈ r.placed event) :
    Reserved marker.id ∧ ¬ Numbered r.markers marker.id := by
  obtain ⟨word, -, hids⟩ := r.exists_word event
  obtain ⟨i, hi, rfl⟩ := List.getElem_of_mem h
  rw [hids i _ (List.getElem?_eq_getElem hi)]
  exact ⟨reserved_markerId .., not_numbered_markerId (by omega) word⟩

theorem nodup_placed (r : Replica) (event : Event) : ((r.placed event).map (·.id)).Nodup := by
  obtain ⟨word, hword, hids⟩ := r.exists_word event
  rw [List.Nodup, List.pairwise_map, List.pairwise_iff_getElem]
  intro i j hi hj hlt heq
  rw [hids i _ (List.getElem?_eq_getElem hi), hids j _ (List.getElem?_eq_getElem hj)] at heq
  have := (markerId_inj hword heq).2
  omega

/-- The ids that an event leaves, its markers apart, were there or come from a snapshot. -/
theorem find?_ground {event : Event} {id : String} {o : Object}
    (h : (r.ground event).find? id = some o) :
    (∃ x, r.world.find? id = some x) ∨
      ∃ objects channel now, event = .message (.state objects channel) now ∧
        objects.contains id = true := by
  cases event with
  | message m now =>
      cases m with
      | state objects channel =>
          cases hentry : objects.contains id with
          | true => exact .inr ⟨objects, channel, now, rfl, hentry⟩
          | false =>
              have hnone : objects.find? id = none :=
                Option.not_isSome_iff_eq_none.mp (Bool.eq_false_iff.mp hentry)
              rw [ground, World.find?_reconcile, World.find?_merged, hnone] at h
              exact .inl ⟨o, (Option.filter_eq_some_iff.mp h).1⟩
      | route mover path =>
          rw [ground, World.find?_modify_eq_map] at h
          obtain ⟨x, hx, -⟩ := Option.map_eq_some_iff.mp h
          exact .inl ⟨x, hx⟩
      | assigned | message | chat | removed => exact .inl ⟨o, h⟩
  | move target now => exact .inl ⟨o, h⟩
  | frame dt now =>
      rw [ground, World.find?_sweep, World.find?_integrate] at h
      obtain ⟨x, hx, -⟩ := Option.map_eq_some_iff.mp (Option.filter_eq_some_iff.mp h).1
      exact .inl ⟨x, hx⟩

theorem Bounded.perform (hr : r.Bounded) {event : Event} (hevent : event.Unreserved) :
    (r.perform event).2.Bounded := by
  intro id o ho hreserved
  rw [world_perform, World.find?_foldl_insert] at ho
  rcases Option.or_eq_some_iff.mp ho with hplaced | ⟨-, hground⟩
  · obtain rfl : o.id = id := by simpa using List.find?_some hplaced
    exact numbered_of_mem_placed (List.mem_reverse.mp (List.mem_of_find?_eq_some hplaced))
  · rcases find?_ground hground with ⟨x, hx⟩ | ⟨objects, channel, now, rfl, hentry⟩
    · exact (hr id x hx hreserved).mono (by rw [markers_perform]; exact Nat.le_add_right ..)
    · exact absurd hreserved (hevent id hentry)

/-! ## Runs -/

/-- The markers of a run, in the order in which they were placed. -/
def placedBy (r : Replica) : List Event → List Object
  | [] => []
  | event :: events => r.placed event ++ placedBy (r.perform event).2 events

theorem placedBy_append (r : Replica) (events : List Event) (event : Event) :
    placedBy r (events ++ [event]) =
      placedBy r events ++ (events.foldl (fun r e => (r.perform e).2) r).placed event := by
  induction events generalizing r with
  | nil => exact List.append_nil _
  | cons first events ih => rw [List.cons_append, placedBy, ih, placedBy, List.append_assoc]; rfl

theorem markers_run_le {before events : List Event} (h : before <+: events) :
    (run before).markers ≤ (run events).markers := by
  obtain ⟨rest, rfl⟩ := h
  induction rest using List.reverseRecOn with
  | nil => rw [List.append_nil]
  | append_singleton rest event ih =>
      rw [← List.append_assoc, run_append, markers_perform]
      exact ih.trans (Nat.le_add_right ..)

/-- The markers of a run are numbered, and no two of them alike. -/
theorem numbered_of_mem_placedBy {events : List Event} {marker : Object}
    (h : marker ∈ placedBy empty events) : Numbered (run events).markers marker.id := by
  induction events using List.reverseRecOn with
  | nil => cases h
  | append_singleton events event ih =>
      rw [placedBy_append] at h
      rcases List.mem_append.mp h with hearlier | hplaced
      · exact (ih hearlier).mono (markers_run_le (List.prefix_append ..))
      · rw [run_append]
        exact numbered_of_mem_placed hplaced

theorem nodup_placedBy (events : List Event) : ((placedBy empty events).map (·.id)).Nodup := by
  induction events using List.reverseRecOn with
  | nil => exact List.nodup_nil
  | append_singleton events event ih =>
      rw [placedBy_append, List.map_append]
      refine ih.append (nodup_placed ..) ?_
      rintro id hearlier hplaced
      obtain ⟨x, hx, rfl⟩ := List.mem_map.mp hearlier
      obtain ⟨y, hy, hid⟩ := List.mem_map.mp hplaced
      exact (new_of_mem_placed hy).2 (hid ▸ numbered_of_mem_placedBy hx)

theorem bounded_run {events : List Event} (h : ∀ event ∈ events, event.Unreserved) :
    (run events).Bounded :=
  List.foldlRecOn (motive := Bounded) _ _ nofun fun _ hr event he => hr.perform (h event he)

/-- What makes the markers of an event new. They are placed one after the other, each into the world
that the event and the markers before it have made. -/
structure Fresh (events : List Event) (event : Event) : Prop where
  world : ((run events).perform event).2.world =
    ((run events).placed event).foldl World.insert ((run events).ground event)
  /-- No object has the id when the marker is placed. -/
  vacant : ∀ earlier marker later, (run events).placed event = earlier ++ marker :: later →
    (earlier.foldl World.insert ((run events).ground event)).find? marker.id = none
  /-- No object had the id at any time before. -/
  unused : ∀ marker ∈ (run events).placed event, ∀ before, before <+: events →
    (run before).world.find? marker.id = none
  /-- No other marker ever has the id. -/
  unshared : ((placedBy empty events ++ (run events).placed event).map (·.id)).Nodup
  /-- The marker comes to the other objects and replaces none. -/
  added : ∀ earlier marker later, (run events).placed event = earlier ++ marker :: later →
    let w := earlier.foldl World.insert ((run events).ground event)
    (w.insert marker).find? marker.id = some marker ∧
      (w.insert marker).objects.erase marker.id = w.objects

/-- Nothing has the id of a marker before it is placed, as long as ids that are kept for markers
come from nowhere else. -/
theorem fresh_run (events : List Event) (event : Event)
    (h : ∀ earlier ∈ events, earlier.Unreserved) : Fresh events event := by
  have hunused : ∀ marker ∈ (run events).placed event, ∀ before, before <+: events →
      (run before).world.find? marker.id = none := by
    intro marker hmarker before hbefore
    obtain ⟨hreserved, hnew⟩ := new_of_mem_placed hmarker
    -- An id that is kept for markers and in use is that of an earlier marker, with a lower number.
    by_contra hsome
    obtain ⟨o, ho⟩ := Option.ne_none_iff_exists'.mp hsome
    have hbounded := bounded_run fun e he => h e (hbefore.subset he)
    exact hnew ((hbounded _ o ho hreserved).mono (markers_run_le hbefore))
  have hvacant : ∀ earlier marker later, (run events).placed event = earlier ++ marker :: later →
      (earlier.foldl World.insert ((run events).ground event)).find? marker.id = none := by
    intro earlier marker later hplaced
    have hmarker : marker ∈ (run events).placed event := by simp [hplaced]
    have hnodup := nodup_placed (run events) event
    rw [hplaced, List.map_append, List.map_cons] at hnodup
    rw [World.find?_foldl_insert, Option.or_eq_none_iff]
    refine ⟨List.find?_eq_none.mpr fun x hx => ?_, ?_⟩
    · have hne := (List.nodup_append.mp hnodup).2.2 x.id
        (List.mem_map_of_mem (List.mem_reverse.mp hx)) marker.id List.mem_cons_self
      simpa using hne
    · by_contra hsome
      obtain ⟨o, ho⟩ := Option.ne_none_iff_exists'.mp hsome
      rcases find?_ground ho with ⟨x, hx⟩ | ⟨objects, channel, now, rfl, -⟩
      · have hnone := hunused marker hmarker events (List.prefix_refl _)
        rw [hnone] at hx
        cases hx
      · cases hmarker
  refine ⟨world_perform .., hvacant, hunused, ?_, ?_⟩
  · have hnodup := nodup_placedBy (events ++ [event])
    rw [placedBy_append] at hnodup
    exact hnodup
  · intro earlier marker later hplaced w
    have hnone : w.find? marker.id = none := hvacant earlier marker later hplaced
    exact ⟨by rw [World.find?_insert, if_pos rfl], World.erase_objects_insert hnone⟩

/-- What a player hears on joining; the id of one object begins almost as those of markers do. -/
def arrival : Table Json :=
  .ofList [("gfx_path-2", (Object.player "gfx_path-2" ⟨0, 0⟩).toJson),
    ("hero", (Object.player "hero" ⟨0, 0⟩).toJson)]

def firstSteps : List Event :=
  [.message (.state arrival (some "channel-alpha")) 0, .message (.assigned "hero") 0,
    .move ⟨300, 200⟩ 5]

/-- A route that crosses one waypoint twice has two markers there. -/
theorem fresh_firstSteps :
    let event := Event.message (.route "hero" [⟨64, 64⟩, ⟨80, 64⟩, ⟨64, 64⟩]) 6
    (∀ earlier ∈ firstSteps, earlier.Unreserved) ∧ Fresh firstSteps event ∧
      ((run firstSteps).placed event).map (·.id) = ["gfx-path-2", "gfx-path-3", "gfx-path-4"] := by
  intro event
  have harrival : ∀ e ∈ arrival.entries, ¬ Reserved e.1 := by decide +kernel
  have hunreserved : ∀ earlier ∈ firstSteps, earlier.Unreserved := by
    simp only [firstSteps, List.forall_mem_cons, Event.Unreserved]
    refine ⟨fun id hid => ?_, trivial, trivial, nofun⟩
    obtain ⟨entry, hentry⟩ := Option.isSome_iff_exists.mp hid
    exact harrival _ (Table.mem_of_find?_eq_some hentry)
  exact ⟨hunreserved, fresh_run firstSteps event hunreserved, by decide +kernel⟩

end TileWorld.Replica
