import TileWorld.Proofs.Session.Course

/-! The requests of a run before a cut are sent to the server; all others are answered by the
simulation of the offline world. -/

namespace TileWorld

def Simulation.Call.request? : Simulation.Call → Option ClientMessage
  | .tick _ _ => none
  | .handle m => some m

namespace Session

variable {s : Session} {t : Transport} {sim : Simulation} {m : ClientMessage}

/-! ## One request -/

/-- The request goes out as its frame, and no simulation sees it. -/
structure Sends (s : Session) (m : ClientMessage) : Prop where
  simulation : s.simulation = none
  exists_transport : ∃ t, s.transport = some t ∧
    s.take (.request m) = (⟨[], [m.encode]⟩,
      { s with transport := some { t with outbound := t.outbound ++ [m.encode] } })

/-- The offline world that a session has, or else would begin with. -/
def offline (s : Session) : Simulation := s.simulation.getD s.standby

/-- The request is answered by the simulation, and no frame is sent. If there was no simulation, it
is announced first. -/
structure Serves (s : Session) (m : ClientMessage) : Prop where
  output : (s.take (.request m)).1 =
    .ofMessages ((if s.simulation.isNone then s.announcement else []) ++ (s.offline.handle m).1)
  simulation : (s.take (.request m)).2.simulation = some (s.offline.handle m).2
  transport : (s.take (.request m)).2.transport = none

theorem Online.sends (h : Online s t) (hf : s.fault? (.request m) = none) : s.Sends m := by
  have hwritable : t.writable = true := by
    by_cases hw : t.writable = true
    · exact hw
    · simp [fault?, h.transport, hw] at hf
  exact ⟨h.simulation, t, h.transport, h.take_request hwritable m⟩

theorem Online.serves {f : Fault} (h : Online s t) (hf : s.fault? (.request m) = some f) :
    s.Serves m := by
  have hwritable : t.writable = false := by
    by_cases hw : t.writable = true
    · simp [fault?, h.transport, hw] at hf
    · simpa using hw
  have hreplays : s.replays (.request m) = [.handle m] := by
    simp [replays, handlings, h.transport, hwritable]
  have hoffline : s.offline = s.standby := by rw [offline, h.simulation]; rfl
  have hfall := (h.falls hf).offline
  have houtput := h.output_of_fault hf
  rw [hreplays] at hfall houtput
  refine ⟨?_, ?_, hfall.transport⟩
  · rw [h.simulation, hoffline]
    exact houtput.trans (congrArg Output.ofMessages (congrArg (_ ++ ·) (List.append_nil _)))
  · rw [hoffline]
    exact hfall.simulation

theorem Offline.serves (h : Offline s sim) (m : ClientMessage) : s.Serves m := by
  have hoffline : s.offline = sim := by rw [offline, h.simulation]; rfl
  refine ⟨?_, ?_, ?_⟩
  · rw [h.take_request, h.simulation, hoffline]
    rfl
  · rw [h.take_request, hoffline]
  · rw [h.take_request]
    exact h.transport

/-! ## All requests of a run -/

theorem requests_append (steps further : List Step) :
    requests (steps ++ further) = requests steps ++ requests further :=
  List.filterMap_append

theorem filterMap_request?_calls (steps : List Step) :
    (calls steps).filterMap Simulation.Call.request? = requests steps := by
  rw [calls, requests, List.filterMap_filterMap]
  congr 1
  funext step
  cases step <;> rfl

theorem replays_of_refused {step : Step} (hf : s.fault? step = some .refused) :
    ∃ m, step = .request m ∧ s.replays step = [.handle m] := by
  cases step with
  | request m =>
      obtain ⟨t, ht, -⟩ := Option.map_eq_some_iff.mp hf
      obtain ⟨ht, hwritable⟩ := Option.filter_eq_some_iff.mp ht
      exact ⟨m, rfl, by simp_all [replays, handlings]⟩
  | event =>
      obtain ⟨e, -, he⟩ := Option.map_eq_some_iff.mp hf
      cases he
  | _ => cases hf

theorem filterMap_request?_replays {f : Fault} {step : Step} (hf : s.fault? step = some f) :
    (s.replays step).filterMap Simulation.Call.request? =
      f.event?.toList.flatMap TransportEvent.returned ++ requests [step] := by
  cases f with
  | refused =>
      obtain ⟨m, rfl, hreplays⟩ := replays_of_refused hf
      rw [hreplays]
      rfl
  | reported e =>
      cases step with
      | event =>
          obtain ⟨x, hx, hxe⟩ := Option.map_eq_some_iff.mp hf
          cases hxe
          have hnext := (Option.filter_eq_some_iff.mp hx).1
          have hreplays : s.replays .event = e.returned.map .handle := by
            simp [replays, handlings, hnext, Function.comp_def]
          rw [hreplays, List.filterMap_map]
          simp [Function.comp_def, Simulation.Call.request?, Fault.event?, requests, Step.request?]
      | request m =>
          obtain ⟨t, -, ht⟩ := Option.map_eq_some_iff.mp hf
          cases ht
      | _ => cases hf

section

variable {settings : SessionSettings} {spare : Spare} {connection : Option Transport}
  {steps online : List Step} {asked : Option (List Simulation.Call)}

theorem Course.exists_append (h : Course s steps online asked) :
    ∃ rest, steps = online ++ rest := by
  cases h with
  | undisturbed => exact ⟨[], (List.append_nil _).symm⟩
  | broken => exact ⟨_, rfl⟩
  | unconnected => exact ⟨_, rfl⟩

theorem Course.take_requests (h : Course s steps online asked) :
    (requests steps).take (requests online).length = requests online := by
  obtain ⟨rest, rfl⟩ := h.exists_append
  rw [requests_append, List.take_left]

/-- The simulation is asked what comes back, and then every request after the cut. -/
theorem Course.filterMap_request?_asked {asked : List Simulation.Call}
    (h : Course (opened settings spare connection) steps online (some asked)) :
    asked.filterMap Simulation.Call.request? =
      (((opened settings spare connection).firstFault? steps).bind
        Fault.event?).toList.flatMap TransportEvent.returned ++
        (requests steps).drop (requests online).length := by
  cases h with
  | broken mode sound fault =>
      rw [firstFault?_append, sound, firstFault?, fault, List.filterMap_append,
        filterMap_request?_replays fault, filterMap_request?_calls, requests_append,
        List.drop_left, List.append_assoc, ← requests_append]
      rfl
  | unconnected mode =>
      obtain rfl := eq_none_of_mode mode
      rw [(offline_opened settings spare).firstFault?_eq_none, filterMap_request?_calls]
      rfl

/-- A request that is refused is the first one after the cut, and the first call. -/
theorem Course.exists_refused
    (h : Course (opened settings spare connection) steps online asked)
    (hf : (opened settings spare connection).firstFault? steps = some .refused) :
    ∃ m further calls, (requests steps).drop (requests online).length = m :: further ∧
      asked = some (.handle m :: calls) := by
  cases h with
  | undisturbed mode sound =>
      rw [sound] at hf
      cases hf
  | broken mode sound fault =>
      rw [firstFault?_append, sound, firstFault?, fault, Option.none_or, Option.some_inj] at hf
      subst hf
      obtain ⟨m, rfl, hreplays⟩ := replays_of_refused fault
      rw [requests_append, List.drop_left, hreplays]
      exact ⟨m, _, _, rfl, rfl⟩
  | unconnected mode =>
      obtain rfl := eq_none_of_mode mode
      rw [(offline_opened settings spare).firstFault?_eq_none] at hf
      cases hf

/-! ## Each request of a run -/

/-- Without a fault up to a request and in taking it, the request goes out. -/
theorem Online.sends_of_firstFault {before later : List Step} (h : Online s t)
    (hf : s.firstFault? (before ++ .request m :: later) = none) : (s.after before).Sends m := by
  rw [firstFault?_append, Option.or_eq_none_iff, firstFault?] at hf
  obtain ⟨hbefore, hlater⟩ := hf
  obtain ⟨u, hu⟩ := h.exists_forwards hbefore
  refine hu.online.sends ?_
  cases hstep : (s.after before).fault? (.request m) with
  | none => rfl
  | some f => simp [hstep] at hlater

/-- Each request goes one way when it is taken: to the server before the cut, else to the
simulation. -/
theorem Course.sends_or_serves
    (h : Course (opened settings spare connection) steps online asked) {before later : List Step}
    (hsteps : steps = before ++ .request m :: later) :
    if (requests before).length < (requests online).length
    then ((opened settings spare connection).after before).Sends m
    else ((opened settings spare connection).after before).Serves m := by
  have hlength : ∀ more, (requests before).length <
      (requests (before ++ .request m :: more)).length := by
    intro more
    rw [requests_append, List.length_append]
    exact Nat.lt_add_of_pos_right (Nat.succ_pos _)
  cases h with
  | undisturbed mode sound =>
      obtain ⟨t, rfl⟩ := exists_transport_of_mode mode
      subst hsteps
      rw [if_pos (hlength later)]
      exact (online_opened settings spare t).sends_of_firstFault sound
  | @broken online _ step _ mode sound fault =>
      obtain ⟨t, rfl⟩ := exists_transport_of_mode mode
      have hs := online_opened settings spare t
      rcases List.append_eq_append_iff.mp hsteps with ⟨more, rfl, hmore⟩ | ⟨more, rfl, hmore⟩
      · -- the fault is taken in this step or before it
        rw [if_neg (by rw [requests_append, List.length_append]; omega)]
        cases more with
        | nil =>
            cases hmore
            obtain ⟨u, hu⟩ := hs.exists_forwards sound
            rw [List.append_nil]
            exact hu.online.serves fault
        | cons first more =>
            cases hmore
            have hfirst := firstFault?_append (opened settings spare (some t)) online
              (step :: more)
            rw [sound, firstFault?, fault] at hfirst
            obtain ⟨sim, hsim⟩ := hs.after_of_firstFault hfirst
            exact hsim.serves m
      · cases more with
        | nil =>
            cases hmore
            obtain ⟨u, hu⟩ := hs.exists_forwards sound
            rw [List.append_nil, if_neg (Nat.lt_irrefl _)]
            rw [List.append_nil] at fault hu
            exact hu.online.serves fault
        | cons step more =>
            cases hmore
            rw [if_pos (hlength more)]
            exact hs.sends_of_firstFault sound
  | unconnected mode =>
      obtain rfl := eq_none_of_mode mode
      obtain ⟨sim, hsim⟩ := (offline_opened settings spare).after before
      exact (if_neg (Nat.not_lt_zero _)).mpr (hsim.serves m)

end

/-- The requests of a run are cut in two. Those before the cut make up the frames that are sent; the
simulation handles what the fault hands back and then all others, the refused one first. -/
theorem exists_cut (settings : SessionSettings) (spare : Spare) (connection : Option Transport)
    (steps : List Step) :
    let s := opened settings spare connection
    ∃ online asked, Course s steps online asked ∧
      let k := (requests online).length
      let world := offlineWorld settings spare (lastChannel settings.channel (s.heard online))
      (output settings spare connection steps).frames =
        ((requests steps).take k).map ClientMessage.encode ∧
      (s.after steps).simulation = asked.map world.2.run ∧
      (match asked with
      | none => k = (requests steps).length
      | some calls => calls.filterMap Simulation.Call.request? =
          ((s.firstFault? steps).bind Fault.event?).toList.flatMap TransportEvent.returned ++
            (requests steps).drop k) ∧
      (s.firstFault? steps = some .refused → ∃ m further calls,
        (requests steps).drop k = m :: further ∧ asked = some (.handle m :: calls)) ∧
      ∀ before m later, steps = before ++ .request m :: later →
        if (requests before).length < k then (s.after before).Sends m
        else (s.after before).Serves m := by
  intro s
  obtain ⟨online, asked, hcourse⟩ := exists_course settings spare connection steps
  have houtcome := hcourse.outcome
  refine ⟨online, asked, hcourse, ?_, houtcome.simulation, ?_, hcourse.exists_refused, ?_⟩
  · rw [hcourse.take_requests]
    exact houtcome.frames
  · cases asked with
    | none =>
        cases hcourse
        rfl
    | some calls => exact hcourse.filterMap_request?_asked
  · intro before m later hsteps
    exact hcourse.sends_or_serves hsteps

end Session

end TileWorld
