import TileWorld.Proofs.Session.Run

/-! Requests that a transport hands back. They reach the offline world exactly if the event that
brings them is the first fault. -/

namespace TileWorld

/-- The requests that an event hands back. Frames that are no requests do not count. -/
def TransportEvent.returned : TransportEvent → List ClientMessage
  | .unsent frames _ => frames.filterMap fun frame => (ClientMessage.decode frame).toOption
  | _ => []

namespace Session

variable {s : Session} {t : Transport} {sim : Simulation}

/-- A fault of the transport: a frame that it refuses, or an event that reports one. -/
inductive Fault where
  | refused
  | reported (event : TransportEvent)
  deriving DecidableEq

structure Handling where
  request : ClientMessage
  origin : Option TransportEvent

/-- The event that a session takes next. -/
def next? (s : Session) : Option TransportEvent :=
  (s.transport.bind Transport.receive?).map (·.1)

/-- The fault that a session takes in a step. -/
def fault? (s : Session) : Step → Option Fault
  | .request _ => (s.transport.filter (!·.writable)).map fun _ => .refused
  | .event => (s.next?.filter fun e => e matches .closed | .failed _ | .unsent _ _).map .reported
  | _ => none

/-- What the simulation handles in a step, in order. -/
def handlings (s : Session) : Step → List Handling
  | .request m => if s.transport.any (·.writable) then [] else [⟨m, none⟩]
  | .event => s.next?.toList.flatMap fun e => e.returned.map (⟨·, some e⟩)
  | _ => []

def Step.elapse (sim : Simulation) : Step → Simulation
  | .tick now elapsed => (sim.tick now (if elapsed < maxTickStep then elapsed else maxTickStep)).2
  | _ => sim

/-! ## One step -/

theorem Offline.next?_eq_none (h : Offline s sim) : s.next? = none := by
  rw [next?, h.transport]
  rfl

theorem Offline.onTransport (h : Offline s sim) (change : Transport → Transport) :
    Offline (s.onTransport change) sim := by
  refine ⟨h.mode, ?_, h.simulation⟩
  rw [Session.onTransport, h.transport]
  rfl

theorem Offline.take (h : Offline s sim) (step : Step) :
    Offline (s.take step.input).2
      ((step.elapse sim).handleAll ((s.handlings step).map (·.request))) := by
  cases step with
  | request m =>
      have hstep : s.take (.request m) = s.answerOffline m := by
        simp [Session.take, Session.request, h.transport]
      have hhandled : s.handlings (.request m) = [⟨m, none⟩] := by
        simp [handlings, h.transport]
      rw [Step.input, hstep, hhandled]
      exact h.answerOffline m
  | event =>
      have hstep : s.take .event = (.none, s) := by
        simp [Session.take, Session.receive?, h.transport]
      rw [Step.input, hstep, handlings, h.next?_eq_none]
      exact h
  | tick now elapsed =>
      have hstep : (s.take (.tick now elapsed)).2 =
          { s with simulation := some (Step.elapse sim (.tick now elapsed)) } := by
        simp [Session.take, Session.tick, h.mode, h.simulation, Step.elapse]
      rw [Step.input, hstep]
      exact ⟨h.mode, h.transport, rfl⟩
  | arrival e => exact h.onTransport _
  | closedOutbound => exact h.onTransport _
  | closedInbound => exact h.onTransport _

theorem Online.onTransport (h : Online s t) (change : Transport → Transport) :
    Online (s.onTransport change) (change t) := by
  refine ⟨h.mode, ?_, h.simulation⟩
  rw [Session.onTransport, h.transport]
  rfl

theorem Online.mode_ne_offline (h : Online s t) : s.mode ≠ .offline := by
  rw [h.mode]
  decide

theorem Online.take_event {e : TransportEvent} {u : Transport} (h : Online s t)
    (hreceive : t.receive? = some (e, u)) :
    s.take .event = { s with transport := some u }.react e ∧ s.next? = some e := by
  constructor
  · simp [Session.take, Session.receive?, h.transport, hreceive]
  · simp [next?, h.transport, hreceive]

theorem Online.remember (h : Online s t) (m : ServerMessage) : Online (s.remember m) t := by
  cases m with
  | state objects channel => cases channel <;> exact ⟨h.mode, h.transport, h.simulation⟩
  | _ => exact h

theorem Online.react_message (h : Online s t) (text : String) :
    Online (s.react (.message text)).2 t := by
  rw [react]
  split
  · exact h.remember _
  · exact h

/-- At an event that reports a fault a session begins its offline world, and handles there what the
event hands back. -/
theorem Online.react_of_fault {e : TransportEvent} (h : Online s t)
    (he : ∀ text, e ≠ .message text) :
    Offline (s.react e).2 (s.standby.handleAll e.returned) := by
  have hoff : Offline s.goOffline.2 s.standby := offline_goOffline h.mode_ne_offline
  cases e with
  | message text => exact absurd rfl (he text)
  | closed => exact hoff
  | failed reason => exact hoff
  | unsent frames reason => exact hoff.answerAllOffline _

/-- A session that takes a fault begins its offline world and handles there what the step calls
for. -/
theorem Online.take_of_fault {f : Fault} {step : Step} (h : Online s t)
    (hf : s.fault? step = some f) :
    Offline (s.take step.input).2 (s.standby.handleAll ((s.handlings step).map (·.request))) := by
  cases step with
  | request m =>
      have hw : t.writable = false := by
        by_cases hw : t.writable = true
        · simp [fault?, h.transport, hw] at hf
        · simpa using hw
      have hstep : (s.take (.request m)).2 = (s.goOffline.2.answerOffline m).2 := by
        simp [Session.take, Session.request, h.transport, Transport.send, hw]
      have hhandled : s.handlings (.request m) = [⟨m, none⟩] := by
        simp [handlings, h.transport, hw]
      rw [Step.input, hstep, hhandled]
      exact (offline_goOffline h.mode_ne_offline).answerOffline m
  | event =>
      obtain ⟨e, he, -⟩ := Option.map_eq_some_iff.mp hf
      obtain ⟨hnext, hfault⟩ := Option.filter_eq_some_iff.mp he
      obtain ⟨⟨e, u⟩, hreceive, rfl⟩ := Option.map_eq_some_iff.mp hnext
      rw [h.transport, Option.bind_some] at hreceive
      have hu : Online { s with transport := some u } u := ⟨h.mode, rfl, h.simulation⟩
      have hhandled : (s.handlings .event).map (·.request) = e.returned := by
        simp [handlings, hnext, Function.comp_def]
      rw [Step.input, (h.take_event hreceive).1, hhandled]
      apply hu.react_of_fault
      rintro text rfl
      cases hfault
  | tick now elapsed => cases hf
  | arrival e => cases hf
  | closedOutbound => cases hf
  | closedInbound => cases hf

/-- A session that takes no fault stays online, and its simulation has nothing to handle. -/
theorem Online.take_of_no_fault {step : Step} (h : Online s t) (hf : s.fault? step = none) :
    s.handlings step = [] ∧ ∃ u, Online (s.take step.input).2 u := by
  cases step with
  | request m =>
      have hw : t.writable = true := by
        by_cases hw : t.writable = true
        · exact hw
        · simp [fault?, h.transport, hw] at hf
      have hstep : (s.take (.request m)).2 =
          { s with transport := some { t with outbound := t.outbound ++ [m.encode] } } := by
        simp [Session.take, Session.request, h.transport, Transport.send, hw]
      refine ⟨by simp [handlings, h.transport, hw],
        { t with outbound := t.outbound ++ [m.encode] }, ?_⟩
      rw [Step.input, hstep]
      exact ⟨h.mode, rfl, h.simulation⟩
  | event =>
      cases hreceive : t.receive? with
      | none =>
          have hstep : s.take .event = (.none, s) := by
            simp [Session.take, Session.receive?, h.transport, hreceive]
          refine ⟨by simp [handlings, next?, h.transport, hreceive], t, ?_⟩
          rw [Step.input, hstep]
          exact h
      | some received =>
          obtain ⟨e, u⟩ := received
          obtain ⟨hstep, hnext⟩ := h.take_event hreceive
          have hu : Online { s with transport := some u } u := ⟨h.mode, rfl, h.simulation⟩
          cases e with
          | message text =>
              refine ⟨by simp [handlings, hnext, TransportEvent.returned], u, ?_⟩
              rw [Step.input, hstep]
              exact hu.react_message text
          | closed => simp [fault?, hnext] at hf
          | failed reason => simp [fault?, hnext] at hf
          | unsent frames reason => simp [fault?, hnext] at hf
  | tick now elapsed =>
      have hstep : s.take (.tick now elapsed) = (.none, s) := by
        simp [Session.take, Session.tick, h.mode]
      refine ⟨rfl, t, ?_⟩
      rw [Step.input, hstep]
      exact h
  | arrival e => exact ⟨rfl, _, h.onTransport _⟩
  | closedOutbound => exact ⟨rfl, _, h.onTransport _⟩
  | closedInbound => exact ⟨rfl, _, h.onTransport _⟩

theorem Offline.fault?_eq_none (h : Offline s sim) (step : Step) : s.fault? step = none := by
  cases step with
  | request m => simp [fault?, h.transport]
  | event => simp [fault?, h.next?_eq_none]
  | _ => rfl

theorem Offline.origin_eq_none (h : Offline s sim) (step : Step) :
    ∀ x ∈ s.handlings step, x.origin = none := by
  intro x hx
  cases step with
  | request m =>
      have hhandled : s.handlings (.request m) = [⟨m, none⟩] := by
        simp [handlings, h.transport]
      rw [hhandled, List.mem_singleton] at hx
      rw [hx]
  | event => simp [handlings, h.next?_eq_none] at hx
  | _ => cases hx

/-- A step that takes a fault handles what the fault hands back, and nothing else that came back. -/
theorem filter_handlings_of_fault {f : Fault} {step : Step} (hf : s.fault? step = some f)
    (e : TransportEvent) :
    (s.handlings step).filter (·.origin = some e) =
      if f = .reported e then e.returned.map (⟨·, some e⟩) else [] := by
  cases step with
  | request m =>
      obtain ⟨t, ht, rfl⟩ := Option.map_eq_some_iff.mp hf
      obtain ⟨ht, hw⟩ := Option.filter_eq_some_iff.mp ht
      have hhandled : s.handlings (.request m) = [⟨m, none⟩] := by
        simpa [handlings, ht] using hw
      simp [hhandled]
  | event =>
      obtain ⟨x, hx, rfl⟩ := Option.map_eq_some_iff.mp hf
      have hnext := (Option.filter_eq_some_iff.mp hx).1
      have hhandled : s.handlings .event = x.returned.map (⟨·, some x⟩) := by
        simp [handlings, hnext]
      rw [hhandled]
      by_cases hxe : x = e
      · subst hxe
        simp
      · simp [hxe]
  | tick now elapsed => cases hf
  | arrival x => cases hf
  | closedOutbound => cases hf
  | closedInbound => cases hf

/-! ## Whole runs -/

/-- What the simulation handles in a run. -/
def log (s : Session) : List Step → List Handling
  | [] => []
  | step :: rest => s.handlings step ++ log (s.take step.input).2 rest

def firstFault? (s : Session) : List Step → Option Fault
  | [] => none
  | step :: rest =>
    match s.fault? step with
    | some f => some f
    | none => firstFault? (s.take step.input).2 rest

/-- The events that arrive in a run while the session holds a transport that takes them. -/
def arrivals (s : Session) : List Step → List TransportEvent
  | [] => []
  | step :: rest =>
    let here := match step with
      | .arrival e => if s.transport.any (·.readable) then [e] else []
      | _ => []
    here ++ arrivals (s.take step.input).2 rest

/-- The events that the transport has queued by the end of a run. -/
def queued (s : Session) (steps : List Step) : List TransportEvent :=
  s.transport.toList.flatMap (·.inbound) ++ s.arrivals steps

theorem Offline.after (h : Offline s sim) (steps : List Step) :
    ∃ last, Offline (s.after steps) last := by
  induction steps generalizing s sim with
  | nil => exact ⟨sim, h⟩
  | cons step steps ih => exact ih (h.take step)

theorem Offline.filter_log (h : Offline s sim) (steps : List Step) (e : TransportEvent) :
    (s.log steps).filter (·.origin = some e) = [] := by
  induction steps generalizing s sim with
  | nil => rfl
  | cons step steps ih =>
      rw [log, List.filter_append, ih (h.take step), List.append_nil, List.filter_eq_nil_iff]
      intro x hx
      simp [h.origin_eq_none step x hx]

theorem Online.filter_log (h : Online s t) (steps : List Step) (e : TransportEvent) :
    (s.log steps).filter (·.origin = some e) =
      if s.firstFault? steps = some (.reported e) then e.returned.map (⟨·, some e⟩) else [] := by
  induction steps generalizing s t with
  | nil => rfl
  | cons step steps ih =>
      rw [log, firstFault?, List.filter_append]
      cases hf : s.fault? step with
      | none =>
          obtain ⟨hhandled, u, hu⟩ := h.take_of_no_fault hf
          rw [hhandled, List.filter_nil, List.nil_append]
          exact ih hu
      | some f =>
          rw [filter_handlings_of_fault hf, (h.take_of_fault hf).filter_log, List.append_nil]
          simp

/-- At its first fault a session lets go of the transport, for good. -/
theorem Online.after_of_firstFault {f : Fault} (h : Online s t) {steps : List Step}
    (hf : s.firstFault? steps = some f) : ∃ sim, Offline (s.after steps) sim := by
  induction steps generalizing s t with
  | nil => cases hf
  | cons step steps ih =>
      rw [firstFault?] at hf
      cases hstep : s.fault? step with
      | none =>
          obtain ⟨-, u, hu⟩ := h.take_of_no_fault hstep
          rw [hstep] at hf
          exact ih hu hf
      | some g => exact (h.take_of_fault hstep).after steps

theorem Online.after (h : Online s t) (steps : List Step) :
    (∃ u, Online (s.after steps) u) ∨ ∃ sim, Offline (s.after steps) sim := by
  induction steps generalizing s t with
  | nil => exact .inl ⟨t, h⟩
  | cons step steps ih =>
      cases hf : s.fault? step with
      | none =>
          obtain ⟨-, u, hu⟩ := h.take_of_no_fault hf
          exact ih hu
      | some f => exact .inr ((h.take_of_fault hf).after steps)

/-- In a step of a run the simulation handles what the log says, in order; at a fault it is a new
one. -/
theorem Online.simulation_after (h : Online s t) (before : List Step) (step : Step) :
    ((s.after before).take step.input).2.simulation =
      let u := s.after before
      let requests := (u.handlings step).map (·.request)
      match u.fault? step with
      | some _ => some (u.standby.handleAll requests)
      | none => u.simulation.map fun sim => (step.elapse sim).handleAll requests := by
  rcases h.after before with ⟨t, ht⟩ | ⟨sim, hsim⟩
  · dsimp only
    cases hf : (s.after before).fault? step with
    | none =>
        obtain ⟨-, u, hu⟩ := ht.take_of_no_fault hf
        rw [hu.simulation, ht.simulation]
        rfl
    | some f => exact (ht.take_of_fault hf).simulation
  · rw [(hsim.take step).simulation]
    simp only [hsim.fault?_eq_none, hsim.simulation]
    rfl

/-! ## What is lost -/

private theorem eq_flatten_replicate {α : Type} (l : List α) (n : Nat) :
    l = (List.replicate n l).flatten ↔ (l ≠ [] → n = 1) := by
  constructor
  · intro h hl
    have hlength := congrArg List.length h
    rw [List.length_flatten, List.map_replicate, List.sum_replicate_nat] at hlength
    have hpos : 0 < l.length := List.length_pos_iff.mpr hl
    exact Nat.eq_of_mul_eq_mul_right hpos (by omega)
  · intro h
    by_cases hl : l = []
    · simp [hl]
    · simp [h hl]

/-- Once no event is left to take, every request that a queued event handed back has been handled
exactly once for it. -/
def Recovers (s : Session) (steps : List Step) : Prop :=
  (s.after steps).next? = none → ∀ e ∈ s.queued steps,
    ((s.log steps).filter (·.origin = some e)).map (·.request) =
      (List.replicate ((s.queued steps).count e) e.returned).flatten

/-- What an event hands back is recovered if the event is the first fault, and only one such event
is queued; otherwise only if there is nothing to recover. -/
theorem Online.recovered_iff (h : Online s t) {steps : List Step} {e : TransportEvent}
    (he : e ∈ s.queued steps) :
    ((s.log steps).filter (·.origin = some e)).map (·.request) =
        (List.replicate ((s.queued steps).count e) e.returned).flatten ↔
      (e.returned ≠ [] →
        s.firstFault? steps = some (.reported e) ∧ (s.queued steps).count e = 1) := by
  have hcount : 0 < (s.queued steps).count e := List.count_pos_iff.mpr he
  rw [h.filter_log]
  by_cases hfirst : s.firstFault? steps = some (.reported e)
  · simp only [hfirst, if_true, List.map_map, Function.comp_def, List.map_id', true_and]
    exact eq_flatten_replicate e.returned _
  · simp only [hfirst, if_false, List.map_nil, false_and, imp_false]
    constructor
    · intro hnil hne
      have hall := List.flatten_eq_nil_iff.mp hnil.symm
      exact hne (hall _ (List.mem_replicate.mpr ⟨Nat.ne_of_gt hcount, rfl⟩))
    · intro hnil
      simp [Classical.not_not.mp hnil]

/-- Whatever comes back with another event than the first fault is lost. -/
theorem Online.not_recovers (h : Online s t) {steps : List Step} {f : Fault}
    (hf : s.firstFault? steps = some f) {e : TransportEvent} (he : e ∈ s.queued steps)
    (hfe : f ≠ .reported e) (hreturned : e.returned ≠ []) : ¬ s.Recovers steps := by
  intro hrecovers
  obtain ⟨sim, hsim⟩ := h.after_of_firstFault hf
  have hfirst := ((h.recovered_iff he).mp (hrecovers hsim.next?_eq_none e he) hreturned).1
  rw [hf, Option.some_inj] at hfirst
  exact hfe hfirst

/-- A session over a transport recovers what comes back exactly if it comes back with its first
fault; it then lets go of the transport. The log tells what the simulation does: at a fault it
begins anew, and in every step it handles what the log says, in order. -/
theorem recovers_iff_firstFault (settings : SessionSettings) (spare : Spare) (t : Transport)
    (steps : List Step) :
    let s := opened settings spare (some t)
    (s.Recovers steps ↔ ((s.after steps).next? = none →
      ∀ e ∈ s.queued steps, e.returned ≠ [] →
        s.firstFault? steps = some (.reported e) ∧ (s.queued steps).count e = 1)) ∧
    ((s.firstFault? steps).isSome → (s.after steps).transport = none) ∧
    ∀ before step, ((s.after before).take step.input).2.simulation =
      let u := s.after before
      let requests := (u.handlings step).map (·.request)
      match u.fault? step with
      | some _ => some (u.standby.handleAll requests)
      | none => u.simulation.map fun sim => (step.elapse sim).handleAll requests := by
  intro s
  have hs : Online s t := online_opened settings spare t
  refine ⟨?_, ?_, hs.simulation_after⟩
  · exact forall_congr' fun _ => forall₂_congr fun e he => hs.recovered_iff he
  · intro hfirst
    obtain ⟨f, hf⟩ := Option.isSome_iff_exists.mp hfirst
    obtain ⟨sim, hsim⟩ := hs.after_of_firstFault hf
    exact hsim.transport

/-- A request that the transport accepts and hands back. -/
def handedBack : TransportEvent :=
  .unsent [(ClientMessage.chat "lobby" "first").encode] "broken pipe"

/-- The transport takes no more frames, and the session asks for more before it reads what comes
back. -/
def overtakenByRequest : List Step :=
  [.request (.chat "lobby" "first"), .arrival handedBack, .closedOutbound,
    .request (.chat "lobby" "second"), .event]

/-- Another fault arrives first. -/
def overtakenBy (fault : TransportEvent) : List Step :=
  [.request (.chat "lobby" "first"), .arrival fault, .arrival handedBack, .event, .event]

theorem not_recovers_overtaken :
    let s := opened .standard ⟨"one", .listed #[]⟩ (some .fresh)
    ¬ s.Recovers overtakenByRequest ∧ ¬ s.Recovers (overtakenBy .closed) ∧
      ¬ s.Recovers (overtakenBy (.failed "connection reset")) := by
  intro s
  have hs : Online s .fresh := online_opened _ _ _
  have hreturned : handedBack.returned ≠ [] := by
    have hlength : handedBack.returned.length = 1 := by decide +kernel
    exact List.ne_nil_of_length_eq_add_one hlength
  refine ⟨?_, ?_, ?_⟩
  · exact hs.not_recovers (f := .refused) (by decide +kernel) (e := handedBack)
      (by decide +kernel) (by decide +kernel) hreturned
  · exact hs.not_recovers (f := .reported .closed) (by decide +kernel) (e := handedBack)
      (by decide +kernel) (by decide +kernel) hreturned
  · exact hs.not_recovers (f := .reported (.failed "connection reset")) (by decide +kernel)
      (e := handedBack) (by decide +kernel) (by decide +kernel) hreturned

end Session

end TileWorld
