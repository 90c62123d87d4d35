import TileWorld.Proofs.Session.Failover
import TileWorld.Proofs.Simulation.Run

/-! Up to its first fault a session has no simulation. From then on it has no transport, and
everything it says is what one simulation answers. -/

namespace TileWorld

/-- The message that an event brings. -/
def TransportEvent.told? : TransportEvent → Option ServerMessage
  | .message text => (ServerMessage.decode text).toOption
  | _ => none

/-- The channel that a message names. -/
def ServerMessage.channel? : ServerMessage → Option String
  | .state _ channel => channel
  | _ => none

/-- The last channel that any of the messages names, or else the one given. -/
def lastChannel (given : String) (messages : List ServerMessage) : String :=
  (messages.filterMap ServerMessage.channel?).getLast?.getD given

theorem lastChannel_append (given : String) (messages further : List ServerMessage) :
    lastChannel given (messages ++ further) = lastChannel (lastChannel given messages) further := by
  simp only [lastChannel, List.filterMap_append, List.getLast?_append]
  cases (further.filterMap ServerMessage.channel?).getLast? <;> rfl

namespace Session

variable {s : Session} {t u v : Transport} {sim : Simulation}

/-! ## What is seen of a run -/

/-- What the consumer is given in a run. -/
def messages (s : Session) (steps : List Step) : List ServerMessage :=
  (s.run (steps.map Step.input)).1.messages

/-- What the transport is given in a run. -/
def frames (s : Session) (steps : List Step) : List String :=
  (s.run (steps.map Step.input)).1.frames

/-- The events that a session takes in a run. -/
def taken (s : Session) : List Step → List TransportEvent
  | [] => []
  | step :: rest =>
    let here := match step with
      | .event => s.next?.toList
      | _ => []
    here ++ taken (s.take step.input).2 rest

/-- The messages among the events that a session takes in a run. -/
def heard (s : Session) (steps : List Step) : List ServerMessage :=
  (s.taken steps).filterMap TransportEvent.told?

def Step.request? : Step → Option ClientMessage
  | .request m => some m
  | _ => none

/-- The requests that a session takes in a run. -/
def requests (steps : List Step) : List ClientMessage := steps.filterMap Step.request?

/-- What a step asks of a simulation. -/
def Step.call? : Step → Option Simulation.Call
  | .request m => some (.handle m)
  | .tick now elapsed =>
    some (.tick now (if elapsed < maxTickStep then elapsed else maxTickStep))
  | _ => none

def calls (steps : List Step) : List Simulation.Call := steps.filterMap Step.call?

theorem after_append (s : Session) (steps further : List Step) :
    s.after (steps ++ further) = (s.after steps).after further := by
  induction steps generalizing s with
  | nil => rfl
  | cons step steps ih => exact ih _

theorem messages_append (s : Session) (steps further : List Step) :
    s.messages (steps ++ further) = s.messages steps ++ (s.after steps).messages further := by
  induction steps generalizing s with
  | nil => rfl
  | cons step steps ih =>
      exact (congrArg ((s.take step.input).1.messages ++ ·) (ih _)).trans
        (List.append_assoc ..).symm

theorem frames_append (s : Session) (steps further : List Step) :
    s.frames (steps ++ further) = s.frames steps ++ (s.after steps).frames further := by
  induction steps generalizing s with
  | nil => rfl
  | cons step steps ih =>
      exact (congrArg ((s.take step.input).1.frames ++ ·) (ih _)).trans
        (List.append_assoc ..).symm

theorem taken_append (s : Session) (steps further : List Step) :
    s.taken (steps ++ further) = s.taken steps ++ (s.after steps).taken further := by
  induction steps generalizing s with
  | nil => rfl
  | cons step steps ih =>
      exact (congrArg (_ ++ ·) (ih _)).trans (List.append_assoc ..).symm

theorem heard_append (s : Session) (steps further : List Step) :
    s.heard (steps ++ further) = s.heard steps ++ (s.after steps).heard further := by
  rw [heard, taken_append, List.filterMap_append]
  rfl

theorem arrivals_append (s : Session) (steps further : List Step) :
    s.arrivals (steps ++ further) = s.arrivals steps ++ (s.after steps).arrivals further := by
  induction steps generalizing s with
  | nil => rfl
  | cons step steps ih =>
      exact (congrArg (_ ++ ·) (ih _)).trans (List.append_assoc ..).symm

theorem after_singleton (s : Session) (step : Step) : s.after [step] = (s.take step.input).2 :=
  rfl

theorem messages_singleton (s : Session) (step : Step) :
    s.messages [step] = (s.take step.input).1.messages :=
  List.append_nil _

theorem frames_singleton (s : Session) (step : Step) :
    s.frames [step] = (s.take step.input).1.frames :=
  List.append_nil _

/-! ## Before the first fault -/

/-- What a session does, over a transport that `t` has become `u`, as long as there is no fault. -/
structure Forwards (s : Session) (t : Transport) (steps : List Step) (u : Transport) : Prop where
  online : Online (s.after steps) u
  settings : (s.after steps).settings = s.settings
  spare : (s.after steps).spare = s.spare
  channel : (s.after steps).channel = lastChannel s.channel (s.heard steps)
  messages : s.messages steps = s.heard steps
  frames : s.frames steps = (requests steps).map ClientMessage.encode
  /-- Events are taken in the order in which they were queued. -/
  queue : s.taken steps ++ u.inbound = t.inbound ++ s.arrivals steps

theorem Online.forwards_nil (h : Online s t) : Forwards s t [] t :=
  ⟨h, rfl, rfl, rfl, rfl, rfl, (List.append_nil _).symm⟩

theorem Forwards.append {steps further : List Step} (h : Forwards s t steps u)
    (hfurther : Forwards (s.after steps) u further v) : Forwards s t (steps ++ further) v where
  online := by
    rw [after_append]
    exact hfurther.online
  settings := by rw [after_append, hfurther.settings, h.settings]
  spare := by rw [after_append, hfurther.spare, h.spare]
  channel := by rw [after_append, hfurther.channel, h.channel, heard_append, lastChannel_append]
  messages := by rw [messages_append, h.messages, hfurther.messages, heard_append]
  frames := by
    rw [frames_append, h.frames, hfurther.frames, requests, requests, requests,
      List.filterMap_append, List.map_append]
  queue := by
    rw [taken_append, arrivals_append, List.append_assoc, hfurther.queue, ← List.append_assoc,
      h.queue, List.append_assoc]

theorem remember_eq (s : Session) (m : ServerMessage) :
    s.remember m = { s with channel := lastChannel s.channel [m] } := by
  cases m with
  | state objects channel => cases channel <;> rfl
  | _ => rfl

theorem forwards_of_take {step : Step} {out : Output} {s' : Session}
    (hstep : s.take step.input = (out, s')) (honline : Online s' u)
    (hsettings : s'.settings = s.settings) (hspare : s'.spare = s.spare)
    (hchannel : s'.channel = lastChannel s.channel (s.heard [step]))
    (hmessages : out.messages = s.heard [step])
    (hframes : out.frames = (requests [step]).map ClientMessage.encode)
    (hqueue : s.taken [step] ++ u.inbound = t.inbound ++ s.arrivals [step]) :
    Forwards s t [step] u := by
  have hafter : s.after [step] = s' := by rw [after_singleton, hstep]
  refine ⟨hafter ▸ honline, hafter ▸ hsettings, hafter ▸ hspare, hafter ▸ hchannel, ?_, ?_, hqueue⟩
  · rw [messages_singleton, hstep, hmessages]
  · rw [frames_singleton, hstep, hframes]

/-- A step that gives nothing away, takes no event and changes nothing but the transport. -/
theorem Online.forwards_of_quiet {step : Step} (h : Online s t)
    (hstep : s.take step.input = (.none, { s with transport := some u }))
    (hrequests : requests [step] = []) (htaken : s.taken [step] = [])
    (hqueue : u.inbound = t.inbound ++ s.arrivals [step]) : Forwards s t [step] u := by
  have hheard : s.heard [step] = [] := by rw [heard, htaken]; rfl
  refine forwards_of_take hstep ⟨h.mode, rfl, h.simulation⟩ rfl rfl ?_ ?_ ?_ ?_
  · rw [hheard]
    rfl
  · rw [hheard]
    rfl
  · rw [hrequests]
    rfl
  · rw [htaken, hqueue]
    rfl

theorem Online.forwards_message {text : String} (h : Online s t)
    (hreceive : t.receive? = some (.message text, u)) : Forwards s t [.event] u := by
  obtain ⟨hstep, hnext⟩ := h.take_event hreceive
  have hu : Online { s with transport := some u } u := ⟨h.mode, rfl, h.simulation⟩
  have htaken : s.taken [.event] = [.message text] := by simp [taken, hnext]
  have hinbound : t.inbound = .message text :: u.inbound := by
    rw [Transport.receive?] at hreceive
    split at hreceive
    · rename_i hqueued
      cases hreceive
      exact hqueued
    · split at hreceive <;> cases hreceive
  have hqueue : s.taken [.event] ++ u.inbound = t.inbound ++ s.arrivals [.event] := by
    rw [htaken, hinbound]
    exact (List.append_nil _).symm
  rw [react] at hstep
  cases htold : ServerMessage.decode text with
  | error e =>
      have hheard : s.heard [.event] = [] := by
        simp [heard, htaken, TransportEvent.told?, htold, Except.toOption]
      rw [htold] at hstep
      refine forwards_of_take hstep hu rfl rfl ?_ ?_ rfl hqueue
      · rw [hheard]
        rfl
      · rw [hheard]
        rfl
  | ok m =>
      have hheard : s.heard [.event] = [m] := by
        simp [heard, htaken, TransportEvent.told?, htold, Except.toOption]
      rw [htold] at hstep
      refine forwards_of_take hstep (hu.remember m) ?_ ?_ ?_ ?_ rfl hqueue
      · rw [remember_eq]
      · rw [remember_eq]
      · rw [remember_eq, hheard]
      · rw [hheard]
        rfl

/-- A request that the transport accepts is in its queue, and nowhere else. -/
theorem Online.take_request (h : Online s t) (hwritable : t.writable = true) (m : ClientMessage) :
    s.take (.request m) = (⟨[], [m.encode]⟩,
      { s with transport := some { t with outbound := t.outbound ++ [m.encode] } }) := by
  simp [Session.take, Session.request, h.transport, Transport.send, hwritable]

theorem Online.forwards_request (h : Online s t) (hwritable : t.writable = true)
    (m : ClientMessage) :
    Forwards s t [.request m] { t with outbound := t.outbound ++ [m.encode] } := by
  have hstep : s.take (Step.request m).input = _ := h.take_request hwritable m
  exact forwards_of_take hstep ⟨h.mode, rfl, h.simulation⟩ rfl rfl rfl rfl rfl
    (List.append_nil _).symm

/-- Without a fault a step forwards. -/
theorem Online.exists_forwards_step {step : Step} (h : Online s t) (hf : s.fault? step = none) :
    ∃ u, Forwards s t [step] u := by
  have hself : s = { s with transport := some t } := by rw [← h.transport]
  have hchange : ∀ change : Transport → Transport,
      s.onTransport change = { s with transport := some (change t) } := by
    intro change
    rw [Session.onTransport, h.transport]
    rfl
  cases step with
  | request m =>
      have hwritable : t.writable = true := by
        by_cases hw : t.writable = true
        · exact hw
        · simp [fault?, h.transport, hw] at hf
      exact ⟨_, h.forwards_request hwritable m⟩
  | event =>
      cases hreceive : t.receive? with
      | none =>
          have hnext : s.next? = none := by simp [next?, h.transport, hreceive]
          refine ⟨t, h.forwards_of_quiet ?_ rfl (by simp [taken, hnext]) (List.append_nil _).symm⟩
          rw [← hself]
          simp [Step.input, Session.take, Session.receive?, h.transport, hreceive]
      | some received =>
          obtain ⟨e, u⟩ := received
          have hnext := (h.take_event hreceive).2
          cases e with
          | message text => exact ⟨u, h.forwards_message hreceive⟩
          | _ => simp [fault?, hnext] at hf
  | tick now elapsed =>
      refine ⟨t, h.forwards_of_quiet ?_ rfl rfl (List.append_nil _).symm⟩
      rw [← hself]
      simp [Step.input, Session.take, Session.tick, h.mode]
  | arrival e =>
      refine ⟨(t.inject? e).getD t, h.forwards_of_quiet ?_ rfl rfl ?_⟩
      · simp [Step.input, Session.take, hchange]
      · by_cases hr : t.readable = true <;>
          simp [Transport.inject?, arrivals, h.transport, hr]
  | closedOutbound =>
      refine ⟨t.closeOutbound, h.forwards_of_quiet ?_ rfl rfl (List.append_nil _).symm⟩
      simp [Step.input, Session.take, hchange]
  | closedInbound =>
      refine ⟨t.closeInbound, h.forwards_of_quiet ?_ rfl rfl (List.append_nil _).symm⟩
      simp [Step.input, Session.take, hchange]

theorem Online.exists_forwards (h : Online s t) {steps : List Step}
    (hf : s.firstFault? steps = none) : ∃ u, Forwards s t steps u := by
  induction steps generalizing s t with
  | nil => exact ⟨t, h.forwards_nil⟩
  | cons step steps ih =>
      rw [firstFault?] at hf
      cases hstep : s.fault? step with
      | some f => simp [hstep] at hf
      | none =>
          obtain ⟨u, hu⟩ := h.exists_forwards_step hstep
          rw [hstep] at hf
          obtain ⟨v, hv⟩ := ih hu.online hf
          exact ⟨v, hu.append hv⟩

/-! ## From the first fault on -/

/-- What a session does while `sim` answers in the server's place. -/
structure Answers (s : Session) (sim : Simulation) (steps : List Step) : Prop where
  offline : Offline (s.after steps) (sim.run (calls steps))
  messages : s.messages steps = sim.transcript (calls steps)
  frames : s.frames steps = []
  taken : s.taken steps = []

theorem Answers.append {steps further : List Step} (h : Answers s sim steps)
    (hfurther : Answers (s.after steps) (sim.run (calls steps)) further) :
    Answers s sim (steps ++ further) := by
  have hcalls : calls (steps ++ further) = calls steps ++ calls further := List.filterMap_append
  refine ⟨?_, ?_, ?_, ?_⟩
  · rw [after_append, hcalls, Simulation.run_append]
    exact hfurther.offline
  · rw [messages_append, h.messages, hfurther.messages, hcalls, Simulation.transcript_append]
  · rw [frames_append, h.frames, hfurther.frames]
    rfl
  · rw [taken_append, h.taken, hfurther.taken]
    rfl

theorem Offline.taken_singleton (h : Offline s sim) (step : Step) : s.taken [step] = [] := by
  cases step with
  | event => simp [Session.taken, h.next?_eq_none]
  | _ => rfl

theorem Offline.answers_of_quiet {step : Step} (h : Offline s sim) (hcall : step.call? = none)
    (hstep : s.take step.input = (.none, s)) : Answers s sim [step] := by
  have hcalls : calls [step] = [] := by rw [calls, List.filterMap_cons, hcall]; rfl
  refine ⟨?_, ?_, ?_, h.taken_singleton step⟩
  · rw [after_singleton, hstep, hcalls]
    exact h
  · rw [messages_singleton, hstep, hcalls]
    rfl
  · rw [frames_singleton, hstep]
    rfl

theorem Offline.answers_of_call {step : Step} {call : Simulation.Call} (h : Offline s sim)
    (hcall : step.call? = some call)
    (hstep : s.take step.input =
      (.ofMessages (sim.perform call).1, { s with simulation := some (sim.perform call).2 })) :
    Answers s sim [step] := by
  have hcalls : calls [step] = [call] := by rw [calls, List.filterMap_cons, hcall]; rfl
  refine ⟨?_, ?_, ?_, h.taken_singleton step⟩
  · rw [after_singleton, hstep, hcalls]
    exact ⟨h.mode, h.transport, rfl⟩
  · rw [messages_singleton, hstep, hcalls]
    exact (List.append_nil _).symm
  · rw [frames_singleton, hstep]
    rfl

theorem Offline.take_request (h : Offline s sim) (m : ClientMessage) :
    s.take (.request m) =
      (.ofMessages (sim.handle m).1, { s with simulation := some (sim.handle m).2 }) := by
  simp [Session.take, Session.request, h.transport, Session.answerOffline, h.simulation]

theorem Offline.answers_step (h : Offline s sim) (step : Step) : Answers s sim [step] := by
  have hchange : ∀ change, s.onTransport change = s := by
    intro change
    rw [Session.onTransport, h.transport, Option.map_none, ← h.transport]
  cases step with
  | request m => exact h.answers_of_call rfl (h.take_request m)
  | event =>
      refine h.answers_of_quiet rfl ?_
      simp [Step.input, Session.take, Session.receive?, h.transport]
  | tick now elapsed =>
      refine h.answers_of_call rfl ?_
      simp [Step.input, Session.take, Session.tick, h.mode, h.simulation, Simulation.perform]
  | arrival e => exact h.answers_of_quiet rfl (congrArg (Prod.mk _) (hchange _))
  | closedOutbound => exact h.answers_of_quiet rfl (congrArg (Prod.mk _) (hchange _))
  | closedInbound => exact h.answers_of_quiet rfl (congrArg (Prod.mk _) (hchange _))

theorem Offline.answers (h : Offline s sim) (steps : List Step) : Answers s sim steps := by
  induction steps generalizing s sim with
  | nil => exact ⟨h, rfl, rfl, rfl⟩
  | cons step steps ih =>
      have hstep := h.answers_step step
      exact hstep.append (ih hstep.offline)

/-! ## The first fault -/

/-- The offline world of a channel, and how it is announced to the consumer. -/
def offlineWorld (settings : SessionSettings) (spare : Spare) (channel : String) :
    List ServerMessage × Simulation :=
  (Simulation.new settings.simulation spare.words).bootstrap channel spare.token

/-- What the consumer is told if the offline world begins now. -/
def announcement (s : Session) : List ServerMessage :=
  (offlineWorld s.settings s.spare s.channel).1

/-- The calls that a fault makes: for the request that was refused, or for those that come back. -/
def replays (s : Session) (step : Step) : List Simulation.Call :=
  (s.handlings step).map fun x => .handle x.request

theorem messages_goOffline (h : s.mode ≠ .offline) :
    s.goOffline.1 = .ofMessages s.announcement := by
  rw [goOffline, if_neg h]
  rfl

theorem Offline.output_answerOffline (h : Offline s sim) (m : ClientMessage) :
    (s.answerOffline m).1 = .ofMessages (sim.handle m).1 := by
  rw [Session.answerOffline, h.simulation]

theorem Offline.output_answerAllOffline (h : Offline s sim) (requests : List ClientMessage) :
    (s.answerAllOffline requests).1 = .ofMessages (sim.transcript (requests.map .handle)) := by
  induction requests generalizing s sim with
  | nil => rfl
  | cons m requests ih =>
      rw [Session.answerAllOffline]
      dsimp only
      rw [h.output_answerOffline, ih (h.answerOffline m)]
      rfl

theorem Online.output_react_of_fault {e : TransportEvent} (h : Online s t)
    (he : ∀ text, e ≠ .message text) :
    (s.react e).1 =
      .ofMessages (s.announcement ++ s.standby.transcript (e.returned.map .handle)) := by
  have hannounced := messages_goOffline h.mode_ne_offline
  have hoff : Offline s.goOffline.2 s.standby := offline_goOffline h.mode_ne_offline
  have hbare : s.goOffline.1 = .ofMessages (s.announcement ++ s.standby.transcript []) :=
    hannounced.trans (congrArg Output.ofMessages (List.append_nil _).symm)
  cases e with
  | message text => exact absurd rfl (he text)
  | closed => exact hbare
  | failed reason => exact hbare
  | unsent frames reason =>
      rw [react]
      dsimp only
      rw [hannounced, hoff.output_answerAllOffline]
      rfl

/-- The session that takes a fault announces its offline world, and then answers what the fault
calls for. -/
theorem Online.output_of_fault {f : Fault} {step : Step} (h : Online s t)
    (hf : s.fault? step = some f) :
    (s.take step.input).1 =
      .ofMessages (s.announcement ++ s.standby.transcript (s.replays step)) := by
  have hoff : Offline s.goOffline.2 s.standby := offline_goOffline h.mode_ne_offline
  cases step with
  | request m =>
      have hw : t.writable = false := by
        by_cases hw : t.writable = true
        · simp [fault?, h.transport, hw] at hf
        · simpa using hw
      have hreplays : s.replays (.request m) = [.handle m] := by
        simp [replays, handlings, h.transport, hw]
      have hstep : (s.take (.request m)).1 =
          s.goOffline.1 ++ (s.goOffline.2.answerOffline m).1 := by
        simp [Session.take, Session.request, h.transport, Transport.send, hw]
      rw [Step.input, hstep, messages_goOffline h.mode_ne_offline, hoff.output_answerOffline,
        hreplays]
      exact congrArg Output.ofMessages (congrArg (_ ++ ·) (List.append_nil _).symm)
  | event =>
      obtain ⟨e, he, -⟩ := Option.map_eq_some_iff.mp hf
      obtain ⟨hnext, hfault⟩ := Option.filter_eq_some_iff.mp he
      obtain ⟨⟨e, u⟩, hreceive, rfl⟩ := Option.map_eq_some_iff.mp hnext
      rw [h.transport, Option.bind_some] at hreceive
      have hu : Online { s with transport := some u } u := ⟨h.mode, rfl, h.simulation⟩
      have hreplays : s.replays .event = e.returned.map .handle := by
        simp [replays, handlings, hnext, Function.comp_def]
      rw [Step.input, (h.take_event hreceive).1, hreplays]
      refine hu.output_react_of_fault ?_
      rintro text rfl
      cases hfault
  | _ => cases hf

/-- What a session does in the step that takes a fault. -/
structure Falls (s : Session) (step : Step) : Prop where
  offline : Offline (s.after [step]) (s.standby.run (s.replays step))
  messages : s.messages [step] = s.announcement ++ s.standby.transcript (s.replays step)
  frames : s.frames [step] = []

theorem Online.falls {f : Fault} {step : Step} (h : Online s t) (hf : s.fault? step = some f) :
    Falls s step := by
  have houtput := h.output_of_fault hf
  have hrun : s.standby.handleAll ((s.handlings step).map (·.request)) =
      s.standby.run (s.replays step) := by
    rw [Simulation.handleAll, Simulation.run, replays, List.foldl_map, List.foldl_map]
    rfl
  refine ⟨?_, ?_, ?_⟩
  · rw [← hrun]
    exact h.take_of_fault hf
  · rw [messages_singleton, houtput]
    rfl
  · rw [frames_singleton, houtput]
    rfl

/-! ## Whole runs -/

/-- The event that reports a fault. -/
def Fault.event? : Fault → Option TransportEvent
  | .refused => none
  | .reported e => some e

theorem taken_of_fault {f : Fault} {step : Step} (hf : s.fault? step = some f) :
    s.taken [step] = f.event?.toList := by
  cases step with
  | request m =>
      obtain ⟨t, -, rfl⟩ := Option.map_eq_some_iff.mp hf
      rfl
  | event =>
      obtain ⟨e, he, rfl⟩ := Option.map_eq_some_iff.mp hf
      simp [taken, (Option.filter_eq_some_iff.mp he).1, Fault.event?]
  | _ => cases hf

theorem firstFault?_append (s : Session) (steps further : List Step) :
    s.firstFault? (steps ++ further) =
      (s.firstFault? steps).or ((s.after steps).firstFault? further) := by
  induction steps generalizing s with
  | nil => rfl
  | cons step steps ih =>
      rw [List.cons_append, firstFault?, firstFault?]
      cases s.fault? step with
      | some f => rfl
      | none => exact ih _

theorem Offline.firstFault?_eq_none (h : Offline s sim) (steps : List Step) :
    s.firstFault? steps = none := by
  induction steps generalizing s sim with
  | nil => rfl
  | cons step steps ih =>
      rw [firstFault?, h.fault?_eq_none]
      exact ih (h.take step)

/-- What a session does in a run whose first fault is taken in `step`. -/
structure Breaks (s : Session) (before : List Step) (step : Step) (later : List Step) : Prop where
  offline : Offline (s.after (before ++ step :: later))
    ((s.after before).standby.run ((s.after before).replays step ++ calls later))
  messages : s.messages (before ++ step :: later) =
    s.heard before ++ ((s.after before).announcement ++
      (s.after before).standby.transcript ((s.after before).replays step ++ calls later))
  frames : s.frames (before ++ step :: later) = (requests before).map ClientMessage.encode
  taken : s.taken (before ++ step :: later) = s.taken before ++ (s.after before).taken [step]

theorem Forwards.breaks {before : List Step} {step : Step} {f : Fault} (h : Forwards s t before u)
    (hf : (s.after before).fault? step = some f) (later : List Step) :
    Breaks s before step later := by
  have hfall := h.online.falls hf
  have hanswers := hfall.offline.answers later
  have hsplit : before ++ step :: later = before ++ ([step] ++ later) := rfl
  refine ⟨?_, ?_, ?_, ?_⟩
  · rw [hsplit, after_append, after_append, Simulation.run_append]
    exact hanswers.offline
  · rw [hsplit, messages_append, messages_append, h.messages, hfall.messages, hanswers.messages,
      Simulation.transcript_append, List.append_assoc]
  · rw [hsplit, frames_append, frames_append, h.frames, hfall.frames, hanswers.frames]
    exact List.append_nil _
  · rw [hsplit, taken_append, taken_append, hanswers.taken, List.append_nil]

/-- How the first fault divides a run: the steps before it, and the calls that the simulation gets
from then on. -/
inductive Course (s : Session) : List Step → List Step → Option (List Simulation.Call) → Prop where
  | undisturbed {steps : List Step} (mode : s.mode = .online)
      (sound : s.firstFault? steps = none) : Course s steps steps none
  | broken {before later : List Step} {step : Step} {f : Fault} (mode : s.mode = .online)
      (sound : s.firstFault? before = none) (fault : (s.after before).fault? step = some f) :
      Course s (before ++ step :: later) before
        (some ((s.after before).replays step ++ calls later))
  | unconnected {steps : List Step} (mode : s.mode = .offline) :
      Course s steps [] (some (calls steps))

private theorem exists_break {f : Fault} {steps : List Step} (hf : s.firstFault? steps = some f) :
    ∃ before step later, steps = before ++ step :: later ∧ s.firstFault? before = none ∧
      (s.after before).fault? step = some f := by
  induction steps generalizing s with
  | nil => cases hf
  | cons step steps ih =>
      rw [firstFault?] at hf
      cases hstep : s.fault? step with
      | some g =>
          rw [hstep] at hf
          exact ⟨[], step, steps, rfl, rfl, hstep.trans hf⟩
      | none =>
          rw [hstep] at hf
          obtain ⟨before, last, later, rfl, hbefore, hlast⟩ := ih hf
          refine ⟨step :: before, last, later, rfl, ?_, hlast⟩
          rw [firstFault?, hstep]
          exact hbefore

theorem exists_course (settings : SessionSettings) (spare : Spare) (connection : Option Transport)
    (steps : List Step) :
    ∃ online asked, Course (opened settings spare connection) steps online asked := by
  cases connection with
  | none => exact ⟨[], _, .unconnected rfl⟩
  | some t =>
      have hmode := (online_opened settings spare t).mode
      cases hf : (opened settings spare (some t)).firstFault? steps with
      | none => exact ⟨steps, none, .undisturbed hmode hf⟩
      | some f =>
          obtain ⟨before, step, later, rfl, hbefore, hstep⟩ := exists_break hf
          exact ⟨before, _, .broken hmode hbefore hstep⟩

/-- What a session does to get a transport. -/
def attempt : Option Transport → Input
  | some t => .connected t
  | none => .unreachable

/-- All that comes out of a run, the attempt to connect included. -/
def output (settings : SessionSettings) (spare : Spare) (connection : Option Transport)
    (steps : List Step) : Output :=
  ((start settings spare).run (attempt connection :: steps.map Step.input)).1

/-- What comes of a run that takes the given course. -/
structure Outcome (settings : SessionSettings) (spare : Spare) (connection : Option Transport)
    (steps online : List Step) (asked : Option (List Simulation.Call)) : Prop where
  messages :
    let heard := (opened settings spare connection).heard online
    let world := offlineWorld settings spare (lastChannel settings.channel heard)
    (output settings spare connection steps).messages =
      heard ++ (asked.toList.flatMap fun calls => world.1 ++ world.2.transcript calls)
  simulation :
    let heard := (opened settings spare connection).heard online
    let world := offlineWorld settings spare (lastChannel settings.channel heard)
    ((opened settings spare connection).after steps).simulation = asked.map world.2.run
  frames : (output settings spare connection steps).frames =
    (requests online).map ClientMessage.encode
  /-- Events are taken in the order in which they were queued, and none after the first fault. -/
  taken :
    let s := opened settings spare connection
    s.taken online <+: s.queued online ∧
      s.taken steps = s.taken online ++ ((s.firstFault? steps).bind Fault.event?).toList

theorem offline_opened (settings : SessionSettings) (spare : Spare) :
    Offline (opened settings spare none) (start settings spare).standby :=
  offline_goOffline (s := start settings spare) (by simp [start])

theorem exists_transport_of_mode {settings : SessionSettings} {spare : Spare}
    {connection : Option Transport} (h : (opened settings spare connection).mode = .online) :
    ∃ t, connection = some t := by
  cases connection with
  | none => exact absurd ((offline_opened settings spare).mode.symm.trans h) (by decide)
  | some t => exact ⟨t, rfl⟩

theorem eq_none_of_mode {settings : SessionSettings} {spare : Spare}
    {connection : Option Transport} (h : (opened settings spare connection).mode = .offline) :
    connection = none := by
  cases connection with
  | none => rfl
  | some t => exact absurd ((online_opened settings spare t).mode.symm.trans h) (by decide)

/-- Without a connection the offline world is announced at once. -/
theorem Outcome.unconnected (settings : SessionSettings) (spare : Spare) (steps : List Step) :
    Outcome settings spare none steps [] (some (calls steps)) := by
  have hs := offline_opened settings spare
  have hanswers := hs.answers steps
  have hannounced : (start settings spare).goOffline.1.messages =
      (start settings spare).announcement :=
    congrArg Output.messages (messages_goOffline (s := start settings spare) (by simp [start]))
  refine ⟨?_, hanswers.offline.simulation, ?_, List.prefix_append_of_prefix List.nil_prefix, ?_⟩
  · have hsplit : (output settings spare none steps).messages =
        (start settings spare).goOffline.1.messages ++
          (opened settings spare none).messages steps := rfl
    rw [hsplit, hannounced, hanswers.messages]
    exact (List.append_nil _).symm
  · exact hanswers.frames
  · rw [hanswers.taken, hs.firstFault?_eq_none]
    rfl

theorem Forwards.outcome {settings : SessionSettings} {spare : Spare} {steps : List Step}
    (h : Forwards (opened settings spare (some t)) t steps u)
    (sound : (opened settings spare (some t)).firstFault? steps = none) :
    Outcome settings spare (some t) steps steps none := by
  have hqueued : (opened settings spare (some t)).queued steps =
      t.inbound ++ (opened settings spare (some t)).arrivals steps :=
    congrArg (· ++ _) (List.append_nil t.inbound)
  refine ⟨?_, h.online.simulation, h.frames, ?_, ?_⟩
  · exact h.messages.trans (List.append_nil _).symm
  · rw [hqueued, ← h.queue]
    exact List.prefix_append _ _
  · rw [sound]
    exact (List.append_nil _).symm

theorem Breaks.outcome {settings : SessionSettings} {spare : Spare} {before later : List Step}
    {step : Step} {f : Fault} (h : Forwards (opened settings spare (some t)) t before u)
    (sound : (opened settings spare (some t)).firstFault? before = none)
    (fault : ((opened settings spare (some t)).after before).fault? step = some f) :
    Outcome settings spare (some t) (before ++ step :: later) before
      (some (((opened settings spare (some t)).after before).replays step ++ calls later)) := by
  have hbreaks := h.breaks fault later
  have hworld : offlineWorld settings spare
      (lastChannel settings.channel ((opened settings spare (some t)).heard before)) =
        (((opened settings spare (some t)).after before).announcement,
          ((opened settings spare (some t)).after before).standby) := by
    rw [announcement, standby, h.channel, h.settings, h.spare]
    rfl
  refine ⟨?_, ?_, hbreaks.frames, (h.outcome sound).taken.1, ?_⟩
  · dsimp only
    rw [hworld]
    refine hbreaks.messages.trans (congrArg (_ ++ ·) ?_)
    exact (List.append_nil _).symm
  · dsimp only
    rw [hworld]
    exact hbreaks.offline.simulation
  · rw [hbreaks.taken, taken_of_fault fault, firstFault?_append, sound, firstFault?, fault]
    rfl

theorem Course.outcome {settings : SessionSettings} {spare : Spare}
    {connection : Option Transport} {steps online : List Step}
    {asked : Option (List Simulation.Call)}
    (h : Course (opened settings spare connection) steps online asked) :
    Outcome settings spare connection steps online asked := by
  cases h with
  | undisturbed mode sound =>
      obtain ⟨t, rfl⟩ := exists_transport_of_mode mode
      obtain ⟨u, hu⟩ := (online_opened settings spare t).exists_forwards sound
      exact hu.outcome sound
  | broken mode sound fault =>
      obtain ⟨t, rfl⟩ := exists_transport_of_mode mode
      obtain ⟨u, hu⟩ := (online_opened settings spare t).exists_forwards sound
      exact Breaks.outcome hu sound fault
  | unconnected mode =>
      obtain rfl := eq_none_of_mode mode
      exact .unconnected settings spare steps

end Session

end TileWorld
