import TileWorld.Proofs.Session.Course

/-! After its attempt to connect a session is wholly online or wholly offline. -/

namespace TileWorld

theorem Simulation.player_run (s : Simulation) (calls : List Simulation.Call) :
    (s.run calls).player = s.player :=
  List.foldlRecOn (motive := fun t : Simulation => t.player = s.player) _ _ rfl
    fun t ht call _ => (t.player_perform call).trans ht

namespace Session

variable {s : Session} {t : Transport} {sim : Simulation}

/-! ## The mode that the consumer sees -/

def Public (s : Session) : Prop := s.published = s.mode

theorem Public.goOffline (h : s.Public) : s.goOffline.2.Public := by
  rw [Session.goOffline]
  split
  · exact h
  · exact rfl

theorem Public.answerOffline (h : s.Public) (m : ClientMessage) : (s.answerOffline m).2.Public := by
  rw [Session.answerOffline]
  split <;> exact h

theorem Public.answerAllOffline (h : s.Public) (requests : List ClientMessage) :
    (s.answerAllOffline requests).2.Public := by
  induction requests generalizing s with
  | nil => exact h
  | cons m requests ih => exact ih (h.answerOffline m)

theorem Public.request (h : s.Public) (m : ClientMessage) : (s.request m).2.Public := by
  rw [Session.request]
  split
  · exact h.answerOffline m
  · dsimp only
    split
    · exact h
    · exact h.goOffline.answerOffline m

theorem Public.react (h : s.Public) (event : TransportEvent) : (s.react event).2.Public := by
  cases event with
  | message text =>
      rw [Session.react]
      split
      · rw [remember_eq]
        exact h
      · exact h
  | closed => exact h.goOffline
  | failed reason => exact h.goOffline
  | unsent frames reason => exact h.goOffline.answerAllOffline _

theorem Public.receive (h : s.Public) : (s.receive?.getD (.none, s)).2.Public := by
  cases hreceive : s.receive? with
  | none => exact h
  | some received =>
      simp only [receive?, Option.bind_eq_bind, Option.bind_eq_some_iff] at hreceive
      obtain ⟨t, -, ⟨event, u⟩, -, hreact⟩ := hreceive
      rw [Option.getD_some, ← Option.some_inj.mp hreact]
      have hu : Public { s with transport := some u } := h
      exact hu.react event

theorem Public.tick (h : s.Public) (now : Float) (elapsed : Float32) :
    (s.tick now elapsed).2.Public := by
  rw [Session.tick]
  split <;> exact h

/-- Whatever a session takes, the consumer is told of the mode that comes of it. -/
theorem Public.take (h : s.Public) (input : Input) : (s.take input).2.Public := by
  cases input with
  | connected t => exact rfl
  | unreachable => exact h.goOffline
  | request m => exact h.request m
  | event => exact h.receive
  | tick now elapsed => exact h.tick now elapsed
  | arrival e => exact h
  | closedOutbound => exact h
  | closedInbound => exact h

theorem Public.after (h : s.Public) (steps : List Step) : (s.after steps).Public := by
  induction steps generalizing s with
  | nil => exact h
  | cons step steps ih => exact ih (h.take step.input)

theorem public_opened (settings : SessionSettings) (spare : Spare)
    (connection : Option Transport) : (opened settings spare connection).Public := by
  have hstart : (start settings spare).Public := rfl
  cases connection with
  | none => exact hstart.take .unreachable
  | some t => exact hstart.take (.connected t)

/-! ## Online or offline -/

/-- A session is online over a transport, or it is offline and has a simulation that was
bootstrapped for some channel, has been called since, and has a player. -/
inductive Coherent (settings : SessionSettings) (spare : Spare) (s : Session) : Prop where
  | online (mode : s.mode = .online) (published : s.published = .online)
      (transport : s.transport.isSome = true) (simulation : s.simulation = none)
  | offline (channel : String) (earlier : List Simulation.Call) (sim : Simulation)
      (mode : s.mode = .offline) (published : s.published = .offline)
      (transport : s.transport = none) (simulation : s.simulation = some sim)
      (bootstrapped : sim = (offlineWorld settings spare channel).2.run earlier)
      (player : sim.player = some ("player-" ++ spare.token))

/-- What becomes of an offline session with the simulation `sim`: it stays offline, and it keeps
the simulation, which answers the calls that the steps make and nothing else. -/
structure Keeps (s : Session) (sim : Simulation) (steps : List Step) : Prop where
  mode : (s.after steps).mode = .offline
  published : (s.after steps).published = .offline
  transport : (s.after steps).transport = none
  simulation : (s.after steps).simulation = some (sim.run (calls steps))
  player : (sim.run (calls steps)).player = sim.player

theorem after_opened_cases (settings : SessionSettings) (spare : Spare)
    (connection : Option Transport) (steps : List Step) :
    (∃ t, Online ((opened settings spare connection).after steps) t) ∨
      ∃ sim, Offline ((opened settings spare connection).after steps) sim := by
  cases connection with
  | none => exact .inr ((offline_opened settings spare).after steps)
  | some t => exact (online_opened settings spare t).after steps

theorem player_offlineWorld (settings : SessionSettings) (spare : Spare) (channel : String) :
    (offlineWorld settings spare channel).2.player = some ("player-" ++ spare.token) :=
  rfl

theorem coherent_after (settings : SessionSettings) (spare : Spare)
    (connection : Option Transport) (steps : List Step) :
    Coherent settings spare ((opened settings spare connection).after steps) := by
  have hpublic := (public_opened settings spare connection).after steps
  rcases after_opened_cases settings spare connection steps with ⟨t, ht⟩ | ⟨sim, hsim⟩
  · exact .online ht.mode (hpublic.trans ht.mode) (ht.transport ▸ rfl) ht.simulation
  · obtain ⟨online, asked, hcourse⟩ := exists_course settings spare connection steps
    have hasked := hcourse.outcome.simulation
    rw [hsim.simulation] at hasked
    obtain ⟨calls, -, hcalls⟩ := Option.map_eq_some_iff.mp hasked.symm
    refine .offline _ calls sim hsim.mode (hpublic.trans hsim.mode) hsim.transport hsim.simulation
      hcalls.symm ?_
    rw [← hcalls, Simulation.player_run, player_offlineWorld]

/-- Offline is final. -/
theorem Offline.keeps (h : Offline s sim) (hpublic : s.Public) (steps : List Step) :
    Keeps s sim steps := by
  have hoffline := (h.answers steps).offline
  exact ⟨hoffline.mode, (hpublic.after steps).trans hoffline.mode, hoffline.transport,
    hoffline.simulation, sim.player_run _⟩

/-- The offline clock does not run in an online session. -/
theorem take_tick_of_online (h : s.mode = .online) (now : Float) (elapsed : Float32) :
    s.take (.tick now elapsed) = (.none, s) := by
  rw [Session.take, Session.tick, h]

/-- However requests, events and ticks follow one another, a session is coherent between them. Once
it is offline it stays so with its simulation, and before that no tick does anything. -/
theorem coherent_run (settings : SessionSettings) (spare : Spare) (connection : Option Transport)
    (steps : List Step) :
    let s := (opened settings spare connection).after steps
    Coherent settings spare s ∧
      (s.mode = .offline →
        ∃ sim, s.simulation = some sim ∧ ∀ further, Keeps s sim further) ∧
      (s.mode = .online → ∀ now elapsed, s.take (.tick now elapsed) = (.none, s)) := by
  intro s
  refine ⟨coherent_after settings spare connection steps, ?_, take_tick_of_online⟩
  intro hmode
  have hpublic : s.Public := (public_opened settings spare connection).after steps
  rcases after_opened_cases settings spare connection steps with ⟨t, ht⟩ | ⟨sim, hsim⟩
  · exact absurd hmode ht.mode_ne_offline
  · exact ⟨sim, hsim.simulation, hsim.keeps hpublic⟩

end Session

end TileWorld
