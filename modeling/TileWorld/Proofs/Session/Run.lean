import TileWorld.Session.Basic

/-! # Runs of a session -/

namespace TileWorld

def Simulation.handleAll (s : Simulation) (requests : List ClientMessage) : Simulation :=
  requests.foldl (fun s m => (s.handle m).2) s

namespace Session

variable {s : Session} {t : Transport} {sim : Simulation}

/-- What happens to a session after its attempt to connect. The last three are done by the far
side. -/
inductive Step where
  | request (m : ClientMessage)
  | event
  | tick (now : Float) (elapsed : Float32)
  | arrival (event : TransportEvent)
  | closedOutbound
  | closedInbound

def Step.input : Step → Input
  | .request m => .request m
  | .event => .event
  | .tick now elapsed => .tick now elapsed
  | .arrival e => .arrival e
  | .closedOutbound => .closedOutbound
  | .closedInbound => .closedInbound

def opened (settings : SessionSettings) (spare : Spare) : Option Transport → Session
  | some t => ((start settings spare).take (.connected t)).2
  | none => ((start settings spare).take .unreachable).2

/-- The session after a list of steps. -/
def after (s : Session) (steps : List Step) : Session := (s.run (steps.map Step.input)).2

structure Online (s : Session) (t : Transport) : Prop where
  mode : s.mode = .online
  transport : s.transport = some t
  simulation : s.simulation = none

structure Offline (s : Session) (sim : Simulation) : Prop where
  mode : s.mode = .offline
  transport : s.transport = none
  simulation : s.simulation = some sim

/-! ## Going offline -/

/-- The offline world that a session would begin with. -/
def standby (s : Session) : Simulation :=
  ((Simulation.new s.settings.simulation s.spare.words).bootstrap s.channel s.spare.token).2

theorem offline_goOffline (h : s.mode ≠ .offline) : Offline s.goOffline.2 s.standby := by
  rw [goOffline, if_neg h]
  exact ⟨rfl, rfl, rfl⟩

theorem Offline.answerOffline (h : Offline s sim) (m : ClientMessage) :
    Offline (s.answerOffline m).2 (sim.handle m).2 := by
  rw [Session.answerOffline, h.simulation]
  exact ⟨h.mode, h.transport, rfl⟩

theorem Offline.answerAllOffline (h : Offline s sim) (requests : List ClientMessage) :
    Offline (s.answerAllOffline requests).2 (sim.handleAll requests) := by
  induction requests generalizing s sim with
  | nil => exact h
  | cons m requests ih => exact ih (h.answerOffline m)

theorem online_opened (settings : SessionSettings) (spare : Spare) (t : Transport) :
    Online (opened settings spare (some t)) t :=
  ⟨rfl, rfl, rfl⟩

end Session

end TileWorld
