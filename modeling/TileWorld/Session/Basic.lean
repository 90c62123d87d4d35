import TileWorld.Message.Codec
import TileWorld.Session.Settings
import TileWorld.Session.Transport

/-! A session stands between a consumer and a server. Going offline is final; a local simulation
then answers in the server's place. -/

namespace TileWorld

inductive Mode where
  | connecting
  | online
  | offline
  deriving DecidableEq, Repr

def Mode.name : Mode → String
  | connecting => "Connecting"
  | online => "Online"
  | offline => "Offline"

inductive SessionError where
  | stopped
  | notReady (bound : Duration)
  deriving DecidableEq, Repr

def SessionError.message : SessionError → String
  | stopped => "proxy task has stopped"
  | notReady bound => "proxy not ready after " ++ bound.text

/-- What the offline world will be made from: the token of its player and its random words. -/
structure Spare where
  token : String
  words : Words

structure Session where
  settings : SessionSettings
  mode : Mode
  /-- The mode that the consumer sees. -/
  published : Mode
  transport : Option Transport
  simulation : Option Simulation
  /-- The last channel that the server named. -/
  channel : String
  spare : Spare

/-- What a step gives away: messages for the consumer and frames for the server. -/
structure Output where
  messages : List ServerMessage
  frames : List String

namespace Output

def none : Output := ⟨[], []⟩

def ofMessages (messages : List ServerMessage) : Output := ⟨messages, []⟩

def append (a b : Output) : Output := ⟨a.messages ++ b.messages, a.frames ++ b.frames⟩

instance : Append Output := ⟨append⟩

end Output

namespace Session

def start (settings : SessionSettings) (spare : Spare) : Session where
  settings := settings
  mode := .connecting
  published := .connecting
  transport := none
  simulation := none
  channel := settings.channel
  spare := spare

def setMode (s : Session) (mode : Mode) : Session := { s with mode, published := mode }

/-- Lets go of the transport, with all that is still queued on it, and bootstraps the offline
world. Nothing happens to a session that is offline already. -/
def goOffline (s : Session) : Output × Session :=
  if s.mode = .offline then (.none, s)
  else
    let fresh := Simulation.new s.settings.simulation s.spare.words
    let (messages, simulation) := fresh.bootstrap s.channel s.spare.token
    (.ofMessages messages,
      { s with transport := none, simulation := some simulation }.setMode .offline)

/-- Lets the simulation answer a request; without one the request is dropped. -/
def answerOffline (s : Session) (m : ClientMessage) : Output × Session :=
  match s.simulation with
  | some simulation =>
    let (messages, simulation) := simulation.handle m
    (.ofMessages messages, { s with simulation := some simulation })
  | none => (.none, s)

def answerAllOffline : Session → List ClientMessage → Output × Session
  | s, [] => (.none, s)
  | s, m :: rest =>
    let (first, s) := s.answerOffline m
    let (further, s) := s.answerAllOffline rest
    (first ++ further, s)

/-- Sends a request to the server, or answers it here. The request whose sending fails is answered
here, right after the offline world was announced. -/
def request (s : Session) (m : ClientMessage) : Output × Session :=
  match s.transport with
  | none => s.answerOffline m
  | some transport =>
    let frame := m.encode
    match transport.send frame with
    | .ok transport => (⟨[], [frame]⟩, { s with transport := some transport })
    | .error _ =>
      let (announced, s) := s.goOffline
      let (answered, s) := s.answerOffline m
      (announced ++ answered, s)

def remember (s : Session) (m : ServerMessage) : Session :=
  match m with
  | .state _ (some channel) => { s with channel }
  | _ => s

/-- Deals with an event of the transport. A text that is no message is dropped; accepted frames
that come back are answered here. -/
def react (s : Session) (event : TransportEvent) : Output × Session :=
  match event with
  | .message text =>
    match ServerMessage.decode text with
    | .ok m => (.ofMessages [m], s.remember m)
    | .error _ => (.none, s)
  | .closed | .failed _ => s.goOffline
  | .unsent frames _ =>
    let (announced, s) := s.goOffline
    let (answered, s) := s.answerAllOffline <|
      frames.filterMap fun frame => (ClientMessage.decode frame).toOption
    (announced ++ answered, s)

/-- Takes the next event of the transport, none if there is nothing to take. -/
def receive? (s : Session) : Option (Output × Session) := do
  let (event, transport) ← (← s.transport).receive?
  return { s with transport := some transport }.react event

/-- A tick of the offline clock, `elapsed` seconds after the last one. -/
def tick (s : Session) (now : Float) (elapsed : Float32) : Output × Session :=
  match s.mode, s.simulation with
  | .offline, some simulation =>
    let dt := if elapsed < maxTickStep then elapsed else maxTickStep
    let (messages, simulation) := simulation.tick now dt
    (.ofMessages messages, { s with simulation := some simulation })
  | _, _ => (.none, s)

def onTransport (s : Session) (change : Transport → Transport) : Session :=
  { s with transport := s.transport.map change }

/-- What happens to a session, one at a time and in any order. The last three are done by the far
side to the transport, if it is still held, and the session does not notice them by themselves. -/
inductive Input where
  | connected (transport : Transport)
  | unreachable
  | request (m : ClientMessage)
  | event
  | tick (now : Float) (elapsed : Float32)
  | arrival (event : TransportEvent)
  | closedOutbound
  | closedInbound

def take (s : Session) : Input → Output × Session
  | .connected transport => (.none, { s with transport := some transport }.setMode .online)
  | .unreachable => s.goOffline
  | .request m => s.request m
  | .event => s.receive?.getD (.none, s)
  | .tick now elapsed => s.tick now elapsed
  | .arrival event => (.none, s.onTransport fun t => (t.inject? event).getD t)
  | .closedOutbound => (.none, s.onTransport Transport.closeOutbound)
  | .closedInbound => (.none, s.onTransport Transport.closeInbound)

def run : Session → List Input → Output × Session
  | s, [] => (.none, s)
  | s, input :: rest =>
    let (first, s) := s.take input
    let (further, s) := s.run rest
    (first ++ further, s)

/-- Takes events until none is left. Every event but the last close comes from the queue, and no
transport is left after that one. -/
def drain (s : Session) : Output × Session :=
  s.run (List.replicate ((s.transport.map (·.inbound.length)).getD 0 + 1) .event)

end Session

end TileWorld
