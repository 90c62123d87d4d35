/-! Transports. The two directions end independently; a source of events that goes away reads as a
closed connection. -/

namespace TileWorld

inductive TransportEvent where
  | message (text : String)
  | closed
  | failed (reason : String)
  /-- Frames that had been accepted but could not be sent, in the order of sending. -/
  | unsent (frames : List String) (reason : String)
  deriving DecidableEq, Repr

inductive TransportError where
  | connect (url reason : String)
  | timeout (url : String)
  | closed
  deriving DecidableEq, Repr

def TransportError.message : TransportError → String
  | connect url reason => "failed to connect to " ++ url ++ ": " ++ reason
  | timeout url => "timed out connecting to " ++ url
  | closed => "transport is closed"

structure Transport where
  /-- Frames accepted and not yet taken by the far side. -/
  outbound : List String
  /-- Whether the far side still takes frames. -/
  writable : Bool
  /-- Events not yet taken. -/
  inbound : List TransportEvent
  /-- Whether further events can arrive. -/
  readable : Bool
  deriving DecidableEq, Repr

namespace Transport

def fresh : Transport := ⟨[], true, [], true⟩

def send (t : Transport) (frame : String) : Except TransportError Transport :=
  if t.writable then .ok { t with outbound := t.outbound ++ [frame] } else .error .closed

/-- The next event; none while nothing is queued and more may come. -/
def receive? (t : Transport) : Option (TransportEvent × Transport) :=
  match t.inbound with
  | event :: inbound => some (event, { t with inbound })
  | [] => if t.readable then none else some (.closed, t)

/-- Queues an event; none when nothing can arrive any more. -/
def inject? (t : Transport) (event : TransportEvent) : Option Transport :=
  if t.readable then some { t with inbound := t.inbound ++ [event] } else none

def takeOutbound (t : Transport) : List String × Transport :=
  (t.outbound, { t with outbound := [] })

/-- The far side stops taking frames; those that wait are lost. -/
def closeOutbound (t : Transport) : Transport := { t with outbound := [], writable := false }

def closeInbound (t : Transport) : Transport := { t with readable := false }

end Transport

end TileWorld
