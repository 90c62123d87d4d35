import TileWorld.CommandLine.Programs
import TileWorld.Replica
import TileWorld.Session.Basic

/-! A session and the replica that follows it, frame by frame. A step is none where it ends the
program. -/

namespace TileWorld

open CommandLine

def seconds (nanoseconds : Nat) : Float := nanoseconds.toFloat / 1e9

/-- A running client; times are in nanoseconds. -/
structure Play where
  session : Session
  replica : Replica
  words : Words
  lastFrame : Nat
  lastTick : Nat
  lastWander : Nat

namespace Play

def follow (p : Play) (messages : List ServerMessage) (now : Float) : Option Play := do
  let replica ← messages.foldlM (fun r m => (r.tryApply m now).map (·.2)) p.replica
  return { p with replica }

def take (p : Play) (input : Session.Input) (now : Float) : Option Play :=
  let (output, session) := p.session.take input
  { p with session }.follow output.messages now

def wander (p : Play) (now : Float) : Option Play :=
  let (x, words) := p.words.unit
  let (y, words) := words.unit
  let d := p.replica.world.dims
  let (request, replica) := p.replica.requestMove ⟨x * d.width, y * d.height⟩ now
  { p with replica, words }.take (.request request) now

/-- One frame at `time`: what the session says, then motion and decay, then perhaps a move. -/
def frame (p : Play) (options : ClientOptions) (time : Nat) : Option Play := do
  let now := seconds time
  let since (earlier : Nat) := Number.narrow (seconds (time - earlier))
  let p ←
    if options.settings.simulation.tickPeriod.nanoseconds ≤ time - p.lastTick then
      take { p with lastTick := time } (.tick now (since p.lastTick)) now
    else some p
  let updated ← p.replica.tryUpdate (since p.lastFrame) now
  let p := { p with replica := updated.2.2 }
  let p ← match options.wanderSecs with
    | some period =>
      if period ≤ seconds (time - p.lastWander) then wander { p with lastWander := time } now
      else some p
    | none => some p
  return { p with lastFrame := time }

def start (options : ClientOptions) (spare : Spare) (words : Words) (time : Nat) :
    Option Play :=
  let p : Play := ⟨.start options.settings spare, .empty, words, time, time, time⟩
  p.take .unreachable (seconds time)

def isOver (options : ClientOptions) (started time : Nat) : Bool :=
  options.runSecs.any (· ≤ seconds (time - started))

end Play

end TileWorld
