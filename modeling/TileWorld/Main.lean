import TileWorld.Play
import TileWorld.Random.ChaCha
import TileWorld.Uuid

/-! `client` and `server` run the two programs. The client plays its session in real time until its
time is over. -/

namespace TileWorld

open CommandLine

/-- Plays one frame after the other; whether the play came to its end, and no frame ended the
program. -/
partial def playFrames (options : ClientOptions) (started : Nat) : Option Play → IO Bool
  | none => return false
  | some p => do
    let time ← IO.monoNanosNow
    let p := p.frame options time
    if Play.isOver options started time then return p.isSome
    IO.sleep (1000 / (max options.fps 1)).toUInt32
    playFrames options started p

def runClient (options : ClientOptions) : IO Bool := do
  let token := (Uuid.ofRandom (← IO.rand 0 (2 ^ 122 - 1))).text
  let spare : Spare := ⟨token, ChaCha.stream (← IO.rand 0 (2 ^ 64 - 1)).toUInt64⟩
  let words := ChaCha.stream (← IO.rand 0 (2 ^ 64 - 1)).toUInt64
  let time ← IO.monoNanosNow
  playFrames options time (Play.start options spare words time)

/-- The exit code where an integer is out of range. -/
def overflowCode : UInt32 := 101

def report (outcome : Outcome) : IO Unit := do
  outcome.stdout.forM fun line => IO.println line
  outcome.stderr.forM fun line => IO.eprintln line

def runProgram (program : Program) (words : List String) : IO UInt32 := do
  report (program.greeting (← IO.getEnv "RUST_LOG"))
  if program = .client then
    if let .ok options := parseClient words then
      if options.canRun then
        unless ← runClient options do return overflowCode
  let outcome := program.conclusion words
  report outcome
  return outcome.exitCode.toUInt32

end TileWorld

def main (words : List String) : IO UInt32 :=
  match words with
  | "client" :: rest => TileWorld.runProgram .client rest
  | "server" :: rest => TileWorld.runProgram .server rest
  | _ => do
    IO.eprintln "usage: client|server [options]"
    return 2
