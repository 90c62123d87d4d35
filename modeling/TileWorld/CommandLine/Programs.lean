import TileWorld.CommandLine.Help
import TileWorld.CommandLine.Value
import TileWorld.Session.Settings

/-! The client and the server program. No server is ever reached from here, so a client is offline
from the start, and a server finds no address to listen on. -/

namespace TileWorld.CommandLine

structure ClientOptions where
  server : String
  channel : String
  connectTimeoutMs : Nat
  tickMs : Nat
  /-- How often to ask for a random move, in seconds. -/
  wanderSecs : Option Float
  fps : Nat
  /-- When to stop, in seconds. -/
  runSecs : Option Float

structure ServerOptions where
  host : String
  port : Nat
  tickRate : Nat
  channel : String

def anyText (_ : String) : Bool := true

def clientSpecs : List OptionSpec :=
  [⟨"server", some 's', anyText, "WebSocket URL of the world server", some defaultServer⟩,
    ⟨"channel", some 'c', anyText, "Channel to use if the server cannot be reached",
      some defaultChannel⟩,
    ⟨"connect-timeout-ms", none, fun v => (wideNat? v).isSome,
      "Connection handshake bound in milliseconds", some "3000"⟩,
    ⟨"tick-ms", none, fun v => (wideNat? v).isSome,
      "Offline simulation tick period in milliseconds", some "50"⟩,
    ⟨"wander-secs", some 'w', fun v => (real? v).isSome,
      "Issue a random move request this often", none⟩,
    ⟨"fps", none, fun v => (boundedNat? (2 ^ 32 - 1) v).isSome,
      "Frames per second of the headless loop", some "30"⟩,
    ⟨"run-secs", none, fun v => (real? v).isSome,
      "Exit after this many seconds instead of waiting for Ctrl+C", none⟩]

def serverSpecs : List OptionSpec :=
  [⟨"host", some 'H', anyText, "Server IP address to bind to", some "127.0.0.1"⟩,
    ⟨"port", some 'p', fun v => (boundedNat? (2 ^ 16 - 1) v).isSome,
      "Server port to listen on", some "8080"⟩,
    ⟨"tick-rate", some 't', fun v => (boundedNat? (2 ^ 32 - 1) v).isSome,
      "Tick rate (updates per second)", some "20"⟩,
    ⟨"channel", some 'c', anyText, "Channel generated for new connections", some defaultChannel⟩]

def valueOr {α : Type} (given : Given) (long : String) (read : String → Option α) (default : α) :
    α :=
  ((given.lookup long).bind read).getD default

def parseClient (words : List String) : Except Stop ClientOptions := do
  let given ← parse clientSpecs words
  return {
    server := valueOr given "server" some defaultServer
    channel := valueOr given "channel" some defaultChannel
    connectTimeoutMs := valueOr given "connect-timeout-ms" wideNat? 3000
    tickMs := valueOr given "tick-ms" wideNat? 50
    wanderSecs := (given.lookup "wander-secs").bind real?
    fps := valueOr given "fps" (boundedNat? (2 ^ 32 - 1)) 30
    runSecs := (given.lookup "run-secs").bind real? }

def parseServer (words : List String) : Except Stop ServerOptions := do
  let given ← parse serverSpecs words
  return {
    host := valueOr given "host" some "127.0.0.1"
    port := valueOr given "port" (boundedNat? (2 ^ 16 - 1)) 8080
    tickRate := valueOr given "tick-rate" (boundedNat? (2 ^ 32 - 1)) 20
    channel := valueOr given "channel" some defaultChannel }

namespace ClientOptions

def settings (o : ClientOptions) : SessionSettings :=
  { SessionSettings.new o.server o.channel with
    connectTimeout := .ofMillis o.connectTimeoutMs
    simulation := { SimulationSettings.standard with tickPeriod := .ofMillis (max o.tickMs 1) } }

/-- Frames beyond two in a nanosecond would last no time at all. -/
def canRun (o : ClientOptions) : Bool := o.fps ≤ 2000000000

end ClientOptions

inductive Program where
  | client
  | server
  deriving DecidableEq, Repr

namespace Program

def name : Program → String
  | client => "client"
  | server => "server"

def about : Program → Option String
  | client => none
  | server =>
    some "Development server: serves a private local simulation to each WebSocket client"

def specs : Program → List OptionSpec
  | client => clientSpecs
  | server => serverSpecs

end Program

/-- What a finished run leaves behind. -/
structure Outcome where
  exitCode : UInt8
  stdout : List String
  stderr : List String
  deriving DecidableEq, Repr

def Stop.message : Stop → String
  | help | version => ""
  | unexpected word => "unexpected argument '" ++ word ++ "' found"
  | missing option => "a value is required for '" ++ option ++ "' but none was supplied"
  | repeated option => "the argument '" ++ option ++ "' cannot be used multiple times"
  | invalid option value => "invalid value '" ++ value ++ "' for '" ++ option ++ "'"

def Stop.outcome (stop : Stop) (program : Program) : Outcome :=
  match stop with
  | .help => ⟨0, CommandLine.help program.name program.about program.specs, []⟩
  | .version => ⟨0, [program.name ++ " 0.1.0"], []⟩
  | stop =>
    ⟨2, [], ["error: " ++ stop.message, "", usage program.name, "",
      "For more information, try '--help'."]⟩

namespace Program

def greeting (program : Program) (logLevel : Option String) : Outcome :=
  match program, logLevel with
  | _, some _ => ⟨0, [], []⟩
  | client, none => ⟨0, [], ["Set RUST_LOG=info for detailed logging"]⟩
  | server, none => ⟨0, ["Tip: Set RUST_LOG=info for detailed logging"], []⟩

/-- How a program ends after a command line without faults, once a client's time is over. -/
def conclusion (program : Program) (words : List String) : Outcome :=
  match program with
  | client =>
    match parseClient words with
    | .error stop => stop.outcome client
    | .ok options => if options.canRun then ⟨0, [], []⟩ else ⟨101, [], []⟩
  | server =>
    match parseServer words with
    | .error stop => stop.outcome server
    | .ok options =>
      ⟨1, [], ["error: cannot listen on " ++ options.host ++ ":" ++ toString options.port]⟩

def outcome (program : Program) (logLevel : Option String) (words : List String) : Outcome :=
  let first := program.greeting logLevel
  let last := program.conclusion words
  ⟨last.exitCode, first.stdout ++ last.stdout, first.stderr ++ last.stderr⟩

end Program

end TileWorld.CommandLine
