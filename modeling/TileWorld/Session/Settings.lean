import TileWorld.Duration
import TileWorld.Simulation

/-! # Session settings -/

namespace TileWorld

def defaultServer : String := "ws://127.0.0.1:8080"

structure SessionSettings where
  server : String
  /-- The channel of the offline world until the server names one. -/
  channel : String
  connectTimeout : Duration
  simulation : SimulationSettings

namespace SessionSettings

def standard : SessionSettings := ⟨defaultServer, defaultChannel, .ofMillis 3000, .standard⟩

def new (server channel : String) : SessionSettings := { standard with server, channel }

end SessionSettings

end TileWorld
