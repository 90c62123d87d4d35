import TileWorld.Main
import TileWorld.World.Reconcile
import TileWorld.Message.Error
import TileWorld.Object.Error
import TileWorld.World.Lemmas
import TileWorld.Proofs.World.Operation
import TileWorld.Proofs.World.Checked
import TileWorld.Proofs.World.Filing
import TileWorld.Proofs.Maze.Walk
import TileWorld.Proofs.World.Reconcile
import TileWorld.Proofs.Channel.Population
import TileWorld.Proofs.World.Routed
import TileWorld.Proofs.Simulation.Routed
import TileWorld.Proofs.Session.Run
import TileWorld.Proofs.Session.Failover
import TileWorld.Proofs.Session.Course
import TileWorld.Proofs.Session.Stream
import TileWorld.Proofs.Session.Requests
import TileWorld.Proofs.Number.Exact
import TileWorld.Proofs.Number.Widen
import TileWorld.Proofs.Object.Wire
import TileWorld.Proofs.Channel.Spawn
import TileWorld.Proofs.Simulation.Tellable
import TileWorld.Proofs.Replica.Mirror
import TileWorld.Proofs.Replica.Equipment
import TileWorld.Proofs.World.Convergence
import TileWorld.Proofs.Replica.Run
import TileWorld.Proofs.Replica.Fresh
import TileWorld.Proofs.Replica.Account
import TileWorld.Proofs.Json.Number
import TileWorld.Proofs.Json.RoundTrip
import TileWorld.Proofs.Message.RoundTrip
import TileWorld.Proofs.Replica.Lifetime
import TileWorld.Proofs.World.Replay
import TileWorld.Proofs.Text.Naming
import TileWorld.Proofs.Simulation.Replacement
import TileWorld.Proofs.Simulation.Wandering
import TileWorld.Proofs.Simulation.Cadence
import TileWorld.Proofs.World.WellFormed
import TileWorld.Proofs.Session.Coherence
import TileWorld.Proofs.Maze.Shortest
import TileWorld.Proofs.World.Integration
import TileWorld.Proofs.Simulation.Report
import TileWorld.Proofs.Object.RoundTrip
import TileWorld.Proofs.Maze.Turns
import TileWorld.Proofs.World.Decay
import TileWorld.Proofs.Simulation.Response
import TileWorld.Proofs.Simulation.Overflow
import TileWorld.Proofs.Maze.Footprint
import TileWorld.Proofs.Message.Classification
import TileWorld.Proofs.World.Occupancy
import TileWorld.Proofs.Object.Waypoints
import TileWorld.Proofs.Replica.Route
import TileWorld.Proofs.Simulation.Toggling
import TileWorld.Proofs.Maze.Expansion
import TileWorld.Proofs.Channel.Walls
import TileWorld.Proofs.Channel.Sampling
import TileWorld.Proofs.Object.Steering
import TileWorld.Proofs.Maze.BlockedCells
