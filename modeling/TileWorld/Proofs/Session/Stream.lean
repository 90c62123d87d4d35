import TileWorld.Proofs.Session.Course
import TileWorld.Proofs.Simulation.Routed

/-! What a consumer is given: messages of the server, the announcement of an offline world, and what
its simulation answers. -/

namespace TileWorld

open Simulation

/-- The first messages of a simulation: who the player is, and a state of persistent objects. -/
structure Announced (sim : Simulation) (channel : String) (messages : List ServerMessage) :
    Prop where
  exists_player : ∃ player, sim.player = some player ∧
    sim.world.snapshot.contains player = true ∧
    messages = [.assigned player, .state sim.world.snapshot (some channel)]
  channel : sim.channel = channel
  persistent : ∀ id entry, sim.world.snapshot.find? id = some entry →
    ∃ o : Object, o.id = id ∧ o.persistent = true ∧ entry = o.toJson

theorem announced_bootstrap (s : Simulation) (channel token : String) :
    Announced (s.bootstrap channel token).2 channel (s.bootstrap channel token).1 := by
  let entering : Simulation := { s with channel, player := some ("player-" ++ token) }
  have hworld : (s.bootstrap channel token).2 = entering.repopulate ("player-" ++ token) := rfl
  refine ⟨⟨"player-" ++ token, rfl, ?_, rfl⟩, rfl, ?_⟩
  · obtain ⟨o, ho⟩ := exists_find?_player_repopulate entering ("player-" ++ token)
    rw [Table.contains, World.find?_snapshot, hworld, ho]
    simp [Option.filter, (fresh_of_find?_repopulate ho).persistent]
  · intro id entry hentry
    rw [World.find?_snapshot, hworld, Option.map_eq_some_iff] at hentry
    obtain ⟨o, ho, rfl⟩ := hentry
    obtain ⟨ho, hpersistent⟩ := Option.filter_eq_some_iff.mp ho
    exact ⟨o, (mem_of_find?_repopulate ho).2, hpersistent, rfl⟩

namespace Session

variable {s : Session} {t u : Transport}

/-- A text that is no message goes the way of all events, and leaves no other trace. -/
theorem take_event_of_undecodable {text : String} {e : FrameError}
    (htransport : s.transport = some t) (hreceive : t.receive? = some (.message text, u))
    (hdecode : ServerMessage.decode text = .error e) :
    s.take .event = (.none, { s with transport := some u }) := by
  simp [Session.take, Session.receive?, htransport, hreceive, react, hdecode]

/-- The messages of the server, then the announcement of a world, then its answers. -/
theorem exists_stream (settings : SessionSettings) (spare : Spare)
    (connection : Option Transport) (steps : List Step) :
    let s := opened settings spare connection
    ∃ online asked, Course s steps online asked ∧
      s.taken online <+: s.queued online ∧
      s.taken steps = s.taken online ++ ((s.firstFault? steps).bind Fault.event?).toList ∧
      (∃ announced answers,
        (output settings spare connection steps).messages =
          s.heard online ++ announced ++ answers ∧
        match asked with
        | none => announced = [] ∧ answers = []
        | some calls => ∃ sim,
            Announced sim (lastChannel settings.channel (s.heard online)) announced ∧
            answers = sim.transcript calls ∧
            (s.after steps).simulation = some (sim.run calls)) ∧
      ∀ before text e t u, (s.after before).transport = some t →
        t.receive? = some (.message text, u) → ServerMessage.decode text = .error e →
        (s.after before).take .event = (.none, { s.after before with transport := some u }) := by
  intro s
  obtain ⟨online, asked, hcourse⟩ := exists_course settings spare connection steps
  have houtcome := hcourse.outcome
  refine ⟨online, asked, hcourse, houtcome.taken.1, houtcome.taken.2, ?_, ?_⟩
  · cases asked with
    | none => exact ⟨[], [], houtcome.messages.trans (List.append_nil _).symm, rfl, rfl⟩
    | some calls =>
        refine ⟨_, _, houtcome.messages.trans ?_, _, announced_bootstrap _ _ _, rfl,
          houtcome.simulation⟩
        simp [offlineWorld, List.append_assoc, s]
  · intro before text e t u htransport hreceive hdecode
    exact take_event_of_undecodable htransport hreceive hdecode

end Session

end TileWorld
