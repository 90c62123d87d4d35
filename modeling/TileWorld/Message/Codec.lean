import TileWorld.Json.Decoder
import TileWorld.Json.Printer
import TileWorld.Message.Basic
import TileWorld.Message.Envelope
import TileWorld.Object.Record

/-! Messages as frames. The type is looked at before the body, so that an unknown type is reported
whatever the body holds. -/

namespace TileWorld

open Json

/-- The message that a frame holds, among the types of one direction. -/
def decodeFrame {α : Type} (types : List String) (ofBody? : String → Json → Option α)
    (text : String) : Except FrameError α :=
  match Envelope.parse? text with
  | none => .error .invalidJson
  | some envelope =>
    if envelope.type ∈ types then
      match ofBody? envelope.type envelope.body with
      | some message => .ok message
      | none => .error (.malformedPayload envelope.type)
    else .error (.unknownType envelope.type)

def encodeFrame (type bodyName : String) (body : List Char → List Char) : String :=
  .ofList (recordOnto [("type", stringOnto type), (bodyName, body)] [])

def Point.waypointOnto (p : Point) : List Char → List Char :=
  recordOnto [("X", singleOnto p.x), ("Y", singleOnto p.y)]

namespace ClientMessage

def bodyOnto : ClientMessage → List Char → List Char
  | move target =>
    recordOnto [("targetX", singleOnto target.x), ("targetY", singleOnto target.y)]
  | chat room text => recordOnto [("roomId", stringOnto room), ("text", stringOnto text)]
  | activate item active =>
    recordOnto [("itemId", stringOnto item), ("active", onto (.bool active))]
  | changeChannel channel => recordOnto [("channelId", stringOnto channel)]

def encode (m : ClientMessage) : String := encodeFrame m.tag "payload" m.bodyOnto

def ofBody? (type : String) (body : Json) : Option ClientMessage :=
  match type with
  | "client_move_request" => do
    match ← body.record? ["targetX", "targetY"] with
    | [x, y] => return .move ⟨← required single? x, ← required single? y⟩
    | _ => none
  | "client_chat_message" => do
    match ← body.record? ["roomId", "text"] with
    | [room, text] => return .chat (← required string? room) (← required string? text)
    | _ => none
  | "item_activation" => do
    match ← body.record? ["itemId", "active"] with
    | [item, active] => return .activate (← required string? item) (← required bool? active)
    | _ => none
  | "client_change_channel_request" => do
    match ← body.record? ["channelId"] with
    | [channel] => return .changeChannel (← required string? channel)
    | _ => none
  | _ => none

def decode (text : String) : Except FrameError ClientMessage :=
  decodeFrame typeNames ofBody? text

end ClientMessage

namespace ServerMessage

def bodyOnto : ServerMessage → List Char → List Char
  | state objects channel =>
    recordOnto <| ("networkObjects", onto (.ofTable objects)) ::
      (channel.map fun c => ("channelId", stringOnto c)).toList
  | assigned player => recordOnto [("playerId", stringOnto player)]
  | route mover path =>
    recordOnto [("playerId", stringOnto mover), ("path", arrayOnto (path.map Point.waypointOnto))]
  | message body => onto body
  | chat body => onto body
  | removed id layer =>
    recordOnto [("objId", stringOnto id), ("objectLayerId", stringOnto layer)]

def encode (m : ServerMessage) : String := encodeFrame m.tag "data" m.bodyOnto

/-- The id of a route, which has two names; a body that uses both is refused. -/
def routeFields? (body : Json) : Option (List (Option Json)) := do
  match body with
  | .object _ =>
    match ← body.record? ["playerId", "entityId", "path"] with
    | [some _, some _, _] => none
    | [player, entity, path] => return [player.or entity, path]
    | _ => none
  | _ => body.record? ["playerId", "path"]

def ofBody? (type : String) (body : Json) : Option ServerMessage :=
  match type with
  | "network_state_update" => do
    match ← body.record? ["networkObjects", "channelId"] with
    | [objects, channel] =>
      return .state (← required table? objects) (← optional string? channel)
    | _ => none
  | "player_assigned" => do
    match ← body.record? ["playerId"] with
    | [player] => return .assigned (← required string? player)
    | _ => none
  | "player_path_update" => do
    match ← routeFields? body with
    | [mover, path] =>
      return .route (← required string? mover) (← required (list? Point.ofJson?) path)
    | _ => none
  | "message" => some (.message body)
  | "server_chat_message" => some (.chat body)
  | "object_removed_from_rendering" => do
    match ← body.record? ["objId", "objectLayerId"] with
    | [id, layer] => return .removed (← required string? id) (← required string? layer)
    | _ => none
  | _ => none

def decode (text : String) : Except FrameError ServerMessage :=
  decodeFrame typeNames ofBody? text

end ServerMessage

end TileWorld
