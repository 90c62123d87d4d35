import TileWorld.Geometry
import TileWorld.Json.Basic

/-! # Messages of clients and servers -/

namespace TileWorld

inductive ClientMessage where
  | move (target : Point)
  | chat (room text : String)
  | activate (item : String) (active : Bool)
  | changeChannel (channel : String)

/-- The objects of a state stay JSON values, so that each one is read, and perhaps refused, on its
own; chat and other messages have a body of any form. -/
inductive ServerMessage where
  | state (objects : Table Json) (channel : Option String)
  | assigned (player : String)
  | route (mover : String) (path : List Point)
  | message (body : Json)
  | chat (body : Json)
  | removed (id layer : String)

inductive FrameError where
  | invalidJson
  | unknownType (name : String)
  | malformedPayload (type : String)
  deriving DecidableEq, Repr

/-- A name in lower case, with an underscore in front of every capital letter but the first. -/
def snakeCase (name : String) : String :=
  .ofList (name.toList.zipIdx.flatMap fun (c, i) =>
    if 0 < i ∧ c.isUpper then ['_', c.toLower] else [c.toLower])

namespace ClientMessage

def typeNames : List String :=
  ["client_move_request", "client_chat_message", "item_activation",
    "client_change_channel_request"]

def typeName : ClientMessage → String
  | move _ => "client_move_request"
  | chat _ _ => "client_chat_message"
  | activate _ _ => "item_activation"
  | changeChannel _ => "client_change_channel_request"

def kind : ClientMessage → String
  | move _ => "ClientMoveRequest"
  | chat _ _ => "ClientChatMessage"
  | activate _ _ => "ItemActivation"
  | changeChannel _ => "ClientChangeChannelRequest"

/-- What a frame of the message names as its type. -/
def tag (m : ClientMessage) : String := snakeCase m.kind

theorem tag_eq_typeName (m : ClientMessage) : m.tag = m.typeName := by
  cases m <;> simp [tag, kind, snakeCase, typeName]

theorem typeName_mem_typeNames (m : ClientMessage) : m.typeName ∈ typeNames := by
  cases m <;> simp [typeName, typeNames]

end ClientMessage

namespace ServerMessage

def typeNames : List String :=
  ["network_state_update", "player_assigned", "player_path_update", "message",
    "server_chat_message", "object_removed_from_rendering"]

def typeName : ServerMessage → String
  | state _ _ => "network_state_update"
  | assigned _ => "player_assigned"
  | route _ _ => "player_path_update"
  | message _ => "message"
  | chat _ => "server_chat_message"
  | removed _ _ => "object_removed_from_rendering"

def kind : ServerMessage → String
  | state _ _ => "NetworkStateUpdate"
  | assigned _ => "PlayerAssigned"
  | route _ _ => "PlayerPathUpdate"
  | message _ => "Message"
  | chat _ => "ServerChatMessage"
  | removed _ _ => "ObjectRemovedFromRendering"

/-- What a frame of the message names as its type. -/
def tag (m : ServerMessage) : String := snakeCase m.kind

theorem tag_eq_typeName (m : ServerMessage) : m.tag = m.typeName := by
  cases m <;> simp [tag, kind, snakeCase, typeName]

theorem typeName_mem_typeNames (m : ServerMessage) : m.typeName ∈ typeNames := by
  cases m <;> simp [typeName, typeNames]

end ServerMessage

end TileWorld
