import TileWorld.Message.Basic
import TileWorld.Text.Quoted

/-! # Messages about texts that are no messages -/

namespace TileWorld.FrameError

/-- What is reported; nothing is said about the place of a fault inside a text. -/
def message : FrameError → String
  | invalidJson => "invalid json frame"
  | unknownType name => "unknown message type " ++ Text.quoted name
  | malformedPayload type => "malformed " ++ type ++ " payload"

end TileWorld.FrameError
