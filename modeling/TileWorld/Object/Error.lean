import TileWorld.Object.Basic
import TileWorld.Text.Quoted

/-! # Messages about objects that cannot exist -/

namespace TileWorld.ObjectError

def message : ObjectError → String
  | fleetingObstacle id => "obstacle " ++ id ++ " must be persistent"
  | unknownKind name => "unknown object type " ++ Text.quoted name
  | cursorOutOfRange cursor length =>
    "path index " ++ toString cursor ++ " out of range for path of length " ++ toString length
  | notFinite id => "malformed object: " ++ id ++ " has a non-finite position"

end TileWorld.ObjectError
