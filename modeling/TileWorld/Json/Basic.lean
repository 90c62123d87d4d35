import TileWorld.Table
import TileWorld.Number.Binary

/-! JSON values. Integers and reals are told apart, since a count field takes only the former. -/

namespace TileWorld

inductive Json where
  | null
  | bool (b : Bool)
  | int (n : Int)
  | real (x : Float)
  | string (s : String)
  | array (items : List Json)
  | object (fields : List (String × Json))
  deriving Inhabited

namespace Json

/-- An object from fields in any order; of two with one name the later stays. -/
def ofFields (fields : List (String × Json)) : Json := .object (Entries.ofList fields)

def ofTable (t : Table Json) : Json := .object t.entries

/-- A real number, or null for one that is not finite. -/
def ofReal (x : Float) : Json := if x.isFinite then .real x else .null

def ofSingle (x : Float32) : Json := ofReal (Number.widen x)

end Json

end TileWorld
