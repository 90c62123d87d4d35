import TileWorld.Text.Blank

/-! # Kinds of objects and their defaults -/

namespace TileWorld

inductive Kind where
  | player
  | wall
  | questGiver
  | pathPoint
  | clickPointer
  deriving DecidableEq, Repr, Inhabited

structure Color where
  red : UInt8
  green : UInt8
  blue : UInt8
  alpha : UInt8
  deriving DecidableEq, Repr, Inhabited

def playerSpeed : Float32 := 160

def agentSpeed : Float32 := 90

namespace Kind

def all : List Kind := [player, wall, questGiver, pathPoint, clickPointer]

def name : Kind → String
  | player => "PLAYER"
  | wall => "WALL"
  | questGiver => "BOT-QUEST-PROVIDER"
  | pathPoint => "POINT_PATH"
  | clickPointer => "CLICK_POINTER"

/-- The layers of an object that names none itself. -/
def defaultLayers : Kind → List String
  | player => ["anon", "tunic-basic"]
  | wall => ["wall-stone"]
  | questGiver => ["quest-giver", "lantern"]
  | pathPoint => ["path-point"]
  | clickPointer => ["click-pointer"]

def defaultSpeed : Kind → Float32
  | player => playerSpeed
  | questGiver => agentSpeed
  | _ => 0

def defaultColor : Kind → Color
  | player => ⟨70, 200, 90, 255⟩
  | wall => ⟨110, 110, 120, 255⟩
  | questGiver => ⟨230, 180, 40, 255⟩
  | pathPoint => ⟨255, 255, 255, 160⟩
  | clickPointer => ⟨255, 80, 80, 200⟩

def isMarker : Kind → Bool
  | pathPoint | clickPointer => true
  | _ => false

/-- Names are compared without regard to the case of ASCII letters, a hyphen counting as an
underscore. -/
def fold (cs : List Char) : List Char :=
  cs.map fun c => if c = '-' then '_' else c.toUpper

def ofName? (s : String) : Option Kind :=
  all.find? fun k => fold k.name.toList == fold (Text.trim s.toList)

theorem ofName?_name (k : Kind) : ofName? k.name = some k := by
  cases k <;> decide

end Kind

end TileWorld
