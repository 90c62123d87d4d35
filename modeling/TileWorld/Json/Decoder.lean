import TileWorld.Json.Basic

/-! Records read out of JSON values: an object with named fields, or an array with its fields in the
order of their declaration. -/

namespace TileWorld.Json

/-- The fields of a record in declaration order, none where the value leaves one out. -/
def record? (names : List String) : Json → Option (List (Option Json))
  | .object fields => some (names.map fun name => List.lookup name fields)
  | .array items =>
    if items.length ≤ names.length then
      some (items.map some ++ List.replicate (names.length - items.length) none)
    else none
  | _ => none

def string? : Json → Option String
  | .string s => some s
  | _ => none

def bool? : Json → Option Bool
  | .bool b => some b
  | _ => none

/-- A number in single precision, rounded once from what was written. -/
def single? : Json → Option Float32
  | .int n => some (Number.singleOfInt n)
  | .real x => some (Number.narrow x)
  | _ => none

def real? : Json → Option Float
  | .int n => some (Number.doubleOfInt n)
  | .real x => some x
  | _ => none

def natUpTo? (limit : Nat) : Json → Option Nat
  | .int n => if 0 ≤ n ∧ n ≤ limit then some n.toNat else none
  | _ => none

def count? : Json → Option Nat := natUpTo? (2 ^ 64 - 1)

def byte? (j : Json) : Option UInt8 := (natUpTo? 255 j).map Nat.toUInt8

def list? {α : Type} (item : Json → Option α) : Json → Option (List α)
  | .array items => items.mapM item
  | _ => none

def table? : Json → Option (Table Json)
  | .object fields => some (.ofList fields)
  | _ => none

section Fields

variable {α : Type}

def required (read : Json → Option α) : Option Json → Option α
  | some j => read j
  | none => none

def withDefault (read : Json → Option α) (default : α) : Option Json → Option α
  | some j => read j
  | none => some default

def optional (read : Json → Option α) : Option Json → Option (Option α)
  | none | some .null => some none
  | some j => (read j).map some

end Fields

end TileWorld.Json
