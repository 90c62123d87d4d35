import TileWorld.Json.Skim

/-! The envelope of a frame: an object with a type and at most one body, `data` or `payload`, or an
array of the two. -/

namespace TileWorld

structure Envelope where
  type : String
  body : Json

namespace Envelope

/-- A field of an envelope in the form of an object. -/
inductive Part where
  | type (name : String)
  | body (value : Json)
  | other

def isBodyName (name : String) : Bool := name == "data" || name == "payload"

def stringValue (cs : List Char) : Option (String × List Char) :=
  match Json.skipBlanks cs with
  | '"' :: cs => (Json.stringBody cs).map fun (text, rest) => (.ofList text, rest)
  | _ => none

/-- The envelope is itself one level of nesting. -/
def bodyValue (bound : Nat) (cs : List Char) : Option (Json × List Char) :=
  Json.value bound (Json.maxDepth - 1) cs

def part (bound : Nat) (cs : List Char) : Option (Part × List Char) := do
  let (name, cs) ← Json.fieldName cs
  if name = "type" then
    let (type, rest) ← stringValue cs
    return (.type type, rest)
  else if isBodyName name then
    let (body, rest) ← bodyValue bound cs
    return (.body body, rest)
  else
    let rest ← Json.skim bound cs
    return (.other, rest)

def Part.type? : Part → Option String
  | type name => some name
  | _ => none

def Part.body? : Part → Option Json
  | body value => some value
  | _ => none

/-- One type and at most one body, in any order. -/
def ofParts? (parts : List Part) : Option Envelope :=
  match parts.filterMap Part.type?, parts.filterMap Part.body? with
  | [type], [] => some ⟨type, .null⟩
  | [type], [body] => some ⟨type, body⟩
  | _, _ => none

def ofItems? : List Json → Option Envelope
  | [.string type] => some ⟨type, .null⟩
  | [.string type, body] => some ⟨type, body⟩
  | _ => none

def read (bound : Nat) (cs : List Char) : Option (Envelope × List Char) :=
  match Json.skipBlanks cs with
  | '\x7b' :: cs => do
    let (parts, rest) ← Json.sequence '\x7d' (part bound) bound cs
    return (← ofParts? parts, rest)
  | '[' :: cs => do
    let (items, rest) ← Json.sequence ']' (bodyValue bound) bound cs
    return (← ofItems? items, rest)
  | _ => none

def parse? (text : String) : Option Envelope :=
  let cs := text.toList
  Json.atEnd (read cs.length cs)

end Envelope

end TileWorld
