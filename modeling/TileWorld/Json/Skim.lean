import TileWorld.Json.Parser

/-! A value that nobody asked for is passed over: it has to be well formed, but may nest to any
depth, and its numbers may have any size. -/

namespace TileWorld.Json

/-- Where the skim stands inside a string. -/
inductive SkimString where
  | plain
  | escape
  | unit (digits : Nat)

def skimString : SkimString → List Char → Option (List Char)
  | _, [] => none
  | .plain, c :: cs =>
    if c = '"' then some cs
    else if c = '\\' then skimString .escape cs
    else if c.toNat < 0x20 then none
    else skimString .plain cs
  | .escape, c :: cs =>
    if c = 'u' then skimString (.unit 0) cs
    else if (unescape? c).isSome then skimString .plain cs
    else none
  | .unit digits, c :: cs =>
    if (hexDigit? c).isNone then none
    else if digits = 3 then skimString .plain cs
    else skimString (.unit (digits + 1)) cs

def skimScalar (cs : List Char) : Option (List Char) :=
  match cs with
  | '"' :: cs => skimString .plain cs
  | 'n' :: cs => word? ['u', 'l', 'l'] cs
  | 't' :: cs => word? ['r', 'u', 'e'] cs
  | 'f' :: cs => word? ['a', 'l', 's', 'e'] cs
  | cs => (numeral cs).map (·.2)

def skimName (cs : List Char) : Option (List Char) :=
  match skipBlanks cs with
  | '"' :: cs => do
    match skipBlanks (← skimString .plain cs) with
    | ':' :: rest => some rest
    | _ => none
  | _ => none

inductive Bracket where
  | square
  | brace
  deriving DecidableEq

def Bracket.close : Bracket → Char
  | .square => ']'
  | .brace => '\x7d'

/-- What has to come next. -/
inductive Expect where
  | value
  /-- The first item or the closing bracket. -/
  | first
  /-- A comma or the closing bracket. -/
  | further

/-- Passes over one value inside the `open` brackets, the innermost first. Every step consumes a
character or decides what that character is, so twice the length of the text is enough. -/
def skimFrom : Nat → List Bracket → Expect → List Char → Option (List Char)
  | 0, _, _, _ => none
  | bound + 1, brackets, .value, cs =>
    match skipBlanks cs with
    | '[' :: cs => skimFrom bound (.square :: brackets) .first cs
    | '\x7b' :: cs => skimFrom bound (.brace :: brackets) .first cs
    | cs =>
      match skimScalar cs with
      | none => none
      | some rest => if brackets.isEmpty then some rest else skimFrom bound brackets .further rest
  | _ + 1, [], .first, _ => none
  | _ + 1, [], .further, _ => none
  | bound + 1, bracket :: outer, .first, cs =>
    match skipBlanks cs with
    | [] => none
    | c :: cs =>
      if c = bracket.close then
        if outer.isEmpty then some cs else skimFrom bound outer .further cs
      else
        match bracket with
        | .square => skimFrom bound (bracket :: outer) .value (c :: cs)
        | .brace =>
          match skimName (c :: cs) with
          | none => none
          | some rest => skimFrom bound (bracket :: outer) .value rest
  | bound + 1, bracket :: outer, .further, cs =>
    match skipBlanks cs with
    | [] => none
    | c :: cs =>
      if c = bracket.close then
        if outer.isEmpty then some cs else skimFrom bound outer .further cs
      else if c = ',' then
        match bracket with
        | .square => skimFrom bound (bracket :: outer) .value cs
        | .brace =>
          match skimName cs with
          | none => none
          | some rest => skimFrom bound (bracket :: outer) .value rest
      else none

/-- The text after a value, whatever it is. -/
def skim (bound : Nat) (cs : List Char) : Option (List Char) :=
  skimFrom (2 * bound + 2) [] .value cs

end TileWorld.Json
