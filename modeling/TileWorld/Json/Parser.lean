import TileWorld.Json.Basic
import TileWorld.Json.Escape
import TileWorld.Number.Literal

/-! A strict reader of JSON: no comments, no trailing commas, no text after the value, and a bound
on nesting. -/

namespace TileWorld.Json

def isBlank (c : Char) : Bool := c == ' ' || c == '\t' || c == '\n' || c == '\r'

def skipBlanks (cs : List Char) : List Char := cs.dropWhile isBlank

def word? : List Char → List Char → Option (List Char)
  | [], cs => some cs
  | _ :: _, [] => none
  | w :: ws, c :: cs => if w = c then word? ws cs else none

/-- At least one digit. -/
def digitRun (cs : List Char) : Option (List Nat × List Char) :=
  match Number.digits cs with
  | ([], _) => none
  | run => some run

def wholeDigits (cs : List Char) : Option (List Nat × List Char) :=
  match Number.digits cs with
  | ([], _) => none
  | (0 :: _ :: _, _) => none
  | run => some run

def fractionDigits (cs : List Char) : Option (Option (List Nat) × List Char) :=
  match cs with
  | '.' :: cs => (digitRun cs).map fun (ds, rest) => (some ds, rest)
  | cs => some (none, cs)

def exponentSign (cs : List Char) : Bool × List Char :=
  match cs with
  | '-' :: cs => (true, cs)
  | '+' :: cs => (false, cs)
  | cs => (false, cs)

def exponentDigits (cs : List Char) : Option (Option Int × List Char) :=
  match cs with
  | [] => some (none, [])
  | c :: cs =>
    if c = 'e' ∨ c = 'E' then
      let (negative, cs) := exponentSign cs
      (digitRun cs).map fun (ds, rest) =>
        let n : Int := Number.ofDigits ds
        (some (if negative then -n else n), rest)
    else some (none, c :: cs)

def numeral (cs : List Char) : Option (Number.Literal × List Char) := do
  let (negative, cs) := match cs with
    | '-' :: cs => (true, cs)
    | cs => (false, cs)
  let (whole, cs) ← wholeDigits cs
  let (fraction, cs) ← fractionDigits cs
  let (exponent, cs) ← exponentDigits cs
  return (⟨negative, whole, fraction, exponent⟩, cs)

def ofReading : Number.Reading → Json
  | .integer n => .int n
  | .real x => .real x

/-- A value that is neither array nor object. -/
def scalar (cs : List Char) : Option (Json × List Char) :=
  match cs with
  | '"' :: cs => (stringBody cs).map fun (text, rest) => (.string (.ofList text), rest)
  | 'n' :: cs => (word? ['u', 'l', 'l'] cs).map fun rest => (.null, rest)
  | 't' :: cs => (word? ['r', 'u', 'e'] cs).map fun rest => (.bool true, rest)
  | 'f' :: cs => (word? ['a', 'l', 's', 'e'] cs).map fun rest => (.bool false, rest)
  | cs => do
    let (literal, rest) ← numeral cs
    let reading ← literal.reading?
    return (ofReading reading, rest)

section Sequences

variable {α : Type}

/-- Items after the first, each behind a comma, up to the closing character. At most `bound`
steps are taken; the length of the text is always enough. -/
def furtherItems (close : Char) (item : List Char → Option (α × List Char)) :
    Nat → List α → List Char → Option (List α × List Char)
  | 0, _, _ => none
  | bound + 1, done, cs =>
    match skipBlanks cs with
    | [] => none
    | c :: cs =>
      if c = close then some (done.reverse, cs)
      else if c = ',' then
        match item cs with
        | none => none
        | some (a, rest) => furtherItems close item bound (a :: done) rest
      else none

/-- Items between commas, up to the closing character. -/
def sequence (close : Char) (item : List Char → Option (α × List Char)) (bound : Nat)
    (cs : List Char) : Option (List α × List Char) :=
  match skipBlanks cs with
  | [] => none
  | c :: cs =>
    if c = close then some ([], cs)
    else
      match item (c :: cs) with
      | none => none
      | some (a, rest) => furtherItems close item bound [a] rest

def fieldName (cs : List Char) : Option (String × List Char) :=
  match skipBlanks cs with
  | '"' :: cs => do
    let (name, cs) ← stringBody cs
    match skipBlanks cs with
    | ':' :: rest => return (.ofList name, rest)
    | _ => none
  | _ => none

def namedItem (item : List Char → Option (α × List Char)) (cs : List Char) :
    Option ((String × α) × List Char) := do
  let (name, cs) ← fieldName cs
  let (a, rest) ← item cs
  return ((name, a), rest)

end Sequences

/-- A value with at most `depth` arrays and objects inside each other. -/
def value (bound : Nat) : Nat → List Char → Option (Json × List Char)
  | 0, cs => scalar (skipBlanks cs)
  | depth + 1, cs =>
    match skipBlanks cs with
    | '[' :: cs =>
      (sequence ']' (value bound depth) bound cs).map fun (items, rest) => (.array items, rest)
    | '\x7b' :: cs =>
      (sequence '\x7d' (namedItem (value bound depth)) bound cs).map fun (fields, rest) =>
        (ofFields fields, rest)
    | cs => scalar cs

/-- How deep arrays and objects may nest in a frame. -/
def maxDepth : Nat := 127

def atEnd {α : Type} : Option (α × List Char) → Option α
  | some (a, rest) => if (skipBlanks rest).isEmpty then some a else none
  | none => none

def parse? (text : String) : Option Json :=
  let cs := text.toList
  atEnd (value cs.length maxDepth cs)

end TileWorld.Json
