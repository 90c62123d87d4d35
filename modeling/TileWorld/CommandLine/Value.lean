import TileWorld.Number.Literal

/-! # Numbers on the command line -/

namespace TileWorld.CommandLine

def sign (cs : List Char) : Option Char × List Char :=
  match cs with
  | '+' :: cs => (some '+', cs)
  | '-' :: cs => (some '-', cs)
  | cs => (none, cs)

def allDigits? (cs : List Char) : Option Nat :=
  match Number.digits cs with
  | (d :: ds, []) => some (Number.ofDigits (d :: ds))
  | _ => none

def boundedNat? (limit : Nat) (text : String) : Option Nat :=
  let (sign, cs) := sign text.toList
  match allDigits? cs with
  | some n => if (sign ≠ some '-' ∨ n = 0) ∧ n ≤ limit then some n else none
  | none => none

/-- A whole number of at most 64 bits, which may have a plus sign but no minus sign. -/
def wideNat? (text : String) : Option Nat :=
  if (sign text.toList).1 = some '-' then none else boundedNat? (2 ^ 64 - 1) text

def exponent? (cs : List Char) : Option Int :=
  match cs with
  | [] => some 0
  | c :: cs =>
    if c = 'e' ∨ c = 'E' then
      let (sign, cs) := sign cs
      (allDigits? cs).map fun n => if sign = some '-' then -(n : Int) else n
    else none

/-- Digits with a point before, between or behind them, and an optional exponent. -/
def magnitude? (cs : List Char) : Option Float := do
  let (whole, cs) := Number.digits cs
  let (fraction, cs) := match cs with
    | '.' :: cs => Number.digits cs
    | cs => ([], cs)
  if whole.isEmpty && fraction.isEmpty then none
  else
    let e := (← exponent? cs) - fraction.length
    return .ofScientific (Number.ofDigits (whole ++ fraction)) (e < 0) e.natAbs

def real? (text : String) : Option Float := do
  let (sign, cs) := sign text.toList
  let word := String.ofList (cs.map Char.toLower)
  let x ←
    if word = "inf" ∨ word = "infinity" then some (1 / 0)
    else if word = "nan" then some (0 / 0)
    else magnitude? cs
  return if sign = some '-' then -x else x

end TileWorld.CommandLine
