import TileWorld.Number.Binary

/-! Decimal numerals, read in two rounded steps: the leading digits that fit 64 bits make a
significand, which is scaled by one power of ten. -/

namespace TileWorld.Number

structure Literal where
  negative : Bool
  whole : List Nat
  fraction : Option (List Nat)
  exponent : Option Int
  deriving Repr

/-- The number that a numeral stands for. -/
inductive Reading where
  | integer (n : Int)
  | real (x : Float)

/-- The leading digits that fit 64 bits, and how many digits are left over. -/
def wholeSignificand : Nat → List Nat → Nat × Nat
  | n, [] => (n, 0)
  | n, d :: ds =>
    if n * 10 + d < 2 ^ 64 then wholeSignificand (n * 10 + d) ds else (n, ds.length + 1)

/-- The significand continued by fraction digits while it fits 64 bits, and how many it took. -/
def fractionSignificand : Nat → List Nat → Nat × Nat
  | n, [] => (n, 0)
  | n, d :: ds =>
    if n * 10 + d < 2 ^ 64 then
      let (m, taken) := fractionSignificand (n * 10 + d) ds
      (m, taken + 1)
    else (n, 0)

def powerOfTen (n : Nat) : Float := .ofScientific 1 false n

/-- `significand · 10 ^ exponent` with one rounding per step; none beyond the finite range. Below
`10 ^ -308` the scaling takes two divisions, and after three nothing is left. -/
def scaled? (significand : Nat) (exponent : Int) : Option Float :=
  let x := significand.toUInt64.toFloat
  if significand = 0 then some x
  else if 308 < exponent then none
  else if 0 ≤ exponent then
    let y := x * powerOfTen exponent.toNat
    if y.isFinite then some y else none
  else if -308 ≤ exponent then some (x / powerOfTen (-exponent).toNat)
  else if -616 ≤ exponent then some (x / powerOfTen 308 / powerOfTen (-exponent - 308).toNat)
  else some 0

namespace Literal

def real? (l : Literal) : Option Float :=
  let (whole, left) := wholeSignificand 0 l.whole
  let (significand, taken) := fractionSignificand whole (l.fraction.getD [])
  let exponent : Int := left - taken + l.exponent.getD 0
  (scaled? significand exponent).map fun x => if l.negative then -x else x

/-- The value of a numeral. A negative zero without a fraction is still the real `-0.0`. -/
def reading? (l : Literal) : Option Reading :=
  let (whole, left) := wholeSignificand 0 l.whole
  if l.fraction.isNone ∧ l.exponent.isNone ∧ left = 0
      ∧ (l.negative → 0 < whole ∧ whole ≤ 2 ^ 63) then
    some (.integer (if l.negative then -whole else whole))
  else l.real?.map .real

end Literal

def digit? (c : Char) : Option Nat :=
  if '0' ≤ c ∧ c ≤ '9' then some (c.toNat - '0'.toNat) else none

def digits : List Char → List Nat × List Char
  | [] => ([], [])
  | c :: cs =>
    match digit? c with
    | some d => let (ds, rest) := digits cs; (d :: ds, rest)
    | none => ([], c :: cs)

def ofDigits (ds : List Nat) : Nat := ds.foldl (fun n d => n * 10 + d) 0

end TileWorld.Number
