import TileWorld.Number.Binary

/-! The shortest decimal that reads back as a word: a point of the coarsest decimal grid that meets
the interval around the word. -/

namespace TileWorld.Number

/-- A positive decimal `digits · 10 ^ exponent`. -/
structure Decimal where
  digits : Nat
  exponent : Int
  deriving DecidableEq, Repr

/-- The value `mantissa · 2 ^ exponent` between the ends of its rounding interval, all three in
quarters of the last mantissa bit. -/
structure Neighbourhood where
  low : Nat
  value : Nat
  high : Nat
  /-- The exponent of a quarter of the last mantissa bit. -/
  exponent : Int
  closed : Bool
  deriving Repr

namespace Neighbourhood

/-- Below a power of two the next word is only half as far away. -/
def ofFinite (f : Format) (mantissa : Nat) (exponent : Int) : Neighbourhood :=
  let narrowBelow := mantissa = 2 ^ f.fractionBits ∧ f.minExponent < exponent
  { low := 4 * mantissa - (if narrowBelow then 1 else 2)
    value := 4 * mantissa
    high := 4 * mantissa + 2
    exponent := exponent - 2
    closed := mantissa % 2 == 0 }

/-- The factors `a` and `b` for which `d · 10 ^ k` compares with `x · 2 ^ exponent` as `d * a`
compares with `x * b`. -/
def scales (n : Neighbourhood) (k : Int) : Nat × Nat :=
  (10 ^ k.toNat * 2 ^ (-n.exponent).toNat, 10 ^ (-k).toNat * 2 ^ n.exponent.toNat)

/-- Whether `d · 10 ^ k`, already scaled to `point`, reads back. -/
def holds (n : Neighbourhood) (b point : Nat) : Bool :=
  if n.closed then n.low * b ≤ point && point ≤ n.high * b
  else n.low * b < point && point < n.high * b

/-- The point of the grid `10 ^ k` that reads back and is nearest to the value, an exact half
going to the even one; none while the grid is coarser than the value itself. -/
def pointOn? (n : Neighbourhood) (k : Int) : Option Nat :=
  let (a, b) := n.scales k
  let below := n.value * b / a
  if below = 0 then none
  else
    let lower := below * a
    let upper := (below + 1) * a
    let toLower := n.value * b - lower
    let toUpper := upper - n.value * b
    let preferUpper := toUpper < toLower ∨ (toUpper = toLower ∧ below % 2 = 1)
    match n.holds b lower, n.holds b upper with
    | true, true => some (if preferUpper then below + 1 else below)
    | true, false => some below
    | false, true => some (below + 1)
    | false, false => none

/-- The first grid with a point, from `10 ^ k` downwards. -/
def search (n : Neighbourhood) : Nat → Int → Option Decimal
  | 0, _ => none
  | fuel + 1, k =>
    match n.pointOn? k with
    | some d => some ⟨d, k⟩
    | none => n.search fuel (k - 1)

end Neighbourhood

def Decimal.trim : Nat → Decimal → Decimal
  | 0, d => d
  | fuel + 1, d =>
    if d.digits % 10 = 0 ∧ d.digits ≠ 0 then Decimal.trim fuel ⟨d.digits / 10, d.exponent + 1⟩
    else d

/-- A power of ten not below `mantissa · 2 ^ exponent`, at most two grids above its first digit:
`1234 / 4096` is a little more than the decimal logarithm of two. -/
def coarsestGrid (mantissa : Nat) (exponent : Int) : Int :=
  ((mantissa.log2 + 1 : Nat) + exponent) * 1234 / 4096 + 1

/-- The fewest digits that read back, and of those the nearest to the value. Seventeen digits
always suffice, so the search ends within the grids it is given. -/
def shortest (f : Format) (mantissa : Nat) (exponent : Int) : Decimal :=
  match (Neighbourhood.ofFinite f mantissa exponent).search 24 (coarsestGrid mantissa exponent) with
  | some d => d.trim 20
  | none => ⟨mantissa, 0⟩

end TileWorld.Number
