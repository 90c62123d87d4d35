import TileWorld.Number.Shortest

/-! # Written floating-point numbers -/

namespace TileWorld.Number

/-- The range of first-digit exponents that are written positionally. -/
structure Layout where
  format : Format
  fixedFrom : Int
  fixedTo : Int
  deriving Repr

/-- Single precision: positional from a millionth up to thirteen whole digits. -/
def Layout.single : Layout := ⟨.single, -6, 12⟩

/-- Double precision: positional from a hundred-thousandth up to sixteen whole digits. -/
def Layout.double : Layout := ⟨.double, -5, 15⟩

def digitChars (n : Nat) : List Char := Nat.toDigits 10 n

def zeros (n : Nat) : List Char := List.replicate n '0'

def intChars (n : Int) : List Char :=
  if n < 0 then '-' :: digitChars n.natAbs else digitChars n.natAbs

namespace Decimal

def positional (d : Decimal) : List Char :=
  let ds := digitChars d.digits
  if 0 ≤ d.exponent then ds ++ zeros d.exponent.toNat ++ ['.', '0']
  else
    let places := (-d.exponent).toNat
    if places < ds.length then
      ds.take (ds.length - places) ++ '.' :: ds.drop (ds.length - places)
    else '0' :: '.' :: zeros (places - ds.length) ++ ds

def scientific (d : Decimal) : List Char :=
  let ds := digitChars d.digits
  let first := d.exponent + (ds.length - 1 : Nat)
  let head := match ds with
    | [] => []
    | [c] => [c]
    | c :: cs => c :: '.' :: cs
  head ++ 'e' :: (if first < 0 then '-' else '+') :: digitChars first.natAbs

end Decimal

namespace Layout

def decimalChars (l : Layout) (d : Decimal) : List Char :=
  let first := d.exponent + ((digitChars d.digits).length - 1 : Nat)
  if l.fixedFrom ≤ first ∧ first ≤ l.fixedTo then d.positional else d.scientific

/-- The text of a value, none if it is not finite. -/
def chars? (l : Layout) : Exact → Option (List Char)
  | .finite negative mantissa exponent =>
      let sign := if negative then ['-'] else []
      let magnitude :=
        if mantissa = 0 then ['0', '.', '0']
        else l.decimalChars (shortest l.format mantissa exponent)
      some (sign ++ magnitude)
  | _ => none

end Layout

def singleChars? (x : Float32) : Option (List Char) := Layout.single.chars? (.ofSingle x)

def doubleChars? (x : Float) : Option (List Char) := Layout.double.chars? (.ofDouble x)

end TileWorld.Number
