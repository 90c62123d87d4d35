import TileWorld.Number.Power

/-! Exact values of floating-point words. A finite word stands for `± mantissa · 2 ^ exponent`;
encoding rounds to the nearest word, a half to the even one. -/

namespace TileWorld.Number

/-- The value of a floating-point word. Zero has mantissa zero and keeps its sign. -/
inductive Exact where
  | nan
  | infinite (negative : Bool)
  | finite (negative : Bool) (mantissa : Nat) (exponent : Int)
  deriving DecidableEq, Repr

/-- An interchange format with a hidden leading bit. -/
structure Format where
  fractionBits : Nat
  exponentBits : Nat
  deriving DecidableEq, Repr

namespace Format

def single : Format := ⟨23, 8⟩

def double : Format := ⟨52, 11⟩

/-- The exponent of the last mantissa bit of the smallest words. -/
def minExponent (f : Format) : Int :=
  2 - 2 ^ (f.exponentBits - 1) - f.fractionBits

/-- The word of positive infinity; every word above it, signs apart, is not a number. -/
def infinityWord (f : Format) : Nat :=
  (2 ^ f.exponentBits - 1) * 2 ^ f.fractionBits

def signWord (f : Format) : Nat :=
  2 ^ (f.fractionBits + f.exponentBits)

def decode (f : Format) (word : Nat) : Exact :=
  let magnitude := word % f.signWord
  let negative := word / f.signWord % 2 == 1
  let fraction := magnitude % 2 ^ f.fractionBits
  let biased := magnitude / 2 ^ f.fractionBits
  if magnitude = f.infinityWord then .infinite negative
  else if f.infinityWord < magnitude then .nan
  else if biased = 0 then .finite negative fraction f.minExponent
  else .finite negative (2 ^ f.fractionBits + fraction) (f.minExponent + (biased - 1 : Nat))

/-- `mantissa / 2 ^ shift` to the nearest integer, a half to the even neighbour. -/
def shiftNearest (mantissa shift : Nat) : Nat :=
  let quotient := mantissa >>> shift
  let rest := mantissa - quotient <<< shift
  let twice := 2 * rest
  if 1 <<< shift < twice ∨ (twice = 1 <<< shift ∧ quotient % 2 = 1) then quotient + 1 else quotient

/-- The word nearest to `mantissa · 2 ^ exponent`. The last bit kept has exponent `last`; a carry
out of the mantissa moves into the exponent field by itself, and what passes the largest finite
word becomes infinite. -/
def magnitudeWord (f : Format) (mantissa : Nat) (exponent : Int) : Nat :=
  if mantissa = 0 then 0
  else
    let last := max (mantissa.log2 + exponent - f.fractionBits) f.minExponent
    let kept :=
      if last ≤ exponent then mantissa <<< (exponent - last).toNat
      else shiftNearest mantissa (last - exponent).toNat
    min ((last - f.minExponent).toNat * 2 ^ f.fractionBits + kept) f.infinityWord

def encode (f : Format) : Exact → Nat
  | .nan => f.infinityWord + 2 ^ (f.fractionBits - 1)
  | .infinite negative => (if negative then f.signWord else 0) + f.infinityWord
  | .finite negative mantissa exponent =>
      (if negative then f.signWord else 0) + f.magnitudeWord mantissa exponent

end Format

namespace Exact

def ofSingle (x : Float32) : Exact := Format.single.decode x.toBits.toNat

def ofDouble (x : Float) : Exact := Format.double.decode x.toBits.toNat

def toSingle (v : Exact) : Float32 := .ofBits (Format.single.encode v).toUInt32

def toDouble (v : Exact) : Float := .ofBits (Format.double.encode v).toUInt64

/-- The value rounded down, between the bounds `low` and `high` that also stand for the
infinities; what is not a number counts as zero. -/
def floor (v : Exact) (low high : Int) : Int :=
  match v with
  | .nan => 0
  | .infinite negative => if negative then low else high
  | .finite negative mantissa exponent =>
      let signed : Int := if negative then -mantissa else mantissa
      let floored :=
        if 0 ≤ exponent then signed * 2 ^ exponent.toNat else signed / 2 ^ (-exponent).toNat
      max low (min high floored)

def neg : Exact → Exact
  | .nan => .nan
  | .infinite negative => .infinite !negative
  | .finite negative mantissa exponent => .finite (!negative) mantissa exponent

def ceil (v : Exact) (low high : Int) : Int :=
  -v.neg.floor (-high) (-low)

end Exact

/-- The same value in double precision; nothing is rounded. -/
def widen (x : Float32) : Float := (Exact.ofSingle x).toDouble

/-- The nearest value in single precision; what is too large becomes infinite. -/
def narrow (x : Float) : Float32 := (Exact.ofDouble x).toSingle

def singleOfInt (n : Int) : Float32 := (Exact.finite (n < 0) n.natAbs 0).toSingle

def doubleOfInt (n : Int) : Float := (Exact.finite (n < 0) n.natAbs 0).toDouble

def minInt64 : Int := -2 ^ 63

def maxInt64 : Int := 2 ^ 63 - 1

/-- An integer, none if it is no 64-bit integer. -/
def int64? (n : Int) : Option Int := if minInt64 ≤ n ∧ n ≤ maxInt64 then some n else none

/-- The greatest 64-bit integer not above `x`, saturating. -/
def floorInt64 (x : Float32) : Int := (Exact.ofSingle x).floor minInt64 maxInt64

def ceilInt64 (x : Float32) : Int := (Exact.ofSingle x).ceil minInt64 maxInt64

/-- The integer part of `x` as an unsigned 64-bit count: nothing below zero, saturating above. -/
def count (x : Float32) : Nat := x.toUInt64.toNat

/-- A count as a coordinate factor. -/
def ofCount (n : Nat) : Float32 := n.toUInt64.toFloat32

end TileWorld.Number
