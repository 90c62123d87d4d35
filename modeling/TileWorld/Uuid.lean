import TileWorld.Number.Power

/-! Random identifiers: 128 bits, of which six tell the version and the variant. -/

namespace TileWorld

structure Uuid where
  bits : Nat
  deriving DecidableEq, Repr

namespace Uuid

/-- Marks random bits as a random identifier: version four of the common variant. -/
def ofRandom (random : Nat) : Uuid :=
  let node := random % 2 ^ 62
  let low := random / 2 ^ 62 % 2 ^ 12
  let high := random / 2 ^ 74 % 2 ^ 48
  ⟨((high * 2 ^ 4 + 4) * 2 ^ 12 + low) * 2 ^ 64 + 2 ^ 63 + node⟩

def hexDigits (count n : Nat) : List Char :=
  let ds := Nat.toDigits 16 n
  List.replicate (count - ds.length) '0' ++ ds

def text (u : Uuid) : String :=
  .ofList <|
    hexDigits 8 (u.bits / 2 ^ 96) ++ '-' :: hexDigits 4 (u.bits / 2 ^ 80 % 2 ^ 16) ++
      '-' :: hexDigits 4 (u.bits / 2 ^ 64 % 2 ^ 16) ++
      '-' :: hexDigits 4 (u.bits / 2 ^ 48 % 2 ^ 16) ++ '-' :: hexDigits 12 (u.bits % 2 ^ 48)

end Uuid

end TileWorld
