import TileWorld.Number.Layout

/-! Durations in nanoseconds, written in the largest unit of which they hold at least one. -/

namespace TileWorld

structure Duration where
  nanoseconds : Nat
  deriving DecidableEq, Repr, Inhabited

namespace Duration

def ofMillis (n : Nat) : Duration := ⟨n * 1000000⟩

def millis (d : Duration) : Nat := d.nanoseconds / 1000000

def unit (d : Duration) : String × Nat :=
  if 10 ^ 9 ≤ d.nanoseconds then ("s", 9)
  else if 10 ^ 6 ≤ d.nanoseconds then ("ms", 6)
  else if 10 ^ 3 ≤ d.nanoseconds then ("µs", 3)
  else ("ns", 0)

/-- The digits of `rest / 10 ^ places` behind the point, without zeros at their end. -/
def fractionChars (rest places : Nat) : List Char :=
  let ds := Number.digitChars rest
  let padded := Number.zeros (places - ds.length) ++ ds
  (padded.reverse.dropWhile (· == '0')).reverse

def text (d : Duration) : String :=
  let (name, places) := d.unit
  let whole := Number.digitChars (d.nanoseconds / 10 ^ places)
  let fraction := fractionChars (d.nanoseconds % 10 ^ places) places
  .ofList (whole ++ (if fraction.isEmpty then [] else '.' :: fraction)) ++ name

end Duration

end TileWorld
