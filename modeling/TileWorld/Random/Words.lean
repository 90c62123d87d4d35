import TileWorld.Number.Power

/-! Endless streams of 32-bit words, with the number of words already taken, and draws from them. -/

namespace TileWorld

structure Words where
  word : Nat → UInt32
  used : Nat

namespace Words

def next (s : Words) : UInt32 × Words := (s.word s.used, { s with used := s.used + 1 })

/-- Two words, the low one first. -/
def next64 (s : Words) : Nat × Words :=
  let (low, s) := s.next
  let (high, s) := s.next
  (2 ^ 32 * high.toNat + low.toNat, s)

/-- A number from zero up to but not including one, with 24 random bits. -/
def unit (s : Words) : Float32 × Words :=
  let (w, s) := s.next
  ((w >>> 8).toFloat32 * 5.9604644775390625e-8, s)

/-- The largest low half of a product that is not refused when drawing among `range` numbers. -/
def zone (range : Nat) : Nat := range * 2 ^ (63 - range.log2) - 1

/-- How many products are refused in a row at most; the next one is then taken whatever its low half
is. Less than half of all products are refused. -/
def maxRefusals : Nat := 65536

/-- The high half of the product of `range` and a random word. Products with a low half beyond the
zone are refused, which makes all numbers below `range` equally likely. -/
def drawBelow (range : Nat) : Nat → Words → Nat × Words
  | 0, s =>
    let (v, s) := s.next64
    (v * range / 2 ^ 64, s)
  | refusals + 1, s =>
    let (v, s) := s.next64
    if v * range % 2 ^ 64 ≤ zone range then (v * range / 2 ^ 64, s) else drawBelow range refusals s

def below (s : Words) (range : Nat) : Nat × Words := drawBelow range maxRefusals s

/-- An offset of at most `radius` in either direction. -/
def offset (s : Words) (radius : Nat) : Int × Words :=
  let (n, s) := s.below (2 * radius + 1)
  ((n : Int) - radius, s)

theorem drawBelow_lt {range : Nat} (h : 0 < range) (refusals : Nat) (s : Words) :
    (drawBelow range refusals s).1 < range := by
  have bound (s : Words) : s.next64.1 * range / 2 ^ 64 < range := by
    have hv : s.next64.1 < 2 ^ 64 := by
      have hlow := s.next.1.toNat_lt
      have hhigh := s.next.2.next.1.toNat_lt
      simp only [next64]
      omega
    rw [Nat.div_lt_iff_lt_mul (by decide), Nat.mul_comm range]
    exact Nat.mul_lt_mul_of_pos_right hv h
  induction refusals generalizing s with
  | zero => exact bound s
  | succ n ih =>
    unfold drawBelow
    split
    rename_i v t hv
    have := bound s
    rw [hv] at this
    split
    · exact this
    · exact ih t

/-- A listed start, continued by `x ↦ 1664525 x + 1013904223` from zero. -/
def listed (words : Array UInt32) : Words where
  word n :=
    if h : n < words.size then words[n]
    else Nat.repeat (fun x : UInt32 => x * 1664525 + 1013904223) (n - words.size + 1) 0
  used := 0

end Words

end TileWorld
