import TileWorld.Random.Words

/-! The stream of a seed: the ChaCha key stream of twelve rounds under a key that a permuted
congruential generator expands from the seed. -/

namespace TileWorld.ChaCha

def rotateLeft (x : UInt32) (n : UInt32) : UInt32 := (x <<< n) ||| (x >>> (32 - n))

abbrev Block := Vector UInt32 16

def quarterRound (s : Block) (a b c d : Fin 16) : Block :=
  let s := s.set a (s[a] + s[b])
  let s := s.set d (rotateLeft (s[d] ^^^ s[a]) 16)
  let s := s.set c (s[c] + s[d])
  let s := s.set b (rotateLeft (s[b] ^^^ s[c]) 12)
  let s := s.set a (s[a] + s[b])
  let s := s.set d (rotateLeft (s[d] ^^^ s[a]) 8)
  let s := s.set c (s[c] + s[d])
  s.set b (rotateLeft (s[b] ^^^ s[c]) 7)

def doubleRound (s : Block) : Block :=
  let s := quarterRound s 0 4 8 12
  let s := quarterRound s 1 5 9 13
  let s := quarterRound s 2 6 10 14
  let s := quarterRound s 3 7 11 15
  let s := quarterRound s 0 5 10 15
  let s := quarterRound s 1 6 11 12
  let s := quarterRound s 2 7 8 13
  quarterRound s 3 4 9 14

/-- The constant words, the key, and the number of the block. -/
def initial (key : Vector UInt32 8) (counter : Nat) : Block :=
  #v[0x61707865, 0x3320646e, 0x79622d32, 0x6b206574, key[0], key[1], key[2], key[3],
    key[4], key[5], key[6], key[7], counter.toUInt32, (counter / 2 ^ 32).toUInt32, 0, 0]

def block (key : Vector UInt32 8) (counter : Nat) : Block :=
  let start := initial key counter
  start.zipWith (· + ·) (Nat.repeat doubleRound 6 start)

/-- The state of the key generator after `n` steps. -/
def expansion (seed : UInt64) (n : Nat) : UInt64 :=
  Nat.repeat (fun s : UInt64 => s * 6364136223846793005 + 11634580027462260723) n seed

/-- The word that the key generator gives out in a state. -/
def permuted (state : UInt64) : UInt32 :=
  let x := (((state >>> 18) ^^^ state) >>> 27).toUInt32
  let turn := (state >>> 59).toUInt32
  (x >>> turn) ||| (x <<< ((32 - turn) % 32))

def key (seed : UInt64) : Vector UInt32 8 :=
  .ofFn fun i => permuted (expansion seed (i.val + 1))

def stream (seed : UInt64) : Words :=
  let k := key seed
  { word := fun n => (block k (n / 16)).get ⟨n % 16, Nat.mod_lt _ (by decide)⟩
    used := 0 }

end TileWorld.ChaCha
