/-!
# A stream of words from a key

The stream is the ChaCha function in its form with twelve rounds: block after block of sixteen
words, each block a mixture of a constant, the key and the number of the block. A key of eight words
is stretched from a seed of 64 bits by a linear congruence whose upper bits are folded and rotated
into each word. All arithmetic wraps around.
-/

namespace GuidedChart.Keystream

/-- The state of the stretching after so many words. -/
def stretchState (seed : UInt64) : Nat → UInt64
  | 0 => seed
  | n + 1 => stretchState seed n * 6364136223846793005 + 11634580027462260723

def rotateRight (word amount : UInt32) : UInt32 :=
  word >>> amount ||| word <<< (32 - amount)

def rotateLeft (word amount : UInt32) : UInt32 :=
  word <<< amount ||| word >>> (32 - amount)

def stretchWord (state : UInt64) : UInt32 :=
  rotateRight (((state >>> 18) ^^^ state) >>> 27).toUInt32 (state >>> 59).toUInt32

def key (seed : UInt64) : Vector UInt32 8 :=
  Vector.ofFn fun i => stretchWord (stretchState seed (i.val + 1))

abbrev Block := Vector UInt32 16

/-- The block of a number before it is mixed: four constant words, the key, the number of the block
in two words, and two zeros. -/
def initial (key : Vector UInt32 8) (block : UInt64) : Block :=
  #v[0x61707865, 0x3320646e, 0x79622d32, 0x6b206574, key[0], key[1], key[2], key[3], key[4],
    key[5], key[6], key[7], block.toUInt32, (block >>> 32).toUInt32, 0, 0]

/-- Mixes four words of a block. -/
def quarter (v : Block) (places : Fin 16 × Fin 16 × Fin 16 × Fin 16) : Block :=
  let (i, j, k, l) := places
  let a := v[i] + v[j]
  let d := rotateLeft (v[l] ^^^ a) 16
  let c := v[k] + d
  let b := rotateLeft (v[j] ^^^ c) 12
  let a := a + b
  let d := rotateLeft (d ^^^ a) 8
  let c := c + d
  let b := rotateLeft (b ^^^ c) 7
  (((v.set i a).set j b).set k c).set l d

/-- The words that a double round mixes: the columns, then the diagonals. -/
def doubleRound : List (Fin 16 × Fin 16 × Fin 16 × Fin 16) :=
  [(0, 4, 8, 12), (1, 5, 9, 13), (2, 6, 10, 14), (3, 7, 11, 15),
    (0, 5, 10, 15), (1, 6, 11, 12), (2, 7, 8, 13), (3, 4, 9, 14)]

def rounds : Nat → Block → Block
  | 0, v => v
  | n + 1, v => rounds n (doubleRound.foldl quarter v)

def block (key : Vector UInt32 8) (number : UInt64) : Block :=
  let start := initial key number
  Vector.zipWith (· + ·) (rounds 6 start) start

def word (key : Vector UInt32 8) (position : Nat) : UInt32 :=
  (block key (UInt64.ofNat (position / 16))).get ⟨position % 16, Nat.mod_lt _ (by decide)⟩

end GuidedChart.Keystream
