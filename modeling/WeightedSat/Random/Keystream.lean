import WeightedSat.Random.Source

/-!
# The ChaCha key stream

The words of the ChaCha stream cipher with twelve rounds, as a source of random words.  A key of
eight words and a block counter make a block of sixteen words; the stream is the blocks in order.
A wide word is two successive words of the stream, the low half first, wherever in a block they
stand.

The state of the cipher is four rows of four words.  A quarter round mixes the four rows word by
word, which treats the four columns at once; with the rows turned by one, two and three words the
same operation treats the diagonals.

## Main definitions

* `Block`: the state of the cipher, with `Block.scramble`.
* `Keystream`: a key, the number of the next block and the words left of the current one.
* `Keystream.ofSeed`: the stream of a 64-bit seed.
-/

namespace WeightedSat

/-- The word turned left by `n` bits, where `0 < n < 32`. -/
def rotateLeft (x n : UInt32) : UInt32 :=
  (x <<< n) ||| (x >>> (32 - n))

/-- The word turned right by `n < 32` bits. -/
def rotateRight (x n : UInt32) : UInt32 :=
  (x >>> n) ||| (x <<< (32 - n))

/-- **Row**: four words of a cipher block. -/
structure Row where
  x0 : UInt32
  x1 : UInt32
  x2 : UInt32
  x3 : UInt32
deriving DecidableEq, Repr

namespace Row

/-- The sums of the words, modulo `2³²`. -/
def add (r s : Row) : Row := ⟨r.x0 + s.x0, r.x1 + s.x1, r.x2 + s.x2, r.x3 + s.x3⟩

/-- The exclusive disjunctions of the words, turned left by `n` bits. -/
def xorTurn (n : UInt32) (r s : Row) : Row :=
  ⟨rotateLeft (r.x0 ^^^ s.x0) n, rotateLeft (r.x1 ^^^ s.x1) n, rotateLeft (r.x2 ^^^ s.x2) n,
    rotateLeft (r.x3 ^^^ s.x3) n⟩

/-- The row moved by one word to the left, the first word coming last. -/
def shift (r : Row) : Row := ⟨r.x1, r.x2, r.x3, r.x0⟩

/-- The four words in order. -/
def words (r : Row) : List UInt32 := [r.x0, r.x1, r.x2, r.x3]

end Row

/-- **Block**: the sixteen words of the cipher, row by row. -/
structure Block where
  a : Row
  b : Row
  c : Row
  d : Row
deriving DecidableEq, Repr

namespace Block

/-- The quarter round, on all four columns. -/
def quarter (s : Block) : Block :=
  let a := s.a.add s.b
  let d := s.d.xorTurn 16 a
  let c := s.c.add d
  let b := s.b.xorTurn 12 c
  let a := a.add b
  let d := d.xorTurn 8 a
  let c := c.add d
  let b := b.xorTurn 7 c
  ⟨a, b, c, d⟩

/-- One round on the columns and one on the diagonals. -/
def doubleRound (s : Block) : Block :=
  let s := s.quarter
  let s := quarter ⟨s.a, s.b.shift, s.c.shift.shift, s.d.shift.shift.shift⟩
  ⟨s.a, s.b.shift.shift.shift, s.c.shift.shift, s.d.shift⟩

/-- The double round, `n` times over. -/
def rounds : Nat → Block → Block
  | 0, s => s
  | n + 1, s => rounds n s.doubleRound

/-- The block after twelve rounds, added to itself before them. -/
def scramble (s : Block) : Block :=
  let t := rounds 6 s
  ⟨t.a.add s.a, t.b.add s.b, t.c.add s.c, t.d.add s.d⟩

/-- The sixteen words in order. -/
def words (s : Block) : List UInt32 :=
  s.a.words ++ s.b.words ++ s.c.words ++ s.d.words

end Block

/-- **Key stream**: a key, the number of the next block and the words left of the current one. -/
structure Keystream where
  keyLow : Row
  keyHigh : Row
  counter : UInt64 := 0
  ahead : List UInt32 := []
deriving DecidableEq, Repr

namespace Keystream

/-- The first row of every block. -/
def constants : Row := ⟨0x61707865, 0x3320646e, 0x79622d32, 0x6b206574⟩

/-- The block with a given number. -/
def block (k : Keystream) (counter : UInt64) : Block :=
  Block.scramble
    ⟨constants, k.keyLow, k.keyHigh, ⟨counter.toUInt32, (counter >>> 32).toUInt32, 0, 0⟩⟩

/-- The next word of the stream. -/
def next (k : Keystream) : UInt32 × Keystream :=
  match k.ahead with
  | w :: ws => (w, { k with ahead := ws })
  | [] =>
    let b := k.block k.counter
    (b.a.x0, { k with counter := k.counter + 1, ahead := b.words.tail })

instance : WordSource Keystream where
  next32 := next
  next64 k :=
    let (low, k) := k.next
    let (high, k) := k.next
    (low.toUInt64 ||| (high.toUInt64 <<< 32), k)

/-- The successor of a seed in the linear congruential sequence that keys are made from. -/
def succSeed (state : UInt64) : UInt64 :=
  state * 6364136223846793005 + 11634580027462260723

/-- The key word of a state of that sequence: thirty-two of its bits, turned by its top five. -/
def keyWord (state : UInt64) : UInt32 :=
  rotateRight (((state >>> 18) ^^^ state) >>> 27).toUInt32 (state >>> 59).toUInt32

/-- The key stream of a seed. -/
def ofSeed (seed : UInt64) : Keystream :=
  let s1 := succSeed seed
  let s2 := succSeed s1
  let s3 := succSeed s2
  let s4 := succSeed s3
  let s5 := succSeed s4
  let s6 := succSeed s5
  let s7 := succSeed s6
  let s8 := succSeed s7
  { keyLow := ⟨keyWord s1, keyWord s2, keyWord s3, keyWord s4⟩
    keyHigh := ⟨keyWord s5, keyWord s6, keyWord s7, keyWord s8⟩ }

end Keystream

end WeightedSat
