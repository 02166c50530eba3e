import Retouch.Random.Draw

/-!
# Retouch — Random — Keystream

The random words in use: the ChaCha keystream with twelve rounds, a 64-bit block counter from zero
and a zero nonce.  A block is sixteen words, handed out in order; `Keystream.ofSeed` derives the
eight key words from one 64-bit seed.
-/

namespace Retouch

/-- A position in a keystream: the key, the number of the next block, and the words of the
current block that are still to be handed out. -/
structure Keystream where
  key : List UInt32
  counter : Nat
  pending : List UInt32
  deriving DecidableEq

namespace Keystream

/-- `w` turned left by `n` bits. -/
def rotateLeft (w n : UInt32) : UInt32 :=
  (w <<< n) ||| (w >>> ((32 - n) % 32))

/-- Mixes four words of the state. -/
def quarterRound (s : Array UInt32) (i j k l : Nat) : Array UInt32 :=
  let a := s.getD i 0 + s.getD j 0
  let d := rotateLeft (s.getD l 0 ^^^ a) 16
  let c := s.getD k 0 + d
  let b := rotateLeft (s.getD j 0 ^^^ c) 12
  let a := a + b
  let d := rotateLeft (d ^^^ a) 8
  let c := c + d
  let b := rotateLeft (b ^^^ c) 7
  (((s.setIfInBounds i a).setIfInBounds j b).setIfInBounds k c).setIfInBounds l d

/-- Mixes the columns of the state, then its diagonals. -/
def doubleRound (s : Array UInt32) : Array UInt32 :=
  let s := quarterRound s 0 4 8 12
  let s := quarterRound s 1 5 9 13
  let s := quarterRound s 2 6 10 14
  let s := quarterRound s 3 7 11 15
  let s := quarterRound s 0 5 10 15
  let s := quarterRound s 1 6 11 12
  let s := quarterRound s 2 7 8 13
  quarterRound s 3 4 9 14

/-- Six double rounds. -/
def rounds (s : Array UInt32) : Array UInt32 :=
  (List.range 6).foldl (fun s _ => doubleRound s) s

/-- The state a block starts from: four constants, the key, the counter and the nonce. -/
def initial (key : List UInt32) (counter : Nat) : Array UInt32 :=
  let constants : List UInt32 := [0x61707865, 0x3320646e, 0x79622d32, 0x6b206574]
  let low := UInt32.ofNat counter
  let high := UInt32.ofNat (counter / Word.span32)
  (constants ++ key ++ [low, high, 0, 0]).toArray

/-- Block number `counter` of the keystream. -/
def block (key : List UInt32) (counter : Nat) : List UInt32 :=
  let start := initial key counter
  (Array.zipWith (· + ·) (rounds start) start).toList

/-- The next word of the keystream. -/
def next (s : Keystream) : UInt32 × Keystream :=
  match s.pending with
  | w :: rest => (w, { s with pending := rest })
  | [] =>
    match block s.key s.counter with
    | w :: rest => (w, { s with counter := s.counter + 1, pending := rest })
    | [] => (0, { s with counter := s.counter + 1 })

instance : WordSource Keystream :=
  ⟨next⟩

/-! ### Seeding -/

/-- `w` turned right by `n` bits. -/
def rotateRight (w n : UInt32) : UInt32 :=
  (w >>> n) ||| (w <<< ((32 - n) % 32))

/-- One step of the generator that spreads a seed. -/
def spread (state : UInt64) : UInt64 :=
  state * 6364136223846793005 + 11634580027462260723

/-- The key word that a state of that generator gives: its bits folded together, then turned
by its top five bits. -/
def keyWord (state : UInt64) : UInt32 :=
  rotateRight (((state >>> 18) ^^^ state) >>> 27).toUInt32 (state >>> 59).toUInt32

/-- The next `n` key words after `state`. -/
def keyWords : Nat → UInt64 → List UInt32
  | 0, _ => []
  | n + 1, state => keyWord (spread state) :: keyWords n (spread state)

/-- The keystream of a seed, from its beginning. -/
def ofSeed (seed : UInt64) : Keystream :=
  ⟨keyWords 8 seed, 0, []⟩

end Keystream

end Retouch
