import ForwardAuth.Bytes

/-!
# SHAKE

A sponge holds 25 words of 64 bits. It takes in a message block by block, mixing its words after
each one, and then gives out as many bytes as are wanted. Only a part of the words meets the message
and the output; how large that part is, is the difference between SHAKE128 and SHAKE256.

The words stand in a square of five columns and five rows, and the one in column `x` of row `y` has
the index `x + 5 y`.

## Main definitions

* `Sponge`: The words.
* `Sponge.mix`: The rounds.
* `shake`: The output for a message.
-/

namespace ForwardAuth.Hash

/-- The words of a sponge. -/
abbrev Sponge := Vector UInt64 25

namespace Sponge

/-- The word in a column of a row. Both are counted around. -/
def word (s : Sponge) (x y : Nat) : UInt64 :=
  s.get ⟨x % 5 + 5 * (y % 5), by omega⟩

/-- How far each word is turned. -/
def turns : Vector UInt64 25 :=
  #v[0, 1, 62, 28, 27, 36, 44, 6, 55, 20, 3, 10, 43, 25, 39, 41, 45, 15, 21, 8, 18, 2, 61, 56, 14]

/-- What is added to the first word in each round. -/
def constants : List UInt64 :=
  [0x0000000000000001, 0x0000000000008082, 0x800000000000808A, 0x8000000080008000,
    0x000000000000808B, 0x0000000080000001, 0x8000000080008081, 0x8000000000008009,
    0x000000000000008A, 0x0000000000000088, 0x0000000080008009, 0x000000008000000A,
    0x000000008000808B, 0x800000000000008B, 0x8000000000008089, 0x8000000000008003,
    0x8000000000008002, 0x8000000000000080, 0x000000000000800A, 0x800000008000000A,
    0x8000000080008081, 0x8000000000008080, 0x0000000080000001, 0x8000000080008008]

/-- A word turned to the left. -/
def turn (w n : UInt64) : UInt64 :=
  w <<< n ||| w >>> (64 - n)

/-- Adds to each word the parities of two columns beside it. -/
def spread (s : Sponge) : Sponge :=
  let parity := fun x => s.word x 0 ^^^ s.word x 1 ^^^ s.word x 2 ^^^ s.word x 3 ^^^ s.word x 4
  let parities : Vector UInt64 5 := .ofFn fun x => parity x.val
  let added : Vector UInt64 5 := .ofFn fun x =>
    parities.get (x + 4) ^^^ turn (parities.get (x + 1)) 1
  .ofFn fun i => s[i] ^^^ added.get ⟨i.val % 5, by omega⟩

/-- Turns each word and moves it to another place. -/
def move (s : Sponge) : Sponge :=
  .ofFn fun i =>
    let x := i.val % 5
    let y := i.val / 5
    turn (s.word (x + 3 * y) x) (word turns (x + 3 * y) x)

/-- Adds to each word where its right neighbour is zero and the one after that is not. -/
def bend (s : Sponge) : Sponge :=
  .ofFn fun i =>
    let x := i.val % 5
    let y := i.val / 5
    s[i] ^^^ (~~~(s.word (x + 1) y) &&& s.word (x + 2) y)

/-- One round. -/
def round (s : Sponge) (constant : UInt64) : Sponge :=
  let s := s.spread.move.bend
  s.set 0 (s[0] ^^^ constant)

/-- All rounds. -/
def mix (s : Sponge) : Sponge :=
  constants.foldl round s

/-- The sponge without anything in it. -/
def empty : Sponge := .replicate 25 0

/-- The words of a block, eight bytes each. -/
def wordAt (block : List UInt8) (i : Nat) : UInt64 :=
  UInt64.ofNat (Bytes.ofLittleEndian ((block.drop (8 * i)).take 8))

/-- Takes in a block. -/
def absorb (s : Sponge) (block : List UInt8) : Sponge :=
  mix (.ofFn fun i => s[i] ^^^ wordAt block i)

/-- All words as bytes. -/
def bytes (s : Sponge) : List UInt8 :=
  s.toList.flatMap fun w => Bytes.toLittleEndian 8 w.toNat

/-- The bytes of so many blocks of output. -/
def squeeze (rate : Nat) : Nat → Sponge → List UInt8
  | 0, _ => []
  | blocks + 1, s => s.bytes.take rate ++ squeeze rate blocks s.mix

end Sponge

/-- A message with the marks of its end, filled up to whole blocks. -/
def padded (rate : Nat) (message : List UInt8) : List UInt8 :=
  match rate - message.length % rate with
  | 0 => message
  | 1 => message ++ [0x9F]
  | missing + 2 => message ++ 0x1F :: List.replicate missing 0 ++ [0x80]

/-- The first bytes of the output for a message, so many of them. Blocks have `rate` bytes. -/
def shake (rate : Nat) (message : List UInt8) (size : Nat) : List UInt8 :=
  let filled := padded rate message
  let blocks := (List.range (filled.length / rate)).map fun i => (filled.drop (rate * i)).take rate
  (Sponge.squeeze rate (size / rate + 1) (blocks.foldl Sponge.absorb .empty)).take size

/-- The output of SHAKE128. -/
def shake128 : List UInt8 → Nat → List UInt8 :=
  shake 168

/-- The output of SHAKE256. -/
def shake256 : List UInt8 → Nat → List UInt8 :=
  shake 136

end ForwardAuth.Hash
