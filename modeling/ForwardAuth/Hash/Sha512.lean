import ForwardAuth.Bytes

/-!
# SHA-512

The hash works on eight words of 64 bits. Each block of 128 bytes is spread over eighty rounds, and
what the rounds make of the words is added to them. The words at the start and the constants of the
rounds are the first bits behind the point of roots of primes.

## Main definitions

* `Sha512.schedule`: What a block contributes to each round.
* `Sha512.compress`: The words after a block.
* `Sha512.hash`: The hash of a list of bytes.
-/

namespace ForwardAuth.Hash.Sha512

/-- The largest number of so many bits whose power is not greater than `n`, found bit by bit. -/
def rootBelow (bits degree n : Nat) : Nat :=
  (List.range bits).foldr
    (fun i root =>
      if Nat.pow (root + Nat.pow 2 i) degree ≤ n then root + Nat.pow 2 i else root) 0

/-- The first prime numbers, eighty of them. -/
def primes : List Nat :=
  ((List.range 410).filter fun n => 2 ≤ n && (List.range n).all fun d => d < 2 || n % d ≠ 0).take 80

/-- The first 64 bits behind the point of the square or cube root of a small number. -/
def rootWord (degree n : Nat) : UInt64 :=
  UInt64.ofNat (rootBelow 72 degree (n * Nat.pow 2 (64 * degree)))

/-- The words at the start. -/
def start : List UInt64 :=
  (primes.take 8).map (rootWord 2)

/-- The constants of the rounds. -/
def constants : List UInt64 :=
  primes.map (rootWord 3)

/-- A word turned to the right. -/
def turn (w : UInt64) (n : UInt64) : UInt64 :=
  w >>> n ||| w <<< (64 - n)

/-- What a block contributes to so many rounds: its sixteen words first, then words that are mixed
    from the sixteen before them. -/
def schedule : Nat → List UInt64 → List UInt64
  | 0, _ => []
  | rounds + 1, window =>
    match window with
    | [] => []
    | w :: rest =>
      let early := rest.getD 0 0
      let late := rest.getD 13 0
      let next := w + (turn early 1 ^^^ turn early 8 ^^^ early >>> 7) + rest.getD 8 0 +
        (turn late 19 ^^^ turn late 61 ^^^ late >>> 6)
      w :: schedule rounds (rest ++ [next])

/-- A round with its constant and the contribution of the block. -/
def round (words : List UInt64) (input : UInt64 × UInt64) : List UInt64 :=
  match words with
  | [a, b, c, d, e, f, g, h] =>
    let chosen := (e &&& f) ^^^ (~~~e &&& g)
    let mixed := h + (turn e 14 ^^^ turn e 18 ^^^ turn e 41) + chosen + input.1 + input.2
    let majority := (a &&& b) ^^^ (a &&& c) ^^^ (b &&& c)
    let top := mixed + (turn a 28 ^^^ turn a 34 ^^^ turn a 39) + majority
    [top, a, b, c, d + mixed, e, f, g]
  | _ => words

/-- The words after a block of sixteen words. -/
def compress (words block : List UInt64) : List UInt64 :=
  let mixed := (constants.zip (schedule 80 block)).foldl round words
  List.zipWith (· + ·) words mixed

/-- A message with its end mark and its length in bits, filled up to whole blocks. -/
def padded (message : List UInt8) : List UInt8 :=
  let zeros := (111 + 128 - message.length % 128) % 128
  message ++ 0x80 :: List.replicate zeros 0 ++ Bytes.toBigEndian 16 (8 * message.length)

/-- Parts of the same length, up to the end. -/
def parts (size : Nat) (bytes : List UInt8) : List (List UInt8) :=
  (List.range (bytes.length / size)).map fun i => (bytes.drop (size * i)).take size

/-- The hash of a message: 64 bytes. -/
def hash (message : List UInt8) : List UInt8 :=
  let blocks := (parts 128 (padded message)).map fun block =>
    (parts 8 block).map fun bytes => UInt64.ofNat (Bytes.ofBigEndian bytes)
  (blocks.foldl compress start).flatMap fun w => Bytes.toBigEndian 8 w.toNat

end ForwardAuth.Hash.Sha512
