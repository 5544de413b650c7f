/-
BLAKE2b with a digest of 32 bytes and no key.

The message is cut into blocks of 128 bytes, the last one filled up with
zeros; each block is mixed into a state of eight words in twelve rounds.
-/
import Reactive.Text.Basic

namespace Reactive.Blake2b

/-- The initial words. -/
def initial : Array UInt64 :=
  #[0x6a09e667f3bcc908, 0xbb67ae8584caa73b, 0x3c6ef372fe94f82b, 0xa54ff53a5f1d36f1,
    0x510e527fade682d1, 0x9b05688c2b3e6c1f, 0x1f83d9abfb41bd6b, 0x5be0cd19137e2179]

/-- The order in which the words of a block are used in each round. -/
def order : List (List Nat) :=
  [[0, 1, 2, 3, 4, 5, 6, 7, 8, 9, 10, 11, 12, 13, 14, 15],
    [14, 10, 4, 8, 9, 15, 13, 6, 1, 12, 0, 2, 11, 7, 5, 3],
    [11, 8, 12, 0, 5, 2, 15, 13, 10, 14, 3, 6, 7, 1, 9, 4],
    [7, 9, 3, 1, 13, 12, 11, 14, 2, 6, 5, 10, 4, 0, 15, 8],
    [9, 0, 5, 7, 2, 4, 10, 15, 14, 1, 11, 12, 6, 8, 3, 13],
    [2, 12, 6, 10, 0, 11, 8, 3, 4, 13, 7, 5, 15, 14, 1, 9],
    [12, 5, 1, 15, 14, 13, 4, 10, 0, 7, 6, 3, 9, 2, 8, 11],
    [13, 11, 7, 14, 12, 1, 3, 9, 5, 0, 15, 4, 8, 6, 2, 10],
    [6, 15, 14, 9, 11, 3, 0, 8, 12, 2, 13, 7, 1, 4, 10, 5],
    [10, 2, 8, 4, 7, 6, 1, 5, 15, 11, 9, 14, 3, 12, 13, 0],
    [0, 1, 2, 3, 4, 5, 6, 7, 8, 9, 10, 11, 12, 13, 14, 15],
    [14, 10, 4, 8, 9, 15, 13, 6, 1, 12, 0, 2, 11, 7, 5, 3]]

/-- The places that the eight steps of a round mix: four columns, then four diagonals. -/
def quarters : List (Nat × Nat × Nat × Nat) :=
  [(0, 4, 8, 12), (1, 5, 9, 13), (2, 6, 10, 14), (3, 7, 11, 15),
    (0, 5, 10, 15), (1, 6, 11, 12), (2, 7, 8, 13), (3, 4, 9, 14)]

/-- A rotation to the right. -/
def rotate (x : UInt64) (n : UInt64) : UInt64 := (x >>> n) ||| (x <<< (64 - n))

/-- One step of a round: two words mixed into four places. -/
def mix (v : Array UInt64) (q : Nat × Nat × Nat × Nat) (x y : UInt64) : Array UInt64 :=
  let (i, j, k, l) := q
  let a := v.getD i 0 + v.getD j 0 + x
  let d := rotate (v.getD l 0 ^^^ a) 32
  let c := v.getD k 0 + d
  let b := rotate (v.getD j 0 ^^^ c) 24
  let a := a + b + y
  let d := rotate (d ^^^ a) 16
  let c := c + d
  let b := rotate (b ^^^ c) 63
  (((v.setIfInBounds i a).setIfInBounds j b).setIfInBounds k c).setIfInBounds l d

/-- The steps of a round, each with two words of the block. -/
def round (m v : Array UInt64) : List (Nat × Nat × Nat × Nat) → List Nat → Array UInt64
  | q :: qs, x :: y :: r => round m (mix v q (m.getD x 0) (m.getD y 0)) qs r
  | _, _ => v

/-- A word from its bytes, the lowest first. -/
def word (bs : Text) : UInt64 := bs.foldr (fun b w => (w <<< 8) ||| b.toUInt64) 0

/-- The words of a block. -/
def words (block : Text) : Array UInt64 :=
  ((List.range 16).map fun i => word ((block.drop (8 * i)).take 8)).toArray

/-- A block mixed into the state; `count` is how many bytes of the message are in. -/
def compress (h : Array UInt64) (block : Text) (count : Nat) (last : Bool) : Array UInt64 :=
  let v := h ++ initial
  let v := v.modify 12 (· ^^^ UInt64.ofNat count)
  let v := if last then v.modify 14 (~~~ ·) else v
  let v := order.foldl (fun v o => round (words block) v quarters o) v
  h.mapIdx fun i x => x ^^^ v.getD i 0 ^^^ v.getD (i + 8) 0

/-- The blocks of a message mixed in; `done` is how many bytes are in already. -/
def absorb (h : Array UInt64) (done : Nat) (msg : Text) : Array UInt64 :=
  if msg.length ≤ 128 then compress h msg (done + msg.length) true
  else absorb (compress h (msg.take 128) (done + 128) false) (done + 128) (msg.drop 128)
termination_by msg.length
decreasing_by simp only [List.length_drop]; omega

/-- The bytes of a word, the lowest first. -/
def bytes (w : UInt64) : Text := (List.range 8).map fun i => (w >>> UInt64.ofNat (8 * i)).toUInt8

/-- The digest of a message. -/
def digest (msg : Text) : Text :=
  ((absorb (initial.modify 0 (· ^^^ 0x01010020)) 0 msg).toList.flatMap bytes).take 32

end Reactive.Blake2b
