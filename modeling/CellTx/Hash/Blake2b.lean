import CellTx.Bytes

/-!
# BLAKE2b with a 32-byte digest

The hash function of RFC 7693 with a personalization of sixteen bytes and no key. A message is cut
into blocks of 128 bytes, the last one padded with zeros (`absorb`); `compress` mixes one block into
the eight chaining words, twelve rounds over a square of sixteen words, each round being one `mix`
of every column and every diagonal.

Results:
* `length_digest`: a digest has 32 bytes.

Out of scope: digests of other lengths, keys, salts and trees of digests.
-/

namespace CellTx.Blake2b

/-- The chaining words, and the shape of the initialization vector. -/
structure State where
  h0 : UInt64
  h1 : UInt64
  h2 : UInt64
  h3 : UInt64
  h4 : UInt64
  h5 : UInt64
  h6 : UInt64
  h7 : UInt64

/-- Four words that one mixing step combines. -/
structure Column where
  a : UInt64
  b : UInt64
  c : UInt64
  d : UInt64

/-- The sixteen working words, as four columns. -/
structure Square where
  p : Column
  q : Column
  r : Column
  s : Column

/-- The fractional parts of the square roots of the first eight primes. -/
def iv : State where
  h0 := 0x6a09e667f3bcc908
  h1 := 0xbb67ae8584caa73b
  h2 := 0x3c6ef372fe94f82b
  h3 := 0xa54ff53a5f1d36f1
  h4 := 0x510e527fade682d1
  h5 := 0x9b05688c2b3e6c1f
  h6 := 0x1f83d9abfb41bd6b
  h7 := 0x5be0cd19137e2179

/-- The order in which each of the ten distinct rounds reads the words of a block. -/
def schedule : List (List Nat) := [
  [0, 1, 2, 3, 4, 5, 6, 7, 8, 9, 10, 11, 12, 13, 14, 15],
  [14, 10, 4, 8, 9, 15, 13, 6, 1, 12, 0, 2, 11, 7, 5, 3],
  [11, 8, 12, 0, 5, 2, 15, 13, 10, 14, 3, 6, 7, 1, 9, 4],
  [7, 9, 3, 1, 13, 12, 11, 14, 2, 6, 5, 10, 4, 0, 15, 8],
  [9, 0, 5, 7, 2, 4, 10, 15, 14, 1, 11, 12, 6, 8, 3, 13],
  [2, 12, 6, 10, 0, 11, 8, 3, 4, 13, 7, 5, 15, 14, 1, 9],
  [12, 5, 1, 15, 14, 13, 4, 10, 0, 7, 6, 3, 9, 2, 8, 11],
  [13, 11, 7, 14, 12, 1, 3, 9, 5, 0, 15, 4, 8, 6, 2, 10],
  [6, 15, 14, 9, 11, 3, 0, 8, 12, 2, 13, 7, 1, 4, 10, 5],
  [10, 2, 8, 4, 7, 6, 1, 5, 15, 11, 9, 14, 3, 12, 13, 0]]

/-- Rotation to the right, for `0 < n < 64`. -/
def rotr (x n : UInt64) : UInt64 := (x >>> n) ||| (x <<< (64 - n))

/-- Mixes two message words into a column. -/
def mix (v : Column) (x y : UInt64) : Column :=
  let a := v.a + v.b + x
  let d := rotr (v.d ^^^ a) 32
  let c := v.c + d
  let b := rotr (v.b ^^^ c) 24
  let a := a + b + y
  let d := rotr (d ^^^ a) 16
  let c := c + d
  let b := rotr (b ^^^ c) 63
  ⟨a, b, c, d⟩

/-- One round: the columns, then the diagonals. -/
def round (m : List UInt64) (v : Square) (order : List Nat) : Square :=
  match order.map fun i => m.getD i 0 with
  | [m0, m1, m2, m3, m4, m5, m6, m7, m8, m9, m10, m11, m12, m13, m14, m15] =>
    let p := mix v.p m0 m1
    let q := mix v.q m2 m3
    let r := mix v.r m4 m5
    let s := mix v.s m6 m7
    let p' := mix ⟨p.a, q.b, r.c, s.d⟩ m8 m9
    let q' := mix ⟨q.a, r.b, s.c, p.d⟩ m10 m11
    let r' := mix ⟨r.a, s.b, p.c, q.d⟩ m12 m13
    let s' := mix ⟨s.a, p.b, q.c, r.d⟩ m14 m15
    ⟨⟨p'.a, s'.b, r'.c, q'.d⟩, ⟨q'.a, p'.b, s'.c, r'.d⟩,
      ⟨r'.a, q'.b, p'.c, s'.d⟩, ⟨s'.a, r'.b, q'.c, p'.d⟩⟩
  | _ => v

/-- `count` pieces of `size` elements; the last ones may be shorter. -/
def pieces {α : Type} (size : Nat) : Nat → List α → List (List α)
  | 0, _ => []
  | count + 1, l => l.take size :: pieces size count (l.drop size)

/-- The word with the given eight bytes, least significant first. -/
def word (l : Bytes) : UInt64 := UInt64.ofNat (leNat l)

/-- Mixes a block of 128 bytes, the last of `count` bytes in all, into the chaining words. -/
def compress (h : State) (block : Bytes) (count : Nat) (last : Bool) : State :=
  let m := (pieces 8 16 block).map word
  let v : Square :=
    ⟨⟨h.h0, h.h4, iv.h0, iv.h4 ^^^ UInt64.ofNat count⟩, ⟨h.h1, h.h5, iv.h1, iv.h5⟩,
      ⟨h.h2, h.h6, iv.h2, if last then iv.h6 ^^^ 0xffffffffffffffff else iv.h6⟩,
      ⟨h.h3, h.h7, iv.h3, iv.h7⟩⟩
  let w := (schedule ++ schedule.take 2).foldl (round m) v
  ⟨h.h0 ^^^ w.p.a ^^^ w.p.c, h.h1 ^^^ w.q.a ^^^ w.q.c, h.h2 ^^^ w.r.a ^^^ w.r.c,
    h.h3 ^^^ w.s.a ^^^ w.s.c, h.h4 ^^^ w.p.b ^^^ w.p.d, h.h5 ^^^ w.q.b ^^^ w.q.d,
    h.h6 ^^^ w.r.b ^^^ w.r.d, h.h7 ^^^ w.s.b ^^^ w.s.d⟩

/-- Mixes the blocks in order after `count` bytes; the last one is padded and marked. -/
def absorb (h : State) (count : Nat) : List Bytes → State
  | [] => h
  | [l] => compress h (l ++ zeros (128 - l.length)) (count + l.length) true
  | l :: rest => absorb (compress h l (count + 128) false) (count + 128) rest

/-- The chaining words before the first block: digest length 32, no key, one lane. -/
def initial (person : Bytes) : State :=
  { iv with
    h0 := iv.h0 ^^^ 0x01010020
    h6 := iv.h6 ^^^ word (person.take 8)
    h7 := iv.h7 ^^^ word (person.drop 8) }

/-- The digest of a message. An empty message is one block of no bytes. -/
def digest (person message : Bytes) : Bytes :=
  let blocks := pieces 128 (max 1 ((message.length + 127) / 128)) message
  let h := absorb (initial person) 0 blocks
  leBytes 8 h.h0.toNat ++ leBytes 8 h.h1.toNat ++ leBytes 8 h.h2.toNat ++ leBytes 8 h.h3.toNat

theorem length_digest (person message : Bytes) : (digest person message).length = 32 := by
  simp only [digest, List.length_append, length_leBytes]

end CellTx.Blake2b
