/-!
# SHA-256

The SHA-256 digest (FIPS 180-4), computed incrementally: a `Sha256` value holds the chaining words,
the bytes of an unfinished block and the number of bytes taken in. Feeding bytes in any number of
pieces gives the same digest as feeding them at once, which is what lets a chunk keep the running
hash of everything written to it.
-/

namespace EventStore

/-- The round constants: the first 32 bits of the fractional parts of the cube roots of the first
64 primes. -/
def Sha256.roundConstants : Array UInt32 := #[
  0x428a2f98, 0x71374491, 0xb5c0fbcf, 0xe9b5dba5, 0x3956c25b, 0x59f111f1, 0x923f82a4, 0xab1c5ed5,
  0xd807aa98, 0x12835b01, 0x243185be, 0x550c7dc3, 0x72be5d74, 0x80deb1fe, 0x9bdc06a7, 0xc19bf174,
  0xe49b69c1, 0xefbe4786, 0x0fc19dc6, 0x240ca1cc, 0x2de92c6f, 0x4a7484aa, 0x5cb0a9dc, 0x76f988da,
  0x983e5152, 0xa831c66d, 0xb00327c8, 0xbf597fc7, 0xc6e00bf3, 0xd5a79147, 0x06ca6351, 0x14292967,
  0x27b70a85, 0x2e1b2138, 0x4d2c6dfc, 0x53380d13, 0x650a7354, 0x766a0abb, 0x81c2c92e, 0x92722c85,
  0xa2bfe8a1, 0xa81a664b, 0xc24b8b70, 0xc76c51a3, 0xd192e819, 0xd6990624, 0xf40e3585, 0x106aa070,
  0x19a4c116, 0x1e376c08, 0x2748774c, 0x34b0bcb5, 0x391c0cb3, 0x4ed8aa4a, 0x5b9cca4f, 0x682e6ff3,
  0x748f82ee, 0x78a5636f, 0x84c87814, 0x8cc70208, 0x90befffa, 0xa4506ceb, 0xbef9a3f7, 0xc67178f2]

/-- The initial chaining words: the first 32 bits of the fractional parts of the square roots of
the first eight primes. -/
def Sha256.initialWords : Array UInt32 := #[
  0x6a09e667, 0xbb67ae85, 0x3c6ef372, 0xa54ff53a, 0x510e527f, 0x9b05688c, 0x1f83d9ab, 0x5be0cd19]

/-- A digest in progress. -/
structure Sha256 where
  /-- The eight chaining words. -/
  words : Array UInt32 := Sha256.initialWords
  /-- Bytes of the current block, fewer than 64. -/
  pending : ByteArray := ByteArray.empty
  /-- How many bytes were fed in. -/
  length : Nat := 0
  deriving Inhabited

namespace Sha256

/-- Right rotation of a word. -/
def rotr (x : UInt32) (n : UInt32) : UInt32 := (x >>> n) ||| (x <<< (32 - n))

/-- The big-endian word at `off` of `bs`; bytes past the end count as zero. -/
def wordAt (bs : ByteArray) (off : Nat) : UInt32 :=
  let b : Nat → UInt32 := fun i => (bs[off + i]?.getD 0).toUInt32
  (b 0 <<< 24) ||| (b 1 <<< 16) ||| (b 2 <<< 8) ||| b 3

/-- The 64-word message schedule of the block at `off` of `bs`. -/
def schedule (bs : ByteArray) (off : Nat) : Array UInt32 := Id.run do
  let mut w : Array UInt32 := Array.mkEmpty 64
  for i in [0:16] do
    w := w.push (wordAt bs (off + 4 * i))
  for i in [16:64] do
    let w15 := w.getD (i - 15) 0
    let w2 := w.getD (i - 2) 0
    let s0 := rotr w15 7 ^^^ rotr w15 18 ^^^ (w15 >>> 3)
    let s1 := rotr w2 17 ^^^ rotr w2 19 ^^^ (w2 >>> 10)
    w := w.push (w.getD (i - 16) 0 + s0 + w.getD (i - 7) 0 + s1)
  return w

/-- The chaining words after the block at `off` of `bs`. -/
def compress (h : Array UInt32) (bs : ByteArray) (off : Nat) : Array UInt32 := Id.run do
  let w := schedule bs off
  let mut a := h.getD 0 0
  let mut b := h.getD 1 0
  let mut c := h.getD 2 0
  let mut d := h.getD 3 0
  let mut e := h.getD 4 0
  let mut f := h.getD 5 0
  let mut g := h.getD 6 0
  let mut k := h.getD 7 0
  for i in [0:64] do
    let s1 := rotr e 6 ^^^ rotr e 11 ^^^ rotr e 25
    let ch := (e &&& f) ^^^ (~~~e &&& g)
    let t1 := k + s1 + ch + roundConstants.getD i 0 + w.getD i 0
    let s0 := rotr a 2 ^^^ rotr a 13 ^^^ rotr a 22
    let maj := (a &&& b) ^^^ (a &&& c) ^^^ (b &&& c)
    let t2 := s0 + maj
    k := g
    g := f
    f := e
    e := d + t1
    d := c
    c := b
    b := a
    a := t1 + t2
  return #[h.getD 0 0 + a, h.getD 1 0 + b, h.getD 2 0 + c, h.getD 3 0 + d,
    h.getD 4 0 + e, h.getD 5 0 + f, h.getD 6 0 + g, h.getD 7 0 + k]

/-- Compresses the `count` whole blocks of `bs` from `off` on. -/
def compressBlocks (h : Array UInt32) (bs : ByteArray) (off : Nat) : (count : Nat) → Array UInt32
  | 0 => h
  | count + 1 => compressBlocks (compress h bs off) bs (off + 64) count

/-- Feeds bytes in. -/
def update (s : Sha256) (bs : ByteArray) : Sha256 :=
  let need := 64 - s.pending.size
  if bs.size < need then
    { s with pending := s.pending ++ bs, length := s.length + bs.size }
  else
    let first := s.pending ++ bs.extract 0 need
    let h := compress s.words first 0
    let rest := bs.size - need
    let blocks := rest / 64
    let h := compressBlocks h bs need blocks
    { words := h, pending := bs.extract (need + 64 * blocks) bs.size,
      length := s.length + bs.size }

/-- The padding that ends a message of `length` bytes: a one bit, zeros, and the length in bits
as a big-endian 64-bit number, making the whole a multiple of 64 bytes. -/
def padding (length : Nat) : ByteArray :=
  let zeros := (119 - length % 64) % 64
  let bits := 8 * length
  ByteArray.mk (#[0x80] ++ Array.replicate zeros 0 ++
    ((List.range 8).reverse.map fun i => (bits / Nat.pow 256 i % 256).toUInt8).toArray)

/-- The 32-byte digest of everything fed in. -/
def finish (s : Sha256) : ByteArray :=
  let s := s.update (padding s.length)
  ByteArray.mk (s.words.toList.flatMap fun (w : UInt32) =>
    [(w >>> 24).toUInt8, (w >>> 16).toUInt8, (w >>> 8).toUInt8, w.toUInt8]).toArray

/-- The digest of a byte string. -/
def digest (bs : ByteArray) : ByteArray := ({} : Sha256).update bs |>.finish

end Sha256

end EventStore
