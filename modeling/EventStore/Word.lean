/-!
# Machine words

Log positions are signed 64-bit words, chunk numbers unsigned 32-bit words and views signed
32-bit words, and their arithmetic wraps around. `Word.signed bits x` is the word of `bits` bits
that `x` wraps to, in `[-2 ^ (bits - 1), 2 ^ (bits - 1))`; `Word.unsigned bits x` is the one in
`[0, 2 ^ bits)`. Both leave a value already in range unchanged.
-/

namespace EventStore

namespace Word

/-- `x` wrapped to a signed word of `bits` bits. -/
def signed (bits : Nat) (x : Int) : Int := x.bmod (Nat.pow 2 bits)

/-- `x` wrapped to an unsigned word of `bits` bits. -/
def unsigned (bits : Nat) (x : Int) : Nat := (x % (Nat.pow 2 bits : Nat)).toNat

/-- A 64-bit log position. -/
def pos (x : Int) : Int := signed 64 x

/-- The chunk number after chunk `n`; the one after the largest is 0. -/
def nextChunk (n : Nat) : Nat := unsigned 32 (n + 1)

end Word

end EventStore
