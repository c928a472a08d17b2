import EventStore.Bytes

/-!
# Reading binary layouts

A decoder reads a value off the front of a byte string and leaves the rest. It fails with the
cause of the first fault it meets: the input ended (`eof`), no variant of a tagged union has the
tag that was read (`badTag`), a fixed marker differs (`badMagic`), a field of an enumeration has a
value outside it (`badEnumValue`), or a field breaks a stated rule (`assertion`).

Padding after a field is skipped without reading it, so padding that runs past the end of the
input is no fault by itself: the next read fails instead.
-/

namespace EventStore

/-- Why a byte string does not hold a value of the expected layout. -/
inductive DecodeError where
  | eof
  | badTag
  | badMagic
  | badEnumValue
  | assertion (message : String)
  | other
  deriving DecidableEq, Repr, Inhabited

/-- The text that names the cause of a decoding failure. -/
def DecodeError.cause : DecodeError → String
  | .eof => "eof"
  | .badTag => "bad tag"
  | .badMagic => "bad magic"
  | .badEnumValue => "bad enum value"
  | .assertion m => m
  | .other => "other"

/-- A reader of values off the front of a byte string. -/
abbrev Decoder := StateT Bytes (Except DecodeError)

namespace Decoder

/-- Runs a decoder on a byte string, giving the value and the bytes after it. -/
def run {α : Type} (d : Decoder α) (bs : Bytes) : Except DecodeError (α × Bytes) :=
  StateT.run d bs

/-- Splits off the first `n` bytes, reversed onto `acc`, or fails if there are fewer. -/
def splitRev : Nat → Bytes → Bytes → Option (Bytes × Bytes)
  | 0, bs, acc => some (acc, bs)
  | _ + 1, [], _ => none
  | n + 1, b :: bs, acc => splitRev n bs (b :: acc)

/-- The next `n` bytes. -/
def take (n : Nat) : Decoder Bytes := fun bs =>
  match splitRev n bs [] with
  | some (acc, r) => .ok (acc.reverse, r)
  | none => .error .eof

/-- Skips `n` bytes of padding; skipping past the end leaves nothing to read. -/
def skip (n : Nat) : Decoder Unit := fun bs => .ok ((), bs.drop n)

/-- The bytes that are left. -/
def rest : Decoder Bytes := fun bs => .ok (bs, [])

/-- Whether nothing is left to read. -/
def atEnd : Decoder Bool := fun bs => .ok (bs.isEmpty, bs)

/-- Fails with the given cause. -/
def fail {α : Type} (e : DecodeError) : Decoder α := fun _ => .error e

/-- An unsigned big-endian number of `width` bytes. -/
def unsigned (width : Nat) : Decoder Nat := do
  let bs ← take width
  pure (Bytes.toNat bs)

/-- A two's complement big-endian number of `width` bytes. -/
def signed (width : Nat) : Decoder Int := do
  let bs ← take width
  pure (Bytes.toInt bs)

/-- One byte. -/
def u8 : Decoder Nat := unsigned 1
/-- A 16-bit unsigned number. -/
def u16 : Decoder Nat := unsigned 2
/-- A 32-bit unsigned number. -/
def u32 : Decoder Nat := unsigned 4
/-- A 64-bit unsigned number. -/
def u64 : Decoder Nat := unsigned 8
/-- A 32-bit signed number. -/
def i32 : Decoder Int := signed 4
/-- A 64-bit signed number. -/
def i64 : Decoder Int := signed 8

/-- A byte read as a flag: any value but zero is set. -/
def flag : Decoder Bool := do
  let b ← u8
  pure (b != 0)

/-- A sixteen-byte identifier. -/
def uuid : Decoder Uuid := do
  let n ← unsigned 16
  pure ⟨n⟩

/-- A fixed marker: as many bytes as it has, which must equal it. -/
def magic (m : Bytes) : Decoder Unit := do
  let bs ← take m.length
  if bs = m then pure () else fail .badMagic

/-- `count` values one after the other. -/
def many {α : Type} (d : Decoder α) : (count : Nat) → Decoder (List α)
  | 0 => pure []
  | count + 1 => do
    let a ← d
    let as ← many d count
    pure (a :: as)

/-- A byte string prefixed by its length as a 32-bit number. -/
def sized : Decoder Bytes := do
  let n ← u32
  take n

/-- A list prefixed by its length as a 32-bit number. -/
def counted {α : Type} (d : Decoder α) : Decoder (List α) := do
  let n ← u32
  many d n

end Decoder

namespace Bytes

/-- A byte string prefixed by its length as a 32-bit number. -/
def sized (bs : Bytes) : Bytes := ofNat 4 bs.length ++ bs

end Bytes

end EventStore
