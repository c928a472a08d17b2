import EventStore.Uuid

/-!
# Byte strings

Everything on the wire and on disk is a byte string, held as a `List UInt8`. Numbers are written
big-endian in a fixed width; a signed number is written as its two's complement in that width.
Reading a width back gives the number modulo `256 ^ width` (`toNat_ofNat`), so a number that
fits its width comes back unchanged.

The text form of a byte string is its lowercase hexadecimal digits, two per byte.
-/

namespace EventStore

/-- A byte string. -/
abbrev Bytes := List UInt8

namespace Bytes

/-- The `width` low bytes of `n`, most significant first. -/
def ofNat (width : Nat) (n : Nat) : Bytes :=
  (List.range width).reverse.map fun i => UInt8.ofNat (n / Nat.pow 256 i % 256)

/-- The number that a byte string spells, most significant byte first. -/
def toNat (bs : Bytes) : Nat :=
  bs.foldl (fun acc b => acc * 256 + b.toNat) 0

/-- The two's complement of `i` in `width` bytes. -/
def ofInt (width : Nat) (i : Int) : Bytes :=
  ofNat width (i % (Nat.pow 256 width : Nat)).toNat

/-- The signed number whose two's complement in `bs.length` bytes is `bs`. -/
def toInt (bs : Bytes) : Int :=
  let n := toNat bs
  if 2 * n < Nat.pow 256 bs.length then n else (n : Int) - (Nat.pow 256 bs.length : Nat)

/-- Lowercase hexadecimal, two digits per byte. -/
def toHex (bs : Bytes) : String :=
  String.ofList (bs.flatMap fun b => Uuid.hexDigits b.toNat 2)

/-- Reads pairs of hexadecimal digits of either case; an odd count is refused. -/
def ofHexChars? : List Char → Option Bytes
  | [] => some []
  | [_] => none
  | hi :: lo :: rest => do
    let h ← Uuid.hexValue? hi
    let l ← Uuid.hexValue? lo
    let tail ← ofHexChars? rest
    pure (UInt8.ofNat (h * 16 + l) :: tail)

/-- Reads a hexadecimal text of either case. -/
def ofHex? (s : String) : Option Bytes := ofHexChars? s.toList

/-- The sixteen bytes of an identifier. -/
def ofUuid (u : Uuid) : Bytes := ofNat 16 u.value

end Bytes

end EventStore
