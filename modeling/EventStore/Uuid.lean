/-!
# Identifiers

Nodes, epochs, chunks, subscriptions and correlations are named by 128-bit identifiers. An
identifier is held as its value, so that the order of identifiers is the order of their values,
which is also the order of their sixteen big-endian bytes. The nil identifier is zero.

The text form is the usual one: 32 lowercase hexadecimal digits grouped 8-4-4-4-12. Reading
takes digits of either case, grouped or plain; the grouped form may also stand in braces or after
a lowercase `urn:uuid:`.
-/

namespace EventStore

/-- A 128-bit identifier, held as its value. -/
structure Uuid where
  /-- The identifier read as a big-endian number, below `2 ^ 128`. -/
  value : Nat
  deriving DecidableEq, Hashable, Repr, Inhabited

namespace Uuid

/-- The nil identifier, the default where none is given. -/
def nil : Uuid := ⟨0⟩

instance : Ord Uuid := ⟨fun a b => compare a.value b.value⟩

instance : LT Uuid := ⟨fun a b => a.value < b.value⟩

instance (a b : Uuid) : Decidable (a < b) := inferInstanceAs (Decidable (a.value < b.value))

/-- The hexadecimal digit of a number below sixteen, in lowercase. -/
def hexDigit (n : Nat) : Char :=
  if n < 10 then Char.ofNat (48 + n) else Char.ofNat (87 + n)

/-- The value of a hexadecimal digit of either case. -/
def hexValue? (c : Char) : Option Nat :=
  if '0' ≤ c ∧ c ≤ '9' then some (c.toNat - 48)
  else if 'a' ≤ c ∧ c ≤ 'f' then some (c.toNat - 87)
  else if 'A' ≤ c ∧ c ≤ 'F' then some (c.toNat - 55)
  else none

/-- The `count` low hexadecimal digits of `n`, most significant first. -/
def hexDigits (n : Nat) : (count : Nat) → List Char
  | 0 => []
  | count + 1 => hexDigits (n / 16) count ++ [hexDigit (n % 16)]

/-- The number that a list of hexadecimal digits spells, if every character is one. -/
def ofHexDigits? (cs : List Char) : Option Nat :=
  cs.foldlM (fun acc c => (hexValue? c).map (acc * 16 + ·)) 0

/-- The hyphenated text form, in lowercase. -/
def toText (u : Uuid) : String :=
  let ds := hexDigits u.value 32
  String.ofList (ds.take 8 ++ '-' :: (ds.drop 8).take 4 ++ '-' :: (ds.drop 12).take 4 ++
    '-' :: (ds.drop 16).take 4 ++ '-' :: ds.drop 20)

/-- Reads 32 plain hexadecimal digits. -/
def ofPlain? (cs : List Char) : Option Uuid :=
  if cs.length = 32 then (ofHexDigits? cs).map Uuid.mk else none

/-- Reads 32 hexadecimal digits grouped 8-4-4-4-12 by hyphens. -/
def ofGrouped? (cs : List Char) : Option Uuid :=
  if cs.length = 36 ∧ cs[8]? = some '-' ∧ cs[13]? = some '-' ∧ cs[18]? = some '-' ∧
      cs[23]? = some '-' then
    let ds := (cs.take 8) ++ (cs.drop 9).take 4 ++ (cs.drop 14).take 4 ++ (cs.drop 19).take 4 ++
      cs.drop 24
    (ofHexDigits? ds).map Uuid.mk
  else none

/-- Reads the text forms of an identifier: plain or grouped digits, or grouped digits in braces
or after `urn:uuid:`. -/
def ofText? (s : String) : Option Uuid :=
  let cs := s.toList
  if cs.take 9 = "urn:uuid:".toList then ofGrouped? (cs.drop 9)
  else if cs.head? = some '{' ∧ cs.getLast? = some '}' then ofGrouped? ((cs.drop 1).dropLast)
  else if cs.length = 32 then ofPlain? cs
  else ofGrouped? cs

end Uuid

end EventStore
