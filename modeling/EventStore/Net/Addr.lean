import EventStore.Codec.Decoder

/-!
# Socket addresses

A socket address is an IPv4 or IPv6 host and a port. Addresses are ordered IPv4 before IPv6,
then by host, then by port (then by IPv6 scope), which is the order that sorts the servers of an
election.

Text form: `a.b.c.d:port` and `[h:h:…:h]:port`. Octets are decimal without a leading zero, IPv6
groups are one to four hexadecimal digits with one `::` standing for a run of zero groups and an
optional trailing dotted IPv4 part, and a scope may follow `%`. Printing writes IPv6 groups in
lowercase without leading zeros, replaces the first longest run of two or more zero groups by
`::`, and writes an IPv4-mapped address as `::ffff:a.b.c.d`.

Binary form: a kind byte, 4 or 6, the host's bytes and the port as two big-endian bytes; the scope
is not written. An optional address is a presence byte (0 for none) before it.
-/

namespace EventStore

/-- The host part of a socket address. -/
inductive Host where
  /-- An IPv4 host, as a 32-bit number. -/
  | v4 (bits : Nat)
  /-- An IPv6 host, as a 128-bit number, with its scope (zero for none). -/
  | v6 (bits : Nat) (scope : Nat)
  deriving DecidableEq, Repr, Inhabited

/-- A host and a port. -/
structure SocketAddr where
  host : Host
  port : Nat
  deriving DecidableEq, Repr, Inhabited

namespace SocketAddr

/-- The order key of an address: family, host, port, scope. -/
def key : SocketAddr → Nat × Nat × Nat × Nat
  | ⟨.v4 bits, port⟩ => (0, bits, port, 0)
  | ⟨.v6 bits scope, port⟩ => (1, bits, port, scope)

/-- Lexicographic comparison of order keys. -/
def compareKey (a b : Nat × Nat × Nat × Nat) : Ordering :=
  (compare a.1 b.1).then ((compare a.2.1 b.2.1).then ((compare a.2.2.1 b.2.2.1).then
    (compare a.2.2.2 b.2.2.2)))

instance : Ord SocketAddr := ⟨fun a b => compareKey a.key b.key⟩

/-- The IPv4 address `127.0.0.1` at a port. -/
def loopback (port : Nat) : SocketAddr := ⟨.v4 0x7f000001, port⟩

/-! ## Reading the text form -/

/-- A reader of a prefix of a character list. -/
abbrev Scan (α : Type) := List Char → Option (α × List Char)

/-- The longest run of leading digits in `radix`, with its value. -/
def digitsRun (radix : Nat) : List Char → List Nat × List Char
  | [] => ([], [])
  | c :: cs =>
    match Uuid.hexValue? c with
    | some d =>
      if d < radix then
        let (ds, rest) := digitsRun radix cs
        (d :: ds, rest)
      else ([], c :: cs)
    | none => ([], c :: cs)

/-- A number in `radix` below `bound`: all leading digits are taken, at least one, at most
`maxDigits` of them; without `zeroPrefix` a number of two or more digits may not start with 0. -/
def scanNumber (radix bound : Nat) (maxDigits : Option Nat) (zeroPrefix : Bool) : Scan Nat :=
  fun cs =>
    let (ds, rest) := digitsRun radix cs
    let value := ds.foldl (fun acc d => acc * radix + d) 0
    if ds.isEmpty then none
    else if maxDigits.any (· < ds.length) then none
    else if bound ≤ value then none
    else if !zeroPrefix && ds.head? = some 0 && 1 < ds.length then none
    else some (value, rest)

/-- Reads the character `c`. -/
def scanChar (c : Char) : Scan Unit
  | d :: rest => if d = c then some ((), rest) else none
  | [] => none

/-- A dotted IPv4 host. -/
def scanV4 : Scan Nat := fun cs => do
  let (a, r) ← scanNumber 10 256 (some 3) false cs
  let ((), r) ← scanChar '.' r
  let (b, r) ← scanNumber 10 256 (some 3) false r
  let ((), r) ← scanChar '.' r
  let (c, r) ← scanNumber 10 256 (some 3) false r
  let ((), r) ← scanChar '.' r
  let (d, r) ← scanNumber 10 256 (some 3) false r
  pure (((a * 256 + b) * 256 + c) * 256 + d, r)

/-- Up to `limit` colon-separated IPv6 groups, the last two of which may be a dotted IPv4 part.
Gives the groups, whether an IPv4 part ended them, and the rest. -/
def scanGroups : (limit : Nat) → (first : Bool) → List Char → List Nat × Bool × List Char
  | 0, _, cs => ([], false, cs)
  | limit + 1, first, cs =>
    let sep : Option (List Char) := if first then some cs else (scanChar ':' cs).map (·.2)
    let v4 : Option (Nat × List Char) :=
      if 0 < limit then sep.bind scanV4 else none
    match v4 with
    | some (bits, rest) => ([bits / 65536, bits % 65536], true, rest)
    | none =>
      match sep.bind (scanNumber 16 65536 (some 4) true) with
      | some (g, rest) =>
        let (gs, v4end, rest') := scanGroups limit false rest
        (g :: gs, v4end, rest')
      | none => ([], false, cs)

/-- The 128-bit number of eight groups. -/
def groupsValue (gs : List Nat) : Nat := gs.foldl (fun acc g => acc * 65536 + g) 0

/-- An IPv6 host: eight groups, or a head and a tail around `::`. -/
def scanV6 : Scan Nat := fun cs =>
  let (head, headV4, r) := scanGroups 8 true cs
  if head.length = 8 then some (groupsValue head, r)
  else if headV4 then none
  else do
    let ((), r) ← scanChar ':' r
    let ((), r) ← scanChar ':' r
    let (tail, _, r) := scanGroups (8 - (head.length + 1)) true r
    pure (groupsValue (head ++ List.replicate (8 - head.length - tail.length) 0 ++ tail), r)

/-- A port after its colon. -/
def scanPort : Scan Nat := fun cs => do
  let ((), r) ← scanChar ':' cs
  scanNumber 10 65536 none true r

/-- The text form of an IPv4 socket address. -/
def scanAddrV4 : Scan SocketAddr := fun cs => do
  let (ip, r) ← scanV4 cs
  let (port, r) ← scanPort r
  pure (⟨.v4 ip, port⟩, r)

/-- The text form of an IPv6 socket address, in brackets, with an optional scope. -/
def scanAddrV6 : Scan SocketAddr := fun cs => do
  let ((), r) ← scanChar '[' cs
  let (ip, r) ← scanV6 r
  let (scope, r) : Nat × List Char :=
    match (scanChar '%' r).bind fun (_, r') => scanNumber 10 (Nat.pow 2 32) none true r' with
    | some (s, r') => (s, r')
    | none => (0, r)
  let ((), r) ← scanChar ']' r
  let (port, r) ← scanPort r
  pure (⟨.v6 ip scope, port⟩, r)

/-- Reads a whole text as a socket address. -/
def ofText? (s : String) : Option SocketAddr :=
  match (scanAddrV4 s.toList).orElse fun _ => scanAddrV6 s.toList with
  | some (a, []) => some a
  | _ => none

/-! ## Printing the text form -/

/-- The dotted form of an IPv4 host. -/
def v4Text (bits : Nat) : String :=
  s!"{bits / Nat.pow 2 24 % 256}.{bits / Nat.pow 2 16 % 256}.{bits / Nat.pow 2 8 % 256}.{bits % 256}"

/-- A group in lowercase hexadecimal without leading zeros. -/
def groupText (g : Nat) : String := String.ofList (Nat.toDigits 16 g)

/-- Groups joined by colons. -/
def groupsText (gs : List Nat) : String := ":".intercalate (gs.map groupText)

/-- The eight groups of an IPv6 host. -/
def groups (bits : Nat) : List Nat :=
  (List.range 8).reverse.map fun i => bits / Nat.pow 65536 i % 65536

/-- The first longest run of zero groups, as start and length. -/
def zeroRun (gs : List Nat) : Nat × Nat :=
  let step := fun (acc : (Nat × Nat) × (Nat × Nat)) (ig : Nat × Nat) =>
    let (best, cur) := acc
    let (i, g) := ig
    if g = 0 then
      let cur' := if cur.2 = 0 then (i, 1) else (cur.1, cur.2 + 1)
      (if best.2 < cur'.2 then cur' else best, cur')
    else (best, (0, 0))
  (gs.zipIdx.map (fun (g, i) => (i, g)) |>.foldl step ((0, 0), (0, 0))).1

/-- The printed form of an IPv6 host. -/
def v6Text (bits : Nat) : String :=
  let gs := groups bits
  if bits / Nat.pow 2 32 = 0xffff then "::ffff:" ++ v4Text (bits % Nat.pow 2 32)
  else
    let (start, len) := zeroRun gs
    if 1 < len then groupsText (gs.take start) ++ "::" ++ groupsText (gs.drop (start + len))
    else groupsText gs

/-- The printed form of a socket address. -/
def toText : SocketAddr → String
  | ⟨.v4 bits, port⟩ => v4Text bits ++ ":" ++ toString port
  | ⟨.v6 bits scope, port⟩ =>
    "[" ++ v6Text bits ++ (if scope = 0 then "" else "%" ++ toString scope) ++ "]:" ++
      toString port

/-! ## Binary form -/

/-- Kind byte, host bytes and port. -/
def encode : SocketAddr → Bytes
  | ⟨.v4 bits, port⟩ => 4 :: Bytes.ofNat 4 bits ++ Bytes.ofNat 2 port
  | ⟨.v6 bits _, port⟩ => 6 :: Bytes.ofNat 16 bits ++ Bytes.ofNat 2 port

/-- A presence byte, then the address if there is one. -/
def encodeOpt : Option SocketAddr → Bytes
  | some a => 1 :: encode a
  | none => [0]

/-- Reads the binary form; a kind other than 4 or 6 breaks the layout's rule. -/
def decode : Decoder SocketAddr := do
  let kind ← Decoder.u8
  if kind = 4 then
    let ip ← Decoder.unsigned 4
    let port ← Decoder.u16
    pure ⟨.v4 ip, port⟩
  else if kind = 6 then
    let ip ← Decoder.unsigned 16
    let port ← Decoder.u16
    pure ⟨.v6 ip 0, port⟩
  else Decoder.fail (.assertion s!"invalid address kind: {kind}")

/-- Reads an optional address after its presence byte. -/
def decodeOpt : Decoder (Option SocketAddr) := do
  let present ← Decoder.u8
  if present = 0 then pure none else some <$> decode

end SocketAddr

end EventStore
