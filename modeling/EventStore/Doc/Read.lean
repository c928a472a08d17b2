import EventStore.Doc.Render
import EventStore.Net.Addr

/-!
# Reading requests

A request field is read by a `Read`: it gives a value, refuses the request as bad input, or stops
the program the way building the value would (a byte string whose size overflows). Reading may
name an identifier by a label printed earlier in the same answer, so it works on the answer's
`Labels`, and every identifier it reads by value is recorded there as given by the request. A
recorded identifier stays recorded when a later field fails.

Numbers must be integers in the range of the field's type. Bytes are given as hexadecimal text, as
`{"byte": b, "len": n}` (n copies of b, n at most `2 ^ 24`) or as `{"hex": h, "repeat": n}`.
Identifiers are given as a number below `2 ^ 64`, as text, or as a label `"$k"`.
-/

namespace EventStore

/-- Why a request could not be read. -/
inductive ReadFailure where
  /-- The request is bad input. -/
  | rejected
  /-- Building a value the request asks for stops the program. -/
  | stopped
  deriving DecidableEq, Repr, Inhabited

/-- The answer to a request that could not be read. -/
def ReadFailure.toDoc : ReadFailure → Doc
  | .rejected => Doc.badInput
  | .stopped => Doc.error "panic"

/-- A reader of request fields. -/
abbrev Read := ExceptT ReadFailure (StateM Labels)

namespace Read

/-- Refuses the request. -/
def reject {α : Type} : Read α := throw .rejected

/-- Stops the program. -/
def stop {α : Type} : Read α := throw .stopped

/-- Lifts an optional value, refusing the request when it is absent. -/
def ofOption {α : Type} (o : Option α) : Read α :=
  match o with
  | some a => pure a
  | none => reject

/-- Runs a reader, giving `none` where it refuses the request; a stop still stops. -/
def attempt {α : Type} (r : Read α) : Read (Option α) :=
  tryCatch (some <$> r) fun
    | .rejected => pure none
    | .stopped => stop

/-- Runs a reader against printing state `L`: its outcome and the printing state after it. -/
def run {α : Type} (r : Read α) (L : Labels) : Except ReadFailure α × Labels :=
  (ExceptT.run r).run L

/-- Runs a reader that sets a session up: its value with the printing state after it. -/
def setup {α : Type} (r : Read α) (L : Labels) : Except ReadFailure (α × Labels) :=
  match r.run L with
  | (.ok a, L') => .ok (a, L')
  | (.error e, _) => .error e

end Read

namespace Doc

/-- The required field `k`. -/
def need (d : Doc) (k : String) : Read Doc := Read.ofOption (d.get? k)

/-- An integer in `[lo, hi]`. -/
def intIn (lo hi : Int) : Doc → Read Int
  | int n => if lo ≤ n ∧ n ≤ hi then pure n else Read.reject
  | _ => Read.reject

/-- A natural number below `2 ^ bits`. -/
def natBits (bits : Nat) (d : Doc) : Read Nat := do
  let n ← intIn 0 (Int.pow 2 bits - 1) d
  pure n.toNat

/-- A signed number that fits `bits` bits. -/
def intBits (bits : Nat) : Doc → Read Int :=
  intIn (-Int.pow 2 (bits - 1)) (Int.pow 2 (bits - 1) - 1)

/-- An unsigned byte. -/
def u8 : Doc → Read Nat := natBits 8
/-- A 16-bit unsigned number. -/
def u16 : Doc → Read Nat := natBits 16
/-- A 32-bit unsigned number. -/
def u32 : Doc → Read Nat := natBits 32
/-- A 64-bit unsigned number. -/
def u64 : Doc → Read Nat := natBits 64

/-- A number of things room is made for up front: at most 2 ^ 20 of them. -/
def amount (d : Doc) : Read Nat := do
  let n ← natBits 64 d
  if n ≤ Nat.pow 2 20 then pure n else Read.reject

/-- A 32-bit signed number. -/
def i32 : Doc → Read Int := intBits 32
/-- A 64-bit signed number. -/
def i64 : Doc → Read Int := intBits 64

/-- A boolean. -/
def toBool : Doc → Read Bool
  | bool b => pure b
  | _ => Read.reject

/-- A text. -/
def toStr : Doc → Read String
  | str s => pure s
  | _ => Read.reject

/-- A list, each element read by `r`. -/
def toList {α : Type} (r : Doc → Read α) : Doc → Read (List α)
  | arr items => items.mapM r
  | _ => Read.reject

/-- Raw list elements. -/
def items : Doc → Read (List Doc)
  | arr items => pure items
  | _ => Read.reject

/-- Bytes in any of the three input forms. -/
def toBytes (d : Doc) : Read Bytes :=
  match d with
  | str s => Read.ofOption (Bytes.ofHex? s)
  | obj _ =>
    if d.has "byte" then do
      let b ← u8 (← d.need "byte")
      let n ← natBits 64 (← d.need "len")
      if n ≤ Nat.pow 2 24 then pure (List.replicate n (UInt8.ofNat b)) else Read.reject
    else do
      let h ← toStr (← d.need "hex")
      let n ← natBits 64 (← d.need "repeat")
      let bs ← Read.ofOption (Bytes.ofHex? h)
      let size := bs.length * n
      -- The size is checked as a 64-bit word: one that wraps below the limit passes the check,
      -- and building the bytes then stops the program.
      if size ≤ Nat.pow 2 24 then pure (List.replicate n bs).flatten
      else if size % Nat.pow 2 64 ≤ Nat.pow 2 24 then Read.stop
      else Read.reject
  | _ => Read.reject

/-- The number a label gives after its `$`: decimal digits with an optional leading `+`, below
`2 ^ 64`. -/
def labelNumber? (cs : List Char) : Option Nat :=
  let ds := match cs with
    | '+' :: rest => rest
    | _ => cs
  if ds.isEmpty || !ds.all Char.isDigit then none
  else
    let n := ds.foldl (fun acc c => acc * 10 + (c.toNat - 48)) 0
    if n < Nat.pow 2 64 then some n else none

/-- Records an identifier as given by the request. -/
def noteGiven (u : Uuid) : Read Unit :=
  modify fun L => if L.given.contains u.value then L else { L with given := u.value :: L.given }

/-- An identifier: a number below `2 ^ 64` or a text form, each recorded as given, or a label
printed earlier, `"$"` followed by decimal digits with an optional `+`. -/
def toUuid : Doc → Read Uuid
  | int n =>
    if 0 ≤ n ∧ n < Int.pow 2 64 then do
      let u : Uuid := ⟨n.toNat⟩
      noteGiven u
      pure u
    else Read.reject
  | str s =>
    match s.toList with
    | '$' :: ds => do
      let L ← get
      let k ← Read.ofOption (labelNumber? ds)
      Read.ofOption (L.resolve? k)
    | _ => do
      let u ← Read.ofOption (Uuid.ofText? s)
      noteGiven u
      pure u
  | _ => Read.reject

/-- A socket address in its text form. -/
def toAddr : Doc → Read SocketAddr
  | str s => Read.ofOption (SocketAddr.ofText? s)
  | _ => Read.reject

/-- The required field `k`, read by `r`. -/
def req {α : Type} (d : Doc) (k : String) (r : Doc → Read α) : Read α := do
  r (← d.need k)

/-- The field `k` read by `r`, or `dflt` when it is absent. -/
def reqD {α : Type} (d : Doc) (k : String) (r : Doc → Read α) (dflt : α) : Read α :=
  match d.get? k with
  | some v => r v
  | none => pure dflt

/-- The field `k` read by `r`, if present. -/
def opt? {α : Type} (d : Doc) (k : String) (r : Doc → Read α) : Read (Option α) :=
  match d.get? k with
  | some v => some <$> r v
  | none => pure none

/-- The text of field `t`, which names a message's kind. -/
def kind (d : Doc) : Read String := d.req "t" toStr

end Doc

end EventStore
