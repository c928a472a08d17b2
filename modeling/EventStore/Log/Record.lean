import EventStore.Log.Epoch

/-!
# Log records

The log is a sequence of records, each stored at a log position. A data record holds what a
client wrote; a system record is written by the node itself, and one of type `epoch` carries an
epoch's binary form.

A record is stored framed: its body's length as four big-endian bytes, the body, and the length
again. The repeated length shows a torn write and lets the log be walked backwards. A body is
never empty nor longer than 16 MiB.
-/

namespace EventStore

/-- What a system record holds. -/
inductive SystemKind where
  | invalid
  | epoch
  deriving DecidableEq, Repr, Inhabited

/-- How a system record's data is written. -/
inductive Serialization where
  | unknown
  | binary
  deriving DecidableEq, Repr, Inhabited

/-- A record written by a client. -/
structure DataRecord where
  logPosition : Int
  timestamp : Int
  correlationId : Uuid
  data : Bytes
  deriving DecidableEq, Repr, Inhabited

/-- The bytes a data record's frame adds to its data: frame lengths, tag, position, timestamp,
correlation identifier and data length. -/
def DataRecord.framedOverhead : Nat := 8 + 1 + 8 + 8 + 16 + 4

/-- A record written by the node itself. -/
structure SystemRecord where
  logPosition : Int
  timestamp : Int
  kind : SystemKind
  serialization : Serialization
  reserved : Nat
  data : Bytes
  deriving DecidableEq, Repr, Inhabited

/-- A record of the log. -/
inductive Record where
  | data (r : DataRecord)
  | system (r : SystemRecord)
  deriving DecidableEq, Repr, Inhabited

namespace SystemKind

/-- The byte value of a kind. -/
def toNat : SystemKind → Nat
  | invalid => 0
  | epoch => 1

/-- The name of a kind. -/
def name : SystemKind → String
  | invalid => "Invalid"
  | epoch => "Epoch"

/-- The kind with a name, if any. -/
def ofName? : String → Option SystemKind
  | "Invalid" => some invalid
  | "Epoch" => some epoch
  | _ => none

/-- Reads a kind byte. -/
def decode : Decoder SystemKind := do
  match ← Decoder.u8 with
  | 0 => pure invalid
  | 1 => pure epoch
  | _ => Decoder.fail .badEnumValue

end SystemKind

namespace Serialization

/-- The byte value of a serialization. -/
def toNat : Serialization → Nat
  | unknown => 0
  | binary => 1

/-- The name of a serialization. -/
def name : Serialization → String
  | unknown => "Unknown"
  | binary => "Binary"

/-- The serialization with a name, if any. -/
def ofName? : String → Option Serialization
  | "Unknown" => some unknown
  | "Binary" => some binary
  | _ => none

/-- Reads a serialization byte. -/
def decode : Decoder Serialization := do
  match ← Decoder.u8 with
  | 0 => pure unknown
  | 1 => pure binary
  | _ => Decoder.fail .badEnumValue

end Serialization

/-- The largest record body. -/
def maxRecordSize : Nat := 16 * 1024 * 1024

/-- The bytes a frame adds to a body: the length before and after it. -/
def frameOverhead : Nat := 8

namespace Record

/-- The position the record is stored at. -/
def logPosition : Record → Int
  | data r => r.logPosition
  | system r => r.logPosition

/-- Whether the record was written by the node. -/
def isSystem : Record → Bool
  | data _ => false
  | system _ => true

/-- The epoch a system record of type epoch carries, if its data reads as one. -/
def epoch? : Record → Option Epoch
  | data _ => none
  | system r =>
    if r.kind = .epoch then
      match Epoch.decode.run r.data with
      | .ok (e, _) => some e
      | .error _ => none
    else none

/-- The body: a tag byte, then the fields. -/
def encode : Record → Bytes
  | data r =>
    1 :: Bytes.ofInt 8 r.logPosition ++ Bytes.ofInt 8 r.timestamp ++ Bytes.ofUuid r.correlationId ++
      Bytes.sized r.data
  | system r =>
    2 :: Bytes.ofInt 8 r.logPosition ++ Bytes.ofInt 8 r.timestamp ++
      [UInt8.ofNat r.kind.toNat, UInt8.ofNat r.serialization.toNat] ++ Bytes.ofNat 8 r.reserved ++
      Bytes.sized r.data

/-- Reads a body. -/
def decode : Decoder Record := do
  let tag ← Decoder.u8
  if tag = 1 then
    let logPosition ← Decoder.i64
    let timestamp ← Decoder.i64
    let correlationId ← Decoder.uuid
    let d ← Decoder.sized
    pure (data ⟨logPosition, timestamp, correlationId, d⟩)
  else if tag = 2 then
    let logPosition ← Decoder.i64
    let timestamp ← Decoder.i64
    let kind ← SystemKind.decode
    let serialization ← Serialization.decode
    let reserved ← Decoder.u64
    let d ← Decoder.sized
    pure (system ⟨logPosition, timestamp, kind, serialization, reserved, d⟩)
  else Decoder.fail .badTag

/-- The framed record: length, body, length. -/
def framed (r : Record) : Bytes :=
  let body := r.encode
  Bytes.ofNat 4 body.length ++ body ++ Bytes.ofNat 4 body.length

/-- Appends the framed record to `buf`, giving the frame's length. Room for the length is left
before the body and filled in once the body is written; the length is then repeated after it. -/
def writeFramed (r : Record) (buf : Bytes) : Bytes × Nat :=
  let start := buf.length
  let written := buf ++ List.replicate 4 0 ++ r.encode
  let bodyLen := written.length - start - 4
  let patched := written.take start ++ Bytes.ofNat 4 bodyLen ++ written.drop (start + 4)
  let out := patched ++ Bytes.ofNat 4 bodyLen
  (out, out.length - start)

/-- The body length a frame's first four bytes announce, if it is a valid one. -/
def frameBodyLen (pfx : Bytes) : Except DecodeError Nat :=
  let len := Bytes.toNat pfx
  if len = 0 ∨ maxRecordSize < len then .error (.assertion s!"invalid record length: {len}")
  else .ok len

/-- Reads a whole frame: it must be long enough, announce a valid length, be exactly that long,
and end with the length it starts with. -/
def readFramed (frame : Bytes) : Except DecodeError Record := do
  if frame.length < frameOverhead then throw (.assertion "frame too short")
  let bodyLen ← frameBodyLen (frame.take 4)
  if frame.length ≠ bodyLen + frameOverhead ∨ frame.drop (frame.length - 4) ≠ frame.take 4 then
    throw (.assertion "record suffix does not match")
  let (r, _) ← decode.run ((frame.drop 4).take bodyLen)
  pure r

end Record

namespace Epoch

/-- The system record that begins an epoch. -/
def toRecord (e : Epoch) : Record :=
  .system ⟨e.epochPosition, e.timeStamp, .epoch, .binary, 0, e.encode⟩

end Epoch

end EventStore
