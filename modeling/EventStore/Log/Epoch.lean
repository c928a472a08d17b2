import EventStore.Codec.Decoder

/-!
# Epochs

An epoch is a term of leadership. Each begins with a record in the log at the epoch's position,
names the previous epoch's position (-1 for the first epoch), and says when and under which
leader it began. Its binary form is sixty bytes.
-/

namespace EventStore

/-- A term of leadership, as recorded in the log. -/
structure Epoch where
  epochPosition : Int
  epochNumber : Int
  epochId : Uuid
  prevEpochPosition : Int
  timeStamp : Int
  leaderInstanceId : Uuid
  deriving DecidableEq, Repr, Inhabited

namespace Epoch

/-- The binary form, sixty bytes. -/
def encode (e : Epoch) : Bytes :=
  Bytes.ofInt 8 e.epochPosition ++ Bytes.ofInt 4 e.epochNumber ++ Bytes.ofUuid e.epochId ++
    Bytes.ofInt 8 e.prevEpochPosition ++ Bytes.ofInt 8 e.timeStamp ++
    Bytes.ofUuid e.leaderInstanceId

/-- Reads the binary form. -/
def decode : Decoder Epoch := do
  let epochPosition ← Decoder.i64
  let epochNumber ← Decoder.i32
  let epochId ← Decoder.uuid
  let prevEpochPosition ← Decoder.i64
  let timeStamp ← Decoder.i64
  let leaderInstanceId ← Decoder.uuid
  pure { epochPosition, epochNumber, epochId, prevEpochPosition, timeStamp, leaderInstanceId }

end Epoch

end EventStore
