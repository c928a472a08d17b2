import EventStore.Store.Checkpoint
import EventStore.Codec.Decoder

/-!
# Storage failures

What can go wrong in the chunk database (`DbError`), in the epoch history built on it
(`EpochError`) and in the storage services (`ServiceError`), each with the name of its kind and its
text. A kind name spells the whole chain, outer layer first (`Db.Checkpoint.InvalidLength`); the
text is that of the innermost failure.

A storage operation can also stop the program (`Fault.panic`): a position that does not fit the
chunk numbering, a division by a chunk size of zero, or use of a database that an earlier stop left
half-changed.
-/

namespace EventStore

/-- Why a chunk database operation failed. -/
inductive DbError where
  | io (cause : IoError)
  | checkpoint (cause : CheckpointError)
  | chunkNotFound (number : Nat)
  | extraneousChunk (number : Nat)
  | badChunkHeader (path : String) (cause : DecodeError)
  | badPosMap (cause : DecodeError)
  | chunkFileTruncated (path : String)
  | chunkNotCompleted (path : String)
  | chunkReadOnly (path : String)
  | hashMismatch (path : String)
  | corruptRecord (position : Int) (cause : DecodeError)
  | writerInsideCompletedChunk (position : Int)
  | chaserAheadOfWriter (chaser writer : Int)
  | recordTooLarge (len : Nat)
  | noActiveChunk (position : Int)
  | unexpectedChunk (expected got : Nat)
  | replicationOutOfSync (expected got : Int)
  | positionOutOfBounds (position len : Nat)
  | cantTruncateChunk (path : String) (position : Int)
  | invalidScavengeRange (start finish : Nat)
  | recordNotFound (position : Int)
  | closed
  deriving DecidableEq, Repr, Inhabited

namespace DbError

/-- The name of the kind of failure, with the kinds it wraps. -/
def kind : DbError → String
  | .io _ => "Io"
  | .checkpoint e => "Checkpoint." ++ e.kind
  | .chunkNotFound _ => "ChunkNotFound"
  | .extraneousChunk _ => "ExtraneousChunk"
  | .badChunkHeader _ _ => "BadChunkHeader"
  | .badPosMap _ => "BadPosMap"
  | .chunkFileTruncated _ => "ChunkFileTruncated"
  | .chunkNotCompleted _ => "ChunkNotCompleted"
  | .chunkReadOnly _ => "ChunkReadOnly"
  | .hashMismatch _ => "HashMismatch"
  | .corruptRecord _ _ => "CorruptRecord"
  | .writerInsideCompletedChunk _ => "WriterInsideCompletedChunk"
  | .chaserAheadOfWriter _ _ => "ChaserAheadOfWriter"
  | .recordTooLarge _ => "RecordTooLarge"
  | .noActiveChunk _ => "NoActiveChunk"
  | .unexpectedChunk _ _ => "UnexpectedChunk"
  | .replicationOutOfSync _ _ => "ReplicationOutOfSync"
  | .positionOutOfBounds _ _ => "PositionOutOfBounds"
  | .cantTruncateChunk _ _ => "CantTruncateChunk"
  | .invalidScavengeRange _ _ => "InvalidScavengeRange"
  | .recordNotFound _ => "RecordNotFound"
  | .closed => "Closed"

/-- The text of the innermost failure. -/
def message : DbError → String
  | .io _ => "io error"
  | .checkpoint e => e.message
  | .chunkNotFound n => s!"chunk #{n} not found"
  | .extraneousChunk n => s!"extraneous chunk #{n} found past the writer checkpoint"
  | .badChunkHeader p _ => s!"invalid chunk header in {p}"
  | .badPosMap _ => "invalid position map"
  | .chunkFileTruncated p => s!"chunk file {p} is truncated"
  | .chunkNotCompleted p => s!"chunk {p} is not completed"
  | .chunkReadOnly p => s!"chunk {p} is read-only"
  | .hashMismatch p => s!"chunk {p} hash mismatch"
  | .corruptRecord pos _ => s!"corrupt record at {pos}"
  | .writerInsideCompletedChunk pos => s!"writer checkpoint {pos} points inside a completed chunk"
  | .chaserAheadOfWriter c w => s!"chaser checkpoint {c} is ahead of writer checkpoint {w}"
  | .recordTooLarge len => s!"record of {len} bytes does not fit in a chunk"
  | .noActiveChunk pos => s!"no active chunk at {pos}"
  | .unexpectedChunk e g => s!"unexpected chunk #{g}, expected #{e}"
  | .replicationOutOfSync e g => s!"replicated data at {g} does not match writer position {e}"
  | .positionOutOfBounds pos len => s!"position {pos} past the end of file ({len})"
  | .cantTruncateChunk p pos => s!"can not truncate chunk {p} at {pos}"
  | .invalidScavengeRange s f => s!"can not scavenge chunks #{s}-#{f}"
  | .recordNotFound pos => s!"no record at {pos}"
  | .closed => "database is closed"

/-- Whether the failure says the replication stream does not fit the local log, which a replica
recovers from by subscribing again. -/
def isOutOfSync : DbError → Bool
  | .replicationOutOfSync _ _ | .unexpectedChunk _ _ | .noActiveChunk _ => true
  | _ => false

end DbError

/-- Why an epoch history operation failed. -/
inductive EpochError where
  | db (cause : DbError)
  | checkpoint (cause : CheckpointError)
  | notAnEpoch (position : Int)
  | outOfOrder (number : Int) (position : Int) (lastNumber : Int) (lastPosition : Int)
  deriving DecidableEq, Repr, Inhabited

namespace EpochError

/-- The name of the kind of failure, with the kinds it wraps. -/
def kind : EpochError → String
  | .db e => "Db." ++ e.kind
  | .checkpoint e => "Checkpoint." ++ e.kind
  | .notAnEpoch _ => "NotAnEpoch"
  | .outOfOrder _ _ _ _ => "OutOfOrder"

/-- The text of the innermost failure. -/
def message : EpochError → String
  | .db e => e.message
  | .checkpoint e => e.message
  | .notAnEpoch pos => s!"record at {pos} is not an epoch"
  | .outOfOrder n p ln lp => s!"epoch #{n}@{p} does not follow the last epoch #{ln}@{lp}"

end EpochError

/-- Why a storage service stopped. -/
inductive ServiceError where
  | db (cause : DbError)
  | epoch (cause : EpochError)
  | checkpoint (cause : CheckpointError)
  deriving DecidableEq, Repr, Inhabited

namespace ServiceError

/-- The name of the kind of failure, with the kinds it wraps. -/
def kind : ServiceError → String
  | .db e => "Db." ++ e.kind
  | .epoch e => "Epoch." ++ e.kind
  | .checkpoint e => "Checkpoint." ++ e.kind

/-- The text of the innermost failure. -/
def message : ServiceError → String
  | .db e => e.message
  | .epoch e => e.message
  | .checkpoint e => e.message

end ServiceError

/-- How a storage operation can end other than with a value: a failure it reports, or a stop of
the whole program. -/
inductive Fault (ε : Type) where
  | error (e : ε)
  | panic
  deriving Repr, Inhabited

namespace Fault

/-- Wraps the reported failure, leaving a stop as it is. -/
def map {ε δ : Type} (f : ε → δ) : Fault ε → Fault δ
  | .error e => .error (f e)
  | .panic => .panic

end Fault

end EventStore
