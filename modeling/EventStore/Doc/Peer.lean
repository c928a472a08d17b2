import EventStore.Doc.Forms
import EventStore.Peer.Message

/-!
# Document forms of peer messages

A peer message is written `{"t": kind, fields…}` with the fields in wire order. Reading fills in
the defaults the request format gives (`-1` for unknown positions and epoch numbers, zero for
checkpoints and priorities, the nil identifier for epoch and chunk identifiers).

Where replication traffic is followed through a store, bulk payloads print as summaries: raw
chunk bytes by their length, record data as the records it frames (`Frames.view`).
-/

namespace EventStore

/-- How the data of a replication bulk is printed. -/
inductive BulkForm where
  /-- Every byte, as bytes print. -/
  | bytes
  /-- Raw chunk bytes by their count, record data as the records it frames. -/
  | summary
  deriving DecidableEq, Inhabited

namespace Frames

/-- The record framed at the very start of `bs`, with the frame's length, if a complete valid
frame starts there. -/
def recordAt (bs : Bytes) : Option (Record × Nat) :=
  match Record.frameBodyLen (bs.take 4) with
  | .ok len =>
    if bs.length < 4 then none
    else
      let frame := bs.take (len + frameOverhead)
      if frame.length < len + frameOverhead then none
      else
        match Record.readFramed frame with
        | .ok r => some (r, len + frameOverhead)
        | .error _ => none
  | .error _ => none

/-- The offset of the first record frame at or after the start of `bs`, with fuel. -/
def nextRecord : Nat → Bytes → Option Nat
  | 0, _ => none
  | fuel + 1, bs =>
    match bs with
    | [] => none
    | _ :: rest =>
      if (recordAt bs).isSome then some 0 else (nextRecord fuel rest).map (· + 1)

/-- The records framed one after another, runs without a record as `{"skip": n}`, and the tail
that holds no complete record. -/
def walk : Nat → Bytes → List Doc → List Doc × Bytes
  | 0, bs, acc => (acc.reverse, bs)
  | fuel + 1, bs, acc =>
    if bs.isEmpty then (acc.reverse, [])
    else
      match recordAt bs with
      | some (r, n) => walk fuel (bs.drop n) (r.toDoc :: acc)
      | none =>
        match nextRecord bs.length bs with
        | some k => walk fuel (bs.drop k) (.obj [("skip", .nat k)] :: acc)
        | none => (acc.reverse, bs)

/-- The printed summary of record data. -/
def view (bs : Bytes) : Doc :=
  let (frames, tail) := walk (bs.length + 1) bs []
  .withOptional [("len", .nat bs.length), ("frames", .arr frames)]
    [("rest", if tail.isEmpty then none else some (.ofBytes tail))]

end Frames

namespace Candidacy

/-- The printed fields, from the epoch number on. -/
def fields (c : Candidacy) : List (String × Doc) :=
  [("epoch_number", .int c.epochNumber), ("epoch_position", .int c.epochPosition),
    ("epoch_id", .ident c.epochId), ("last_commit_position", .int c.lastCommitPosition),
    ("writer_checkpoint", .int c.writerCheckpoint), ("chaser_checkpoint", .int c.chaserCheckpoint),
    ("node_priority", .int c.nodePriority)]

/-- Reads the fields, with their defaults. -/
def read (d : Doc) : Read Candidacy := do
  pure ⟨← d.reqD "epoch_number" Doc.i32 (-1), ← d.reqD "epoch_position" Doc.i64 (-1),
    ← d.reqD "epoch_id" Doc.toUuid .nil, ← d.reqD "last_commit_position" Doc.i64 (-1),
    ← d.reqD "writer_checkpoint" Doc.i64 0, ← d.reqD "chaser_checkpoint" Doc.i64 0,
    ← d.reqD "node_priority" Doc.i32 0⟩

end Candidacy

namespace PeerMessage

/-- The printed fields of a message, without its kind. -/
def fields (form : BulkForm) : PeerMessage → List (String × Doc)
  | viewChange m =>
    [("server_id", .ident m.serverId), ("server_internal", .ofAddr m.serverInternal),
      ("attempted_view", .int m.attemptedView)]
  | viewChangeProof m =>
    [("server_id", .ident m.serverId), ("server_internal", .ofAddr m.serverInternal),
      ("installed_view", .int m.installedView)]
  | prepare m =>
    [("server_id", .ident m.serverId), ("server_internal", .ofAddr m.serverInternal),
      ("view", .int m.view)]
  | prepareOk m =>
    [("view", .int m.view), ("server_id", .ident m.serverId),
      ("server_internal", .ofAddr m.serverInternal)] ++ m.candidacy.fields
  | proposal m =>
    [("server_id", .ident m.serverId), ("server_internal", .ofAddr m.serverInternal),
      ("master_id", .ident m.masterId), ("master_internal", .ofAddr m.masterInternal),
      ("view", .int m.view)] ++ m.candidacy.fields
  | accept m =>
    [("server_id", .ident m.serverId), ("server_internal", .ofAddr m.serverInternal),
      ("master_id", .ident m.masterId), ("master_internal", .ofAddr m.masterInternal),
      ("view", .int m.view)]
  | gossip sender members =>
    [("sender_internal", .ofAddr sender), ("members", .arr (members.map Member.toDoc))]
  | subscribeReplica m =>
    [("log_position", .int m.logPosition), ("chunk_id", .ident m.chunkId),
      ("last_epochs", .arr (m.lastEpochs.map Epoch.toDoc)), ("replica_id", .ident m.replicaId),
      ("replica_internal", .ofAddr m.replicaInternal), ("master_id", .ident m.masterId),
      ("subscription_id", .ident m.subscriptionId)]
  | replicaSubscribed m =>
    [("master_id", .ident m.masterId), ("subscription_id", .ident m.subscriptionId),
      ("subscription_position", .int m.subscriptionPosition)]
  | replicaSubscriptionRetry m =>
    [("master_id", .ident m.masterId), ("subscription_id", .ident m.subscriptionId)]
  | createChunk m =>
    [("master_id", .ident m.masterId), ("subscription_id", .ident m.subscriptionId),
      ("chunk_header", m.chunkHeader.toDoc), ("file_size", .nat m.fileSize),
      ("is_completed_chunk", .bool m.isCompletedChunk)]
  | rawChunkBulk m =>
    [("master_id", .ident m.masterId), ("subscription_id", .ident m.subscriptionId),
      ("chunk_start_number", .nat m.chunkStartNumber), ("chunk_end_number", .nat m.chunkEndNumber),
      ("raw_position", .nat m.rawPosition),
      ("raw_bytes", match form with
        | .bytes => .ofBytes m.rawBytes
        | .summary => .obj [("len", .nat m.rawBytes.length)]),
      ("complete_chunk", .bool m.completeChunk)]
  | dataChunkBulk m =>
    [("master_id", .ident m.masterId), ("subscription_id", .ident m.subscriptionId),
      ("chunk_start_number", .nat m.chunkStartNumber), ("chunk_end_number", .nat m.chunkEndNumber),
      ("subscription_position", .int m.subscriptionPosition),
      ("data_bytes", match form with
        | .bytes => .ofBytes m.dataBytes
        | .summary => Frames.view m.dataBytes),
      ("complete_chunk", .bool m.completeChunk)]
  | ackLogPosition m =>
    [("subscription_id", .ident m.subscriptionId),
      ("replication_log_position", .int m.replicationLogPosition)]
  | writeAck m => [("subscription_id", .ident m.subscriptionId), ("log_position", .int m.logPosition)]
  | slaveAssignment m => [("master_id", .ident m.masterId), ("subscription_id", .ident m.subscriptionId)]
  | cloneAssignment m => [("master_id", .ident m.masterId), ("subscription_id", .ident m.subscriptionId)]
  | forwardWrite m =>
    [("internal_corr_id", .ident m.internalCorrId), ("events", .arr (m.events.map Doc.ofBytes))]
  | forwardWriteCompleted m =>
    [("internal_corr_id", .ident m.internalCorrId), ("result", .str m.result.name),
      ("first_position", .int m.firstPosition), ("last_position", .int m.lastPosition)]
  | heartbeatRequest n => [("msg_num", .nat n)]
  | heartbeatResponse n => [("msg_num", .nat n)]

/-- The printed form of a message, with a kind prefix for its name (empty on the wire, a group
name on the bus). -/
def toDocAs (form : BulkForm) (kindPrefix : String) (m : PeerMessage) : Doc :=
  .obj (("t", .str (kindPrefix ++ m.kindName)) :: m.fields form)

/-- The printed form of a message. -/
def toDoc (m : PeerMessage) : Doc := toDocAs .bytes "" m

/-- Reads a write result name. -/
def readResult (d : Doc) : Read WriteResult := do
  Read.ofOption (WriteResult.ofName? (← d.toStr))

/-- Reads a subscription reference. -/
def readRef (d : Doc) : Read SubscriptionRef := do
  pure ⟨← d.req "master_id" Doc.toUuid, ← d.req "subscription_id" Doc.toUuid⟩

/-- Reads the fields of a `SubscribeReplica`. -/
def readSubscribe (d : Doc) : Read SubscribeReplica := do
  pure ⟨← d.req "log_position" Doc.i64, ← d.reqD "chunk_id" Doc.toUuid .nil,
    ← d.reqD "last_epochs" (Doc.toList Epoch.read) [], ← d.req "replica_id" Doc.toUuid,
    ← d.reqD "replica_internal" Doc.toAddr (SocketAddr.loopback 2112),
    ← d.req "master_id" Doc.toUuid, ← d.req "subscription_id" Doc.toUuid⟩

/-- Reads the fields of an `AckLogPosition`. -/
def readAck (d : Doc) : Read AckLogPosition := do
  pure ⟨← d.req "subscription_id" Doc.toUuid, ← d.req "replication_log_position" Doc.i64⟩

/-- Reads the fields of a `WriteAck`. -/
def readWriteAck (d : Doc) : Read WriteAck := do
  pure ⟨← d.req "subscription_id" Doc.toUuid, ← d.req "log_position" Doc.i64⟩

/-- Reads the fields of a `ForwardWrite`. -/
def readForwardWrite (d : Doc) : Read ForwardWrite := do
  pure ⟨← d.req "internal_corr_id" Doc.toUuid, ← d.reqD "events" (Doc.toList Doc.toBytes) []⟩

/-- Reads the fields of a `ForwardWriteCompleted`. -/
def readForwardWriteCompleted (d : Doc) : Read ForwardWriteCompleted := do
  pure ⟨← d.req "internal_corr_id" Doc.toUuid, ← d.req "result" readResult,
    ← d.reqD "first_position" Doc.i64 (-1), ← d.reqD "last_position" Doc.i64 (-1)⟩

/-- Reads the fields of a message of the named kind. -/
def readAs (kind : String) (d : Doc) : Read PeerMessage :=
  match kind with
  | "ViewChange" => do
    pure (viewChange ⟨← d.req "server_id" Doc.toUuid, ← d.req "server_internal" Doc.toAddr,
      ← d.req "attempted_view" Doc.i32⟩)
  | "ViewChangeProof" => do
    pure (viewChangeProof ⟨← d.req "server_id" Doc.toUuid, ← d.req "server_internal" Doc.toAddr,
      ← d.req "installed_view" Doc.i32⟩)
  | "Prepare" => do
    pure (prepare ⟨← d.req "server_id" Doc.toUuid, ← d.req "server_internal" Doc.toAddr,
      ← d.req "view" Doc.i32⟩)
  | "PrepareOk" => do
    pure (prepareOk ⟨← d.req "view" Doc.i32, ← d.req "server_id" Doc.toUuid,
      ← d.req "server_internal" Doc.toAddr, ← Candidacy.read d⟩)
  | "Proposal" => do
    pure (proposal ⟨← d.req "server_id" Doc.toUuid, ← d.req "server_internal" Doc.toAddr,
      ← d.req "master_id" Doc.toUuid, ← d.req "master_internal" Doc.toAddr, ← d.req "view" Doc.i32,
      ← Candidacy.read d⟩)
  | "Accept" => do
    pure (accept ⟨← d.req "server_id" Doc.toUuid, ← d.req "server_internal" Doc.toAddr,
      ← d.req "master_id" Doc.toUuid, ← d.req "master_internal" Doc.toAddr, ← d.req "view" Doc.i32⟩)
  | "Gossip" => do
    pure (gossip (← d.req "sender_internal" Doc.toAddr) (← d.req "members" (Doc.toList Member.read)))
  | "SubscribeReplica" => subscribeReplica <$> readSubscribe d
  | "ReplicaSubscribed" => do
    pure (replicaSubscribed ⟨← d.req "master_id" Doc.toUuid, ← d.req "subscription_id" Doc.toUuid,
      ← d.req "subscription_position" Doc.i64⟩)
  | "ReplicaSubscriptionRetry" => replicaSubscriptionRetry <$> readRef d
  | "CreateChunk" => do
    pure (createChunk ⟨← d.req "master_id" Doc.toUuid, ← d.req "subscription_id" Doc.toUuid,
      ← d.req "chunk_header" ChunkHeader.read, ← d.req "file_size" Doc.u64,
      ← d.reqD "is_completed_chunk" Doc.toBool false⟩)
  | "RawChunkBulk" => do
    pure (rawChunkBulk ⟨← d.req "master_id" Doc.toUuid, ← d.req "subscription_id" Doc.toUuid,
      ← d.req "chunk_start_number" Doc.u32, ← d.req "chunk_end_number" Doc.u32,
      ← d.req "raw_position" Doc.u64, ← d.reqD "raw_bytes" Doc.toBytes [],
      ← d.reqD "complete_chunk" Doc.toBool false⟩)
  | "DataChunkBulk" => do
    pure (dataChunkBulk ⟨← d.req "master_id" Doc.toUuid, ← d.req "subscription_id" Doc.toUuid,
      ← d.req "chunk_start_number" Doc.u32, ← d.req "chunk_end_number" Doc.u32,
      ← d.req "subscription_position" Doc.i64, ← d.reqD "data_bytes" Doc.toLogData [],
      ← d.reqD "complete_chunk" Doc.toBool false⟩)
  | "AckLogPosition" => ackLogPosition <$> readAck d
  | "WriteAck" => writeAck <$> readWriteAck d
  | "SlaveAssignment" => slaveAssignment <$> readRef d
  | "CloneAssignment" => cloneAssignment <$> readRef d
  | "ForwardWrite" => forwardWrite <$> readForwardWrite d
  | "ForwardWriteCompleted" => forwardWriteCompleted <$> readForwardWriteCompleted d
  | "HeartbeatRequest" => do pure (heartbeatRequest (← d.req "msg_num" Doc.u64))
  | "HeartbeatResponse" => do pure (heartbeatResponse (← d.req "msg_num" Doc.u64))
  | _ => Read.reject

/-- Reads a message `{"t": kind, fields…}`. -/
def read (d : Doc) : Read PeerMessage := do
  readAs (← d.kind) d

end PeerMessage

end EventStore
