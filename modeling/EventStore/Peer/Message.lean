import EventStore.Cluster.Member
import EventStore.Log.Epoch
import EventStore.Chunk.Header

/-!
# Peer messages

Nodes talk to each other with one kind of message over one kind of connection: election votes
and announcements, gossip, replication traffic between a master and its replicas, client writes
forwarded to the master, and heartbeats. Each message is a tag byte and its fields, big-endian.
-/

namespace EventStore

/-- A vote for a new view. -/
structure ViewChange where
  serverId : Uuid
  serverInternal : SocketAddr
  attemptedView : Int
  deriving DecidableEq, Repr, Inhabited

/-- The periodic announcement of the view a node installed. -/
structure ViewChangeProof where
  serverId : Uuid
  serverInternal : SocketAddr
  installedView : Int
  deriving DecidableEq, Repr, Inhabited

/-- The leader of a view asks the others to prepare. -/
structure Prepare where
  serverId : Uuid
  serverInternal : SocketAddr
  view : Int
  deriving DecidableEq, Repr, Inhabited

/-- How far a node's log has come, as a master candidate. -/
structure Candidacy where
  epochNumber : Int
  epochPosition : Int
  epochId : Uuid
  lastCommitPosition : Int
  writerCheckpoint : Int
  chaserCheckpoint : Int
  nodePriority : Int
  deriving DecidableEq, Repr, Inhabited

/-- The reply to `Prepare`, offering the sender as a master candidate. -/
structure PrepareOk where
  view : Int
  serverId : Uuid
  serverInternal : SocketAddr
  candidacy : Candidacy
  deriving DecidableEq, Repr, Inhabited

/-- The master candidate the leader of a view proposes. -/
structure Proposal where
  serverId : Uuid
  serverInternal : SocketAddr
  masterId : Uuid
  masterInternal : SocketAddr
  view : Int
  candidacy : Candidacy
  deriving DecidableEq, Repr, Inhabited

/-- A node accepts a proposed master. -/
structure Accept where
  serverId : Uuid
  serverInternal : SocketAddr
  masterId : Uuid
  masterInternal : SocketAddr
  view : Int
  deriving DecidableEq, Repr, Inhabited

/-- A replica asks a master to replicate from it. -/
structure SubscribeReplica where
  logPosition : Int
  chunkId : Uuid
  lastEpochs : List Epoch
  replicaId : Uuid
  replicaInternal : SocketAddr
  masterId : Uuid
  subscriptionId : Uuid
  deriving DecidableEq, Repr, Inhabited

/-- A master names a subscription (and, in role assignments, the role it gives). -/
structure SubscriptionRef where
  masterId : Uuid
  subscriptionId : Uuid
  deriving DecidableEq, Repr, Inhabited

/-- The master accepts a subscription from a log position. -/
structure ReplicaSubscribed where
  masterId : Uuid
  subscriptionId : Uuid
  subscriptionPosition : Int
  deriving DecidableEq, Repr, Inhabited

/-- The master announces a chunk the replica must start. -/
structure CreateChunk where
  masterId : Uuid
  subscriptionId : Uuid
  chunkHeader : ChunkHeader
  fileSize : Nat
  isCompletedChunk : Bool
  deriving DecidableEq, Repr, Inhabited

/-- Bytes of a completed chunk file, sent verbatim. -/
structure RawChunkBulk where
  masterId : Uuid
  subscriptionId : Uuid
  chunkStartNumber : Nat
  chunkEndNumber : Nat
  rawPosition : Nat
  rawBytes : Bytes
  completeChunk : Bool
  deriving DecidableEq, Repr, Inhabited

/-- Framed records of the chunk being written, from a log position on. -/
structure DataChunkBulk where
  masterId : Uuid
  subscriptionId : Uuid
  chunkStartNumber : Nat
  chunkEndNumber : Nat
  subscriptionPosition : Int
  dataBytes : Bytes
  completeChunk : Bool
  deriving DecidableEq, Repr, Inhabited

/-- A replica's durable log position. -/
structure AckLogPosition where
  subscriptionId : Uuid
  replicationLogPosition : Int
  deriving DecidableEq, Repr, Inhabited

/-- A slave's write acknowledgement, counted toward the commit quorum. -/
structure WriteAck where
  subscriptionId : Uuid
  logPosition : Int
  deriving DecidableEq, Repr, Inhabited

/-- A client write forwarded to the master. -/
structure ForwardWrite where
  internalCorrId : Uuid
  events : List Bytes
  deriving DecidableEq, Repr, Inhabited

/-- The outcome of a forwarded write. -/
structure ForwardWriteCompleted where
  internalCorrId : Uuid
  result : WriteResult
  firstPosition : Int
  lastPosition : Int
  deriving DecidableEq, Repr, Inhabited

/-- A message between nodes. -/
inductive PeerMessage where
  | viewChange (m : ViewChange)
  | viewChangeProof (m : ViewChangeProof)
  | prepare (m : Prepare)
  | prepareOk (m : PrepareOk)
  | proposal (m : Proposal)
  | accept (m : Accept)
  | gossip (senderInternal : SocketAddr) (members : List Member)
  | subscribeReplica (m : SubscribeReplica)
  | replicaSubscribed (m : ReplicaSubscribed)
  | replicaSubscriptionRetry (m : SubscriptionRef)
  | createChunk (m : CreateChunk)
  | rawChunkBulk (m : RawChunkBulk)
  | dataChunkBulk (m : DataChunkBulk)
  | ackLogPosition (m : AckLogPosition)
  | writeAck (m : WriteAck)
  | slaveAssignment (m : SubscriptionRef)
  | cloneAssignment (m : SubscriptionRef)
  | forwardWrite (m : ForwardWrite)
  | forwardWriteCompleted (m : ForwardWriteCompleted)
  | heartbeatRequest (msgNum : Nat)
  | heartbeatResponse (msgNum : Nat)
  deriving DecidableEq, Repr, Inhabited

namespace Candidacy

/-- The binary form, from the epoch number on. -/
def encode (c : Candidacy) : Bytes :=
  Bytes.ofInt 4 c.epochNumber ++ Bytes.ofInt 8 c.epochPosition ++ Bytes.ofUuid c.epochId ++
    Bytes.ofInt 8 c.lastCommitPosition ++ Bytes.ofInt 8 c.writerCheckpoint ++
    Bytes.ofInt 8 c.chaserCheckpoint ++ Bytes.ofInt 4 c.nodePriority

/-- Reads the binary form. -/
def decode : Decoder Candidacy := do
  let epochNumber ← Decoder.i32
  let epochPosition ← Decoder.i64
  let epochId ← Decoder.uuid
  let lastCommitPosition ← Decoder.i64
  let writerCheckpoint ← Decoder.i64
  let chaserCheckpoint ← Decoder.i64
  let nodePriority ← Decoder.i32
  pure ⟨epochNumber, epochPosition, epochId, lastCommitPosition, writerCheckpoint,
    chaserCheckpoint, nodePriority⟩

end Candidacy

namespace PeerMessage

/-- The largest frame body a connection accepts. -/
def maxFrameSize : Nat := 32 * 1024 * 1024

/-- The tag byte of a message. -/
def tag : PeerMessage → Nat
  | viewChange _ => 1
  | viewChangeProof _ => 2
  | prepare _ => 3
  | prepareOk _ => 4
  | proposal _ => 5
  | accept _ => 6
  | gossip _ _ => 16
  | subscribeReplica _ => 32
  | replicaSubscribed _ => 33
  | replicaSubscriptionRetry _ => 34
  | createChunk _ => 35
  | rawChunkBulk _ => 36
  | dataChunkBulk _ => 37
  | ackLogPosition _ => 38
  | writeAck _ => 39
  | slaveAssignment _ => 40
  | cloneAssignment _ => 41
  | forwardWrite _ => 48
  | forwardWriteCompleted _ => 49
  | heartbeatRequest _ => 64
  | heartbeatResponse _ => 65

/-- Whether the message belongs to elections. -/
def isElection (m : PeerMessage) : Bool := m.tag ≤ 6

/-- The name of a message's kind. -/
def kindName : PeerMessage → String
  | viewChange _ => "ViewChange"
  | viewChangeProof _ => "ViewChangeProof"
  | prepare _ => "Prepare"
  | prepareOk _ => "PrepareOk"
  | proposal _ => "Proposal"
  | accept _ => "Accept"
  | gossip _ _ => "Gossip"
  | subscribeReplica _ => "SubscribeReplica"
  | replicaSubscribed _ => "ReplicaSubscribed"
  | replicaSubscriptionRetry _ => "ReplicaSubscriptionRetry"
  | createChunk _ => "CreateChunk"
  | rawChunkBulk _ => "RawChunkBulk"
  | dataChunkBulk _ => "DataChunkBulk"
  | ackLogPosition _ => "AckLogPosition"
  | writeAck _ => "WriteAck"
  | slaveAssignment _ => "SlaveAssignment"
  | cloneAssignment _ => "CloneAssignment"
  | forwardWrite _ => "ForwardWrite"
  | forwardWriteCompleted _ => "ForwardWriteCompleted"
  | heartbeatRequest _ => "HeartbeatRequest"
  | heartbeatResponse _ => "HeartbeatResponse"

/-- A flag byte. -/
def flagByte (b : Bool) : Bytes := [if b then 1 else 0]

/-- The fields of a message, after its tag. -/
def encodeFields : PeerMessage → Bytes
  | viewChange m => Bytes.ofUuid m.serverId ++ m.serverInternal.encode ++ Bytes.ofInt 4 m.attemptedView
  | viewChangeProof m =>
    Bytes.ofUuid m.serverId ++ m.serverInternal.encode ++ Bytes.ofInt 4 m.installedView
  | prepare m => Bytes.ofUuid m.serverId ++ m.serverInternal.encode ++ Bytes.ofInt 4 m.view
  | prepareOk m =>
    Bytes.ofInt 4 m.view ++ Bytes.ofUuid m.serverId ++ m.serverInternal.encode ++ m.candidacy.encode
  | proposal m =>
    Bytes.ofUuid m.serverId ++ m.serverInternal.encode ++ Bytes.ofUuid m.masterId ++
      m.masterInternal.encode ++ Bytes.ofInt 4 m.view ++ m.candidacy.encode
  | accept m =>
    Bytes.ofUuid m.serverId ++ m.serverInternal.encode ++ Bytes.ofUuid m.masterId ++
      m.masterInternal.encode ++ Bytes.ofInt 4 m.view
  | gossip sender members =>
    sender.encode ++ Bytes.ofNat 4 members.length ++ (members.map Member.encode).flatten
  | subscribeReplica m =>
    Bytes.ofInt 8 m.logPosition ++ Bytes.ofUuid m.chunkId ++ Bytes.ofNat 4 m.lastEpochs.length ++
      (m.lastEpochs.map Epoch.encode).flatten ++ Bytes.ofUuid m.replicaId ++
      m.replicaInternal.encode ++ Bytes.ofUuid m.masterId ++ Bytes.ofUuid m.subscriptionId
  | replicaSubscribed m =>
    Bytes.ofUuid m.masterId ++ Bytes.ofUuid m.subscriptionId ++ Bytes.ofInt 8 m.subscriptionPosition
  | replicaSubscriptionRetry m => Bytes.ofUuid m.masterId ++ Bytes.ofUuid m.subscriptionId
  | createChunk m =>
    Bytes.ofUuid m.masterId ++ Bytes.ofUuid m.subscriptionId ++ m.chunkHeader.encode ++
      Bytes.ofNat 8 m.fileSize ++ flagByte m.isCompletedChunk
  | rawChunkBulk m =>
    Bytes.ofUuid m.masterId ++ Bytes.ofUuid m.subscriptionId ++ Bytes.ofNat 4 m.chunkStartNumber ++
      Bytes.ofNat 4 m.chunkEndNumber ++ Bytes.ofNat 8 m.rawPosition ++ Bytes.sized m.rawBytes ++
      flagByte m.completeChunk
  | dataChunkBulk m =>
    Bytes.ofUuid m.masterId ++ Bytes.ofUuid m.subscriptionId ++ Bytes.ofNat 4 m.chunkStartNumber ++
      Bytes.ofNat 4 m.chunkEndNumber ++ Bytes.ofInt 8 m.subscriptionPosition ++
      Bytes.sized m.dataBytes ++ flagByte m.completeChunk
  | ackLogPosition m => Bytes.ofUuid m.subscriptionId ++ Bytes.ofInt 8 m.replicationLogPosition
  | writeAck m => Bytes.ofUuid m.subscriptionId ++ Bytes.ofInt 8 m.logPosition
  | slaveAssignment m => Bytes.ofUuid m.masterId ++ Bytes.ofUuid m.subscriptionId
  | cloneAssignment m => Bytes.ofUuid m.masterId ++ Bytes.ofUuid m.subscriptionId
  | forwardWrite m =>
    Bytes.ofUuid m.internalCorrId ++ Bytes.ofNat 4 m.events.length ++
      (m.events.map Bytes.sized).flatten
  | forwardWriteCompleted m =>
    Bytes.ofUuid m.internalCorrId ++ [UInt8.ofNat m.result.toNat] ++ Bytes.ofInt 8 m.firstPosition ++
      Bytes.ofInt 8 m.lastPosition
  | heartbeatRequest n => Bytes.ofNat 8 n
  | heartbeatResponse n => Bytes.ofNat 8 n

/-- The body of a message: its tag, then its fields. -/
def encode (m : PeerMessage) : Bytes := UInt8.ofNat m.tag :: m.encodeFields

/-- The frame of a message: the body's length as four big-endian bytes, then the body. -/
def toFrame (m : PeerMessage) : Bytes :=
  let body := m.encode
  Bytes.ofNat 4 body.length ++ body

/-- The body length a frame prefix announces, if it is a valid one. -/
def frameLen (pfx : Bytes) : Option Nat :=
  let len := Bytes.toNat pfx
  if len = 0 ∨ maxFrameSize < len then none else some len

/-- Reads the two identifiers of a subscription reference. -/
def decodeRef : Decoder SubscriptionRef := do
  let masterId ← Decoder.uuid
  let subscriptionId ← Decoder.uuid
  pure ⟨masterId, subscriptionId⟩

/-- Reads the fields of the message with a tag. -/
def decodeFields : Nat → Decoder PeerMessage
  | 1 => do
    let serverId ← Decoder.uuid
    let serverInternal ← SocketAddr.decode
    let attemptedView ← Decoder.i32
    pure (viewChange ⟨serverId, serverInternal, attemptedView⟩)
  | 2 => do
    let serverId ← Decoder.uuid
    let serverInternal ← SocketAddr.decode
    let installedView ← Decoder.i32
    pure (viewChangeProof ⟨serverId, serverInternal, installedView⟩)
  | 3 => do
    let serverId ← Decoder.uuid
    let serverInternal ← SocketAddr.decode
    let view ← Decoder.i32
    pure (prepare ⟨serverId, serverInternal, view⟩)
  | 4 => do
    let view ← Decoder.i32
    let serverId ← Decoder.uuid
    let serverInternal ← SocketAddr.decode
    let candidacy ← Candidacy.decode
    pure (prepareOk ⟨view, serverId, serverInternal, candidacy⟩)
  | 5 => do
    let serverId ← Decoder.uuid
    let serverInternal ← SocketAddr.decode
    let masterId ← Decoder.uuid
    let masterInternal ← SocketAddr.decode
    let view ← Decoder.i32
    let candidacy ← Candidacy.decode
    pure (proposal ⟨serverId, serverInternal, masterId, masterInternal, view, candidacy⟩)
  | 6 => do
    let serverId ← Decoder.uuid
    let serverInternal ← SocketAddr.decode
    let masterId ← Decoder.uuid
    let masterInternal ← SocketAddr.decode
    let view ← Decoder.i32
    pure (accept ⟨serverId, serverInternal, masterId, masterInternal, view⟩)
  | 16 => do
    let sender ← SocketAddr.decode
    let members ← Decoder.counted Member.decode
    pure (gossip sender members)
  | 32 => do
    let logPosition ← Decoder.i64
    let chunkId ← Decoder.uuid
    let lastEpochs ← Decoder.counted Epoch.decode
    let replicaId ← Decoder.uuid
    let replicaInternal ← SocketAddr.decode
    let masterId ← Decoder.uuid
    let subscriptionId ← Decoder.uuid
    pure (subscribeReplica
      ⟨logPosition, chunkId, lastEpochs, replicaId, replicaInternal, masterId, subscriptionId⟩)
  | 33 => do
    let masterId ← Decoder.uuid
    let subscriptionId ← Decoder.uuid
    let subscriptionPosition ← Decoder.i64
    pure (replicaSubscribed ⟨masterId, subscriptionId, subscriptionPosition⟩)
  | 34 => replicaSubscriptionRetry <$> decodeRef
  | 35 => do
    let masterId ← Decoder.uuid
    let subscriptionId ← Decoder.uuid
    let chunkHeader ← ChunkHeader.decode
    let fileSize ← Decoder.u64
    let isCompletedChunk ← Decoder.flag
    pure (createChunk ⟨masterId, subscriptionId, chunkHeader, fileSize, isCompletedChunk⟩)
  | 36 => do
    let masterId ← Decoder.uuid
    let subscriptionId ← Decoder.uuid
    let chunkStartNumber ← Decoder.u32
    let chunkEndNumber ← Decoder.u32
    let rawPosition ← Decoder.u64
    let rawBytes ← Decoder.sized
    let completeChunk ← Decoder.flag
    pure (rawChunkBulk ⟨masterId, subscriptionId, chunkStartNumber, chunkEndNumber, rawPosition,
      rawBytes, completeChunk⟩)
  | 37 => do
    let masterId ← Decoder.uuid
    let subscriptionId ← Decoder.uuid
    let chunkStartNumber ← Decoder.u32
    let chunkEndNumber ← Decoder.u32
    let subscriptionPosition ← Decoder.i64
    let dataBytes ← Decoder.sized
    let completeChunk ← Decoder.flag
    pure (dataChunkBulk ⟨masterId, subscriptionId, chunkStartNumber, chunkEndNumber,
      subscriptionPosition, dataBytes, completeChunk⟩)
  | 38 => do
    let subscriptionId ← Decoder.uuid
    let position ← Decoder.i64
    pure (ackLogPosition ⟨subscriptionId, position⟩)
  | 39 => do
    let subscriptionId ← Decoder.uuid
    let position ← Decoder.i64
    pure (writeAck ⟨subscriptionId, position⟩)
  | 40 => slaveAssignment <$> decodeRef
  | 41 => cloneAssignment <$> decodeRef
  | 48 => do
    let internalCorrId ← Decoder.uuid
    let events ← Decoder.counted Decoder.sized
    pure (forwardWrite ⟨internalCorrId, events⟩)
  | 49 => do
    let internalCorrId ← Decoder.uuid
    let result ← WriteResult.decode
    let firstPosition ← Decoder.i64
    let lastPosition ← Decoder.i64
    pure (forwardWriteCompleted ⟨internalCorrId, result, firstPosition, lastPosition⟩)
  | 64 => heartbeatRequest <$> Decoder.u64
  | 65 => heartbeatResponse <$> Decoder.u64
  | _ => Decoder.fail .badTag

/-- Reads a message body: a tag byte, then the fields of that kind of message. Bytes after the
message are left unread. -/
def decode : Decoder PeerMessage := do
  let t ← Decoder.u8
  decodeFields t

/-- Reads a frame body. -/
def ofBody (body : Bytes) : Except DecodeError PeerMessage :=
  (decode.run body).map (·.1)

end PeerMessage

end EventStore
