import EventStore.Service.Actor
import EventStore.Replication.Commit

/-!
# Master replication

The master side of replication accepts replica subscriptions, streams its flushed log to them,
assigns replica roles and tracks the commit quorum of client writes.

A subscription starts where the replica's log and the master's agree: at the replica's position,
but not past the master's writer checkpoint, the epoch after the newest epoch both know, or the
replica's own next epoch, and at the start of a scavenged chunk (which can only be sent whole).
With no epoch in common it starts at zero.

Streaming walks the chunks from the subscription's position: a completed chunk from its start goes
as raw file bytes, anything else as record frames of the data region, each chunk announced first
when streaming starts at its beginning. A replica that caught up with the writer checkpoint becomes
a slave while fewer than half the cluster are slaves, a clone otherwise; when a slave goes, a clone
takes its place. Only slaves' acknowledgements count toward the quorum.
-/

namespace EventStore

/-- The role of a replica. -/
inductive ReplicaRole where
  | catchingUp
  | clone
  | slave
  deriving DecidableEq, Repr, Inhabited

/-- The name of a role. -/
def ReplicaRole.name : ReplicaRole → String
  | .catchingUp => "CatchingUp"
  | .clone => "Clone"
  | .slave => "Slave"

/-- Where a subscription stands in the chunk being sent: raw file bytes or record data, through
a reader of that chunk. -/
structure ChunkStream where
  raw : Bool
  reader : BulkReader
  deriving Inhabited

/-- A replica's subscription. -/
structure Subscription where
  connection : Nat
  replicaId : Uuid
  replicaInternal : SocketAddr
  role : ReplicaRole := .catchingUp
  /-- The log position the next bulk starts at. -/
  sendPosition : Int
  ackPosition : Int
  stream : Option ChunkStream := none
  deriving Inhabited

/-- The name the master replication service reports itself by. -/
def MasterReplication.serviceName : String := "MasterReplication"

/-- The largest bulk sent at once. -/
def MasterReplication.bulkSize : Nat := 32 * 1024

/-- The most bulks sent to one subscription per pump. -/
def MasterReplication.maxBulksPerPump : Nat := 16

/-- How many messages queued on a connection pause streaming to it. -/
def MasterReplication.maxConnectionBacklog : Nat := 64

/-- The master replication service's own state. -/
structure MasterReplication where
  instanceId : Uuid
  clusterSize : Nat
  state : NodeState := .initializing
  /-- Subscriptions by identifier, oldest first. -/
  subscriptions : List (Uuid × Subscription) := []
  commits : CommitTracker
  deriving Inhabited

namespace MasterReplication

/-- The subscription with an identifier. -/
def subscription? (id : Uuid) : ActorM MasterReplication ServiceError (Option Subscription) := do
  pure (((← Actor.me).subscriptions.find? (·.1 = id)).map (·.2))

/-- Changes a subscription. -/
def modifySubscription (id : Uuid) (f : Subscription → Subscription) :
    ActorM MasterReplication ServiceError Unit :=
  Actor.modifyMe fun m => { m with subscriptions := m.subscriptions.map fun (i, s) =>
    if i = id then (i, f s) else (i, s) }

/-- Sends a peer message on a connection. -/
def send (conn : Nat) (pm : PeerMessage) : ActorM MasterReplication ServiceError Unit :=
  Actor.onWorld (World.emit (.send conn pm))

/-- Replies to the committed writes and raises the node's last commit position. -/
def completeCommitted : ActorM MasterReplication ServiceError Unit := do
  let (done, t) := (← Actor.me).commits.takeCommitted
  Actor.modifyMe fun m => { m with commits := t }
  if done.isEmpty then return
  Actor.onStore (Store.raiseCommit t.commitPosition)
  for w in done do
    Actor.onWorld (w.envelope.reply (.writeCompleted .success w.firstPosition w.endPosition))

/-- Gives a subscription a role, telling the replica; a new slave counts toward the quorum. -/
def assignRole (id : Uuid) (role : ReplicaRole) : ActorM MasterReplication ServiceError Unit := do
  let some s ← subscription? id | pure ()
  modifySubscription id fun s => { s with role }
  let me ← Actor.me
  match role with
  | .slave =>
    send s.connection (.slaveAssignment ⟨me.instanceId, id⟩)
    Actor.modifyMe fun m => { m with commits := m.commits.addSlave id s.ackPosition }
    completeCommitted
  | .clone => send s.connection (.cloneAssignment ⟨me.instanceId, id⟩)
  | .catchingUp => pure ()

/-- Removes a subscription; a slave's place goes to a clone, if there is one. -/
def removeSubscription (id : Uuid) : ActorM MasterReplication ServiceError Unit := do
  let some s ← subscription? id | pure ()
  Actor.modifyMe fun m => { m with subscriptions := m.subscriptions.filter (·.1 ≠ id) }
  if s.role ≠ .slave then return
  Actor.modifyMe fun m => { m with commits := m.commits.removeSlave id }
  if let some (p, _) := (← Actor.me).subscriptions.find? (·.2.role = .clone) then
    assignRole p .slave

/-- Replies to a write that cannot be committed. -/
def replyTimedOut (w : PendingWrite) : ActorM MasterReplication ServiceError Unit :=
  Actor.onWorld (w.envelope.reply (.writeCompleted .commitTimeout (-1) (-1)))

/-- Drops every replica and fails the writes still waiting for the quorum. -/
def stepDown : ActorM MasterReplication ServiceError Unit := do
  for (_, s) in (← Actor.me).subscriptions do
    Actor.onWorld (World.emit (.close s.connection))
  Actor.modifyMe fun m => { m with subscriptions := [] }
  let (ws, t) := (← Actor.me).commits.reset
  Actor.modifyMe fun m => { m with commits := t }
  for w in ws do replyTimedOut w

/-- Moves to a new node state: becoming master counts the master's durable position, leaving it
steps down. -/
def changeState (state : NodeState) : ActorM MasterReplication ServiceError Unit := do
  let wasMaster := (← Actor.me).state = .master
  Actor.modifyMe fun m => { m with state }
  if state = .master && !wasMaster then
    let w ← Actor.onStore Store.writerCheckpoint
    Actor.modifyMe fun m => { m with commits := m.commits.masterFlushed w }
  else if state ≠ .master && wasMaster then stepDown

/-- The first of the replica's epochs that the master knows too, with its place in the list. -/
def commonEpoch : Nat → List Epoch → StoreM EpochError (Option (Nat × Epoch))
  | _, [] => pure none
  | i, e :: rest => do
    if ← Store.isKnownEpoch e.epochNumber e.epochId then pure (some (i, e))
    else commonEpoch (i + 1) rest

/-- Where a subscription starts. -/
def subscriptionPosition (r : SubscribeReplica) : StoreM EpochError Int := do
  let some (idx, common) ← commonEpoch 0 r.lastEpochs | pure 0
  let mut position := min r.logPosition (← Store.writerCheckpoint)
  if let some after ← Store.epochAfter common.epochNumber then
    position := min position after.epochPosition
  if 0 < idx then
    if let some e := r.lastEpochs[idx - 1]? then position := min position e.epochPosition
  if let some c ← Store.getChunkFor position then
    if c.header.isScavenged then position := c.startPosition
  pure position

/-- Accepts or refuses a subscription arriving on connection `conn`. A replica has one
subscription at most. -/
def subscribe (conn : Nat) (r : SubscribeReplica) : ActorM MasterReplication ServiceError Unit := do
  let me ← Actor.me
  if me.state ≠ .master || r.masterId ≠ me.instanceId then
    return ← send conn (.replicaSubscriptionRetry ⟨me.instanceId, r.subscriptionId⟩)
  let position ← Actor.onEpochs (subscriptionPosition r)
  for (id, s) in (← Actor.me).subscriptions do
    if s.replicaId = r.replicaId then removeSubscription id
  send conn (.replicaSubscribed ⟨me.instanceId, r.subscriptionId, position⟩)
  let s : Subscription :=
    { connection := conn, replicaId := r.replicaId, replicaInternal := r.replicaInternal,
      sendPosition := position, ackPosition := position }
  Actor.modifyMe fun m =>
    if m.subscriptions.any (·.1 = r.subscriptionId) then
      { m with subscriptions := m.subscriptions.map fun (i, x) =>
          if i = r.subscriptionId then (i, s) else (i, x) }
    else { m with subscriptions := m.subscriptions ++ [(r.subscriptionId, s)] }

/-- The subscription an acknowledgement on connection `conn` is for. -/
def subscriptionOn (conn : Nat) (id : Uuid) :
    ActorM MasterReplication ServiceError (Option Subscription) := do
  pure ((← subscription? id).filter (·.connection = conn))

/-- A replica's durable position: a catching-up replica that reached the writer checkpoint gets a
role. -/
def logPositionAck (conn : Nat) (a : AckLogPosition) : ActorM MasterReplication ServiceError Unit := do
  let writer ← Actor.onStore Store.writerCheckpoint
  let some s ← subscriptionOn conn a.subscriptionId | pure ()
  let ackPosition := max s.ackPosition a.replicationLogPosition
  modifySubscription a.subscriptionId fun s => { s with ackPosition }
  if s.role ≠ .catchingUp || ackPosition < writer then return
  let me ← Actor.me
  let slaves := (me.subscriptions.filter (·.2.role = .slave)).length
  assignRole a.subscriptionId (if slaves < me.clusterSize / 2 then .slave else .clone)

/-- A slave's write acknowledgement counts toward the quorum. -/
def writeAck (conn : Nat) (a : WriteAck) : ActorM MasterReplication ServiceError Unit := do
  let some s ← subscriptionOn conn a.subscriptionId | pure ()
  modifySubscription a.subscriptionId fun s => { s with ackPosition := max s.ackPosition a.logPosition }
  if s.role ≠ .slave then return
  Actor.modifyMe fun m => { m with commits := m.commits.replicaAcked a.subscriptionId a.logPosition }
  completeCommitted

/-- A connection closed: its subscriptions go. -/
def connectionClosed (conn : Nat) : ActorM MasterReplication ServiceError Unit := do
  for (id, s) in (← Actor.me).subscriptions do
    if s.connection = conn then removeSubscription id

/-- Handles one message at time `now`; false once the service is done. -/
def handle (now : Nat) (msg : Message) : ActorM MasterReplication ServiceError Bool := do
  match msg with
  | .system (.becomeShuttingDown _ _) =>
    stepDown
    Actor.publish (.system (.serviceShutdown serviceName))
    return false
  | .system m => if let some st := m.newState? then changeState st
  | .replication (.replicaSubscriptionRequest conn r) => subscribe conn r
  | .replication (.replicaLogPositionAck conn a) => logPositionAck conn a
  | .replication (.replicaWriteAck conn a) => writeAck conn a
  | .replication (.replicaConnectionClosed conn) => connectionClosed conn
  | .storage (.writePending corr env first last) =>
    if (← Actor.me).state = .master then
      Actor.modifyMe fun m => { m with commits := m.commits.addPending corr env first last now }
      completeCommitted
    else Actor.onWorld (env.reply (.writeCompleted .commitTimeout (-1) (-1)))
  | .storage (.flushed p) =>
    if (← Actor.me).state = .master then
      Actor.modifyMe fun m => { m with commits := m.commits.masterFlushed p }
      completeCommitted
  | _ => pure ()
  pure true

/-! ## Streaming -/

/-- Starts streaming the chunk `c` from the subscription's position: a completed chunk from its
start as raw bytes, otherwise as data, announcing the chunk when at its start. -/
def startStream (id : Uuid) (s : Subscription) (c : Chunk) :
    ActorM MasterReplication DbError ChunkStream := do
  let me ← Actor.me
  let dir := (← Actor.onStore Store.config).dir
  let atStart := s.sendPosition = c.startPosition
  if c.isCompleted && atStart then
    let size := (← Actor.onWorld World.currentDisk).size c.file
    Actor.onWorld (World.emit (.send s.connection (.createChunk ⟨me.instanceId, id, c.header, size, true⟩)))
    let r ← Actor.onWorld (BulkReader.acquire dir c)
    let r ← Actor.onWorld (r.setRawPosition 0)
    pure ⟨true, r⟩
  else
    if atStart then
      let size ← Actor.onWorld (Chunk.activeFileSize c.header)
      Actor.onWorld (World.emit (.send s.connection (.createChunk ⟨me.instanceId, id, c.header, size, false⟩)))
    let r ← Actor.onWorld (BulkReader.acquire dir c)
    let r ← Actor.onWorld (r.setDataPosition (c.header.localPosition s.sendPosition).toNat)
    pure ⟨false, r⟩

/-- Sends one bulk of a subscription, if the connection takes it and there is flushed log to
send; false when streaming should pause. -/
def streamOnce (id : Uuid) : ActorM MasterReplication DbError Bool := do
  let me ← Actor.me
  let some (_, s) := me.subscriptions.find? (·.1 = id) | return false
  if maxConnectionBacklog ≤ (← Actor.onWorld (World.backlog s.connection)) then return false
  let flushed := (← Actor.onStore Store.checkpoints).writer.read
  if flushed ≤ s.sendPosition then return false
  let some c ← Actor.onStore (Store.getChunkFor s.sendPosition) | return false
  let same := s.stream.any (·.reader.chunk = c.handle)
  let stream ← if same then pure s.stream
    else do
      let setStream := fun (st : Option ChunkStream) => Actor.modifyMe fun m =>
        { m with subscriptions := m.subscriptions.map fun (i, x) =>
            if i = id then (i, { x with stream := st }) else (i, x) }
      setStream none
      let st ← startStream id s c
      setStream (some st)
      pure (some st)
  let some st := stream | return false
  let h := c.header
  let update := fun (f : Subscription → Subscription) => Actor.modifyMe fun m =>
    { m with subscriptions := m.subscriptions.map fun (i, x) => if i = id then (i, f x) else (i, x) }
  if st.raw then
    let (res, r) ← Actor.onWorld (st.reader.readRaw bulkSize)
    update fun x => { x with stream := some { st with reader := r } }
    Actor.onWorld (World.emit (.send s.connection (.rawChunkBulk ⟨me.instanceId, id,
      h.chunkStartNumber, h.chunkEndNumber, res.oldPosition, Bytes.ofByteArray res.data, res.isEof⟩)))
    if res.isEof then update fun x => { x with sendPosition := c.endPosition, stream := none }
    pure true
  else
    let dataEnd := c.startPosition + c.physicalDataSize
    let available := min flushed dataEnd - s.sendPosition
    let len := min available.toNat bulkSize
    let (res, r) ← Actor.onWorld (st.reader.readData c len)
    update fun x => { x with stream := some { st with reader := r } }
    if res.data.size = 0 && !res.isEof then return false
    Actor.onWorld (World.emit (.send s.connection (.dataChunkBulk ⟨me.instanceId, id,
      h.chunkStartNumber, h.chunkEndNumber, s.sendPosition, Bytes.ofByteArray res.data, res.isEof⟩)))
    update fun x => { x with sendPosition := x.sendPosition + res.data.size }
    if res.isEof then update fun x => { x with sendPosition := c.endPosition, stream := none }
    pure true

/-- Sends up to `count` bulks of a subscription. -/
def streamBulks (id : Uuid) : Nat → ActorM MasterReplication DbError Unit
  | 0 => pure ()
  | count + 1 => do
    if ← streamOnce id then streamBulks id count

/-- Feeds every subscription and times out, at `now`, writes stuck waiting for the quorum. A
subscription whose streaming fails is dropped and its connection closed. -/
def pump (now : Nat) : ActorM MasterReplication ServiceError Unit := do
  if (← Actor.me).state ≠ .master then return
  let mut failed : List Uuid := []
  for (id, _) in (← Actor.me).subscriptions do
    let ok ← ExceptT.wrap ServiceError.db (tryCatch (do streamBulks id maxBulksPerPump; pure true)
      fun
        | .error _ => pure false
        | .panic => stop)
    if !ok then failed := failed ++ [id]
  for id in failed do
    if let some s ← subscription? id then Actor.onWorld (World.emit (.close s.connection))
    removeSubscription id
  let (late, t) := (← Actor.me).commits.takeTimedOut now
  Actor.modifyMe fun m => { m with commits := t }
  if !late.isEmpty then
    if t.slaveCount + 1 < t.quorum then Actor.publish (.system .noQuorum)
    for w in late do replyTimedOut w

end MasterReplication

end EventStore
