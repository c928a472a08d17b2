import EventStore.Service.Actor

/-!
# The storage writer service

The storage writer owns the chunk writer. On a master it writes an epoch record when the node
becomes master (and when asked to), and appends client writes, publishing each write as pending
and the new durable position. On a replica it applies the master's replication stream of the
current subscription, acknowledging the position reached after each applied piece. A stream that
does not fit the local log is not fatal: the replica drops the subscription and asks to reconnect
to the master. Accepting a subscription from a position below its own log truncates the log there.
-/

namespace EventStore

/-- The name the storage writer reports itself by. -/
def StorageWriter.serviceName : String := "StorageWriter"

/-- The storage writer's own state. -/
structure StorageWriter where
  instanceId : Uuid
  state : NodeState := .initializing
  master : Option Member := none
  /-- The replication stream whose data is applied. -/
  subscription : Option Uuid := none
  deriving Inhabited

namespace StorageWriter

/-- Writes an epoch record and publishes the new durable position. -/
def writeEpoch : ActorM StorageWriter ServiceError Unit := do
  let _ ← Actor.onEpochs (Store.writeNewEpoch (← Actor.me).instanceId)
  let p := (← Actor.onStore Store.theWriter).position
  Actor.publish (.storage (.flushed p))

/-- Moves to a new node state: a new master writes an epoch, a node leaving replication flushes
and forgets its subscription. -/
def changeState (state : NodeState) (master : Option Member) : ActorM StorageWriter ServiceError Unit := do
  let prev := (← Actor.me).state
  Actor.modifyMe fun w => { w with state, master := master.orElse fun _ => w.master }
  match state with
  | .master =>
    Actor.modifyMe fun w => { w with subscription := none }
    writeEpoch
  | .preReplica | .unknown | .preMaster =>
    if prev ≠ state then Actor.onStore Store.flushWriter
    Actor.modifyMe fun w => { w with subscription := none }
  | _ => pure ()

/-- Appends a client write on the master: all events or, if one does not fit a chunk, none. -/
def writeEvents (correlationId : Uuid) (events : List Bytes) (envelope : Envelope) :
    ActorM StorageWriter ServiceError Unit := do
  if (← Actor.me).state ≠ .master then
    return ← Actor.onWorld (envelope.reply (.notHandled .notReady))
  let chunkSize := (← Actor.onStore Store.config).chunkSize
  if events.any (fun e => chunkSize < e.length + DataRecord.framedOverhead) then
    return ← Actor.onWorld (envelope.reply (.writeCompleted .invalidTransaction (-1) (-1)))
  let first := (← Actor.onStore Store.theWriter).position
  let mut last := first
  for e in events do
    let (_, finish) ← Actor.onDb (Store.writeRecord fun p => .data ⟨p, wallClock, correlationId, e⟩)
    last := finish
  Actor.onStore Store.flushWriter
  Actor.publish (.storage (.writePending correlationId envelope first last))
  Actor.publish (.storage (.flushed (← Actor.onStore Store.theWriter).position))

/-- Acknowledges the writer position on the current subscription. -/
def ack : ActorM StorageWriter ServiceError Unit := do
  let some sub := (← Actor.me).subscription | pure ()
  let p := (← Actor.onStore Store.theWriter).position
  Actor.publish (.replication (.ackLogPosition ⟨sub, p⟩))
  Actor.publish (.storage (.commitAck sub p))

/-- Asks to reconnect to the master, if one is known. -/
def requestResubscription : ActorM StorageWriter ServiceError Unit := do
  if let some m := (← Actor.me).master then
    Actor.publish (.system (.vnodeConnectionLost m.internalTcp))

/-- Accepts a subscription, truncating the log down to the position the master streams from. -/
def replicaSubscribed (m : ReplicaSubscribed) : ActorM StorageWriter ServiceError Unit := do
  Actor.modifyMe fun w => { w with subscription := some m.subscriptionId }
  let position := m.subscriptionPosition
  if position < (← Actor.onStore Store.theWriter).position then
    Actor.onDb (Store.truncateWriter position)
    let truncatedTo := (← Actor.onStore Store.theWriter).position
    Actor.onEpochs (Store.epochsTruncated truncatedTo)
    Actor.onStore (Store.lowerCommit truncatedTo)
    if truncatedTo ≠ position then
      Actor.modifyMe fun w => { w with subscription := none }
      return ← requestResubscription
  ack

/-- Acknowledges an applied piece of the stream; a stream that does not fit the log makes the
replica subscribe again, any other failure stops the service. -/
def afterApplying (r : Option DbError) : ActorM StorageWriter ServiceError Unit := do
  match r with
  | none => ack
  | some e =>
    if e.isOutOfSync then
      Actor.modifyMe fun w => { w with subscription := none }
      requestResubscription
    else fail (.db e)

/-- Runs a database action, giving its reported failure instead of failing. -/
def attempt (m : StoreM DbError Unit) : ActorM StorageWriter ServiceError (Option DbError) :=
  let caught : StoreM DbError (Option DbError) := tryCatch (do m; pure none) fun
    | .error e => pure (some e)
    | .panic => stop
  Actor.onDb caught

/-- Whether a stream message belongs to the current subscription. -/
def isCurrent (sub : Uuid) : ActorM StorageWriter ServiceError Bool := do
  pure ((← Actor.me).subscription == some sub)

/-- Starts a chunk announced by the master. -/
def createChunk (m : CreateChunk) : ActorM StorageWriter ServiceError Unit := do
  if !(← isCurrent m.subscriptionId) then return
  match ← attempt (Store.addReplicatedChunk m.chunkHeader m.fileSize m.isCompletedChunk) with
  | none => pure ()
  | some e => afterApplying (some e)

/-- Writes raw chunk bytes, switching the chunk in when it is complete. -/
def rawChunkBulk (m : RawChunkBulk) : ActorM StorageWriter ServiceError Unit := do
  if !(← isCurrent m.subscriptionId) then return
  let r ← attempt do
    Store.writeRawChunkBytes m.rawPosition m.rawBytes.toByteArray
    if m.completeChunk then Store.completeRawChunk
  if m.completeChunk || r.isSome then afterApplying r

/-- Appends record frames, completing the chunk when the master says it is complete. -/
def dataChunkBulk (m : DataChunkBulk) : ActorM StorageWriter ServiceError Unit := do
  if !(← isCurrent m.subscriptionId) then return
  let r ← attempt do
    Store.appendRawData m.subscriptionPosition m.dataBytes.toByteArray
    if m.completeChunk then Store.completeReplicatedChunk else Store.flushWriter
  afterApplying r

/-- Handles one message; false once the writer is done. -/
def handle (msg : Message) : ActorM StorageWriter ServiceError Bool := do
  match msg with
  | .system .systemInit => Actor.publish (.system (.serviceInitialized serviceName))
  | .system (.becomeShuttingDown _ _) =>
    Actor.onStore Store.flushWriter
    Actor.publish (.system (.serviceShutdown serviceName))
    return false
  | .system .writeEpoch => if (← Actor.me).state = .master then writeEpoch
  | .system m => if let some s := m.newState? then changeState s m.master?
  | .client (.writeEvents corr _ events env) => writeEvents corr events env
  | .replication (.replicaSubscribed m) => replicaSubscribed m
  | .replication (.createChunk m) => createChunk m
  | .replication (.rawChunkBulk m) => rawChunkBulk m
  | .replication (.dataChunkBulk m) => dataChunkBulk m
  | _ => pure ()
  pure true

end StorageWriter

end EventStore
