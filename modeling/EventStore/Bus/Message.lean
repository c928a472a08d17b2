import EventStore.Peer.Message

/-!
# Messages between a node's services

A node's services (elections, gossip, the storage writer and chaser, the replica and master
replication services, the timer and the peer transport) talk by publishing messages on the node's
bus. Messages fall into groups: system (lifecycle and state changes), election, gossip,
replication, client, storage, timer (`schedule`: deliver a message later) and peer (`peerSend`:
send a peer message to an address).

A client write carries an envelope saying where its response goes: a client channel, or back over
the peer connection a forwarded write came in on.
-/

namespace EventStore

/-- Where a client response goes. -/
inductive Envelope where
  /-- The response channel of client `k`. -/
  | client (k : Nat)
  /-- Back over peer connection `conn`, as the completion of forwarded write `internalCorrId`. -/
  | peer (conn : Nat) (internalCorrId : Uuid)
  deriving DecidableEq, Repr, Inhabited

/-- Why a client write was not handled. -/
inductive NotHandledReason where
  | notReady
  | notMaster (endpoints : Endpoints)
  deriving DecidableEq, Repr, Inhabited

/-- The response to a client write. -/
inductive ClientResponse where
  | writeCompleted (result : WriteResult) (firstPosition lastPosition : Int)
  | notHandled (reason : NotHandledReason)
  deriving DecidableEq, Repr, Inhabited

/-- Lifecycle and state changes of the node. -/
inductive SystemMsg where
  | systemInit
  | systemStart
  | serviceInitialized (service : String)
  | requestShutdown
  | serviceShutdown (service : String)
  | shutdownTimeout
  | becomeUnknown (correlationId : Uuid)
  | becomePreReplica (correlationId : Uuid) (master : Member)
  | becomeCatchingUp (correlationId : Uuid) (master : Member)
  | becomeClone (correlationId : Uuid) (master : Member)
  | becomeSlave (correlationId : Uuid) (master : Member)
  | becomePreMaster (correlationId : Uuid)
  | becomeMaster (correlationId : Uuid)
  | becomeShuttingDown (correlationId : Uuid) (exitProcess : Bool)
  | becomeShutdown (correlationId : Uuid)
  | waitForChaserToCatchUp (correlationId : Uuid) (totalTimeMs : Nat)
  | chaserCaughtUp (correlationId : Uuid)
  | vnodeConnectionEstablished (endpoint : SocketAddr)
  | vnodeConnectionLost (endpoint : SocketAddr)
  | noQuorum
  | writeEpoch
  deriving DecidableEq, Repr, Inhabited

/-- Election traffic and timers. -/
inductive ElectionMsg where
  | startElections
  | electionsTimedOut (view : Int)
  | sendViewChangeProof
  | viewChange (m : ViewChange)
  | viewChangeProof (m : ViewChangeProof)
  | prepare (m : Prepare)
  | prepareOk (m : PrepareOk)
  | proposal (m : Proposal)
  | accept (m : Accept)
  | electionsDone (view : Int) (master : Member)
  deriving DecidableEq, Repr, Inhabited

/-- Gossip received from a peer, and the cluster view gossip settled on. -/
inductive GossipMsg where
  | gossipReceived (senderInternal : SocketAddr) (members : List Member)
  | gossipUpdated (members : List Member)
  deriving DecidableEq, Repr, Inhabited

/-- Replication between a master and its replicas. -/
inductive ReplicationMsg where
  | reconnectToMaster (stateCorrelationId : Uuid) (master : Member)
  | subscribeToMaster (stateCorrelationId masterId subscriptionId : Uuid)
  | replicaSubscribed (m : ReplicaSubscribed)
  | replicaSubscriptionRetry (m : SubscriptionRef)
  | createChunk (m : CreateChunk)
  | rawChunkBulk (m : RawChunkBulk)
  | dataChunkBulk (m : DataChunkBulk)
  | ackLogPosition (m : AckLogPosition)
  | slaveAssignment (m : SubscriptionRef)
  | cloneAssignment (m : SubscriptionRef)
  | heartbeatTick (generation : Nat)
  | replicaSubscriptionRequest (connection : Nat) (request : SubscribeReplica)
  | replicaLogPositionAck (connectionId : Nat) (ack : AckLogPosition)
  | replicaWriteAck (connectionId : Nat) (ack : WriteAck)
  | replicaConnectionClosed (connectionId : Nat)
  deriving DecidableEq, Repr, Inhabited

/-- Client writes, forwarded or not. -/
inductive ClientMsg where
  | writeEvents (correlationId : Uuid) (requireMaster : Bool) (events : List Bytes)
      (envelope : Envelope)
  | tcpForwardMessage (m : ForwardWrite)
  | forwardedWriteCompleted (m : ForwardWriteCompleted)
  | forwardingTimeout (internalCorrId : Uuid)
  deriving DecidableEq, Repr, Inhabited

/-- What the storage services report. -/
inductive StorageMsg where
  | writePending (correlationId : Uuid) (envelope : Envelope) (firstPosition endPosition : Int)
  | flushed (position : Int)
  | commitAck (subscriptionId : Uuid) (logPosition : Int)
  deriving DecidableEq, Repr, Inhabited

/-- A message on a node's bus. -/
inductive Message where
  | system (m : SystemMsg)
  | election (m : ElectionMsg)
  | gossip (m : GossipMsg)
  | replication (m : ReplicationMsg)
  | client (m : ClientMsg)
  | storage (m : StorageMsg)
  /-- Deliver `message` after `delayMs` milliseconds. -/
  | schedule (delayMs : Nat) (message : Message)
  /-- Send a peer message to an address. -/
  | peerSend (dest : SocketAddr) (message : PeerMessage)
  deriving DecidableEq, Repr, Inhabited

namespace SystemMsg

/-- The state a state-change message moves the node to. -/
def newState? : SystemMsg → Option NodeState
  | becomeUnknown _ => some .unknown
  | becomePreReplica _ _ => some .preReplica
  | becomeCatchingUp _ _ => some .catchingUp
  | becomeClone _ _ => some .clone
  | becomeSlave _ _ => some .slave
  | becomePreMaster _ => some .preMaster
  | becomeMaster _ => some .master
  | becomeShuttingDown _ _ => some .shuttingDown
  | becomeShutdown _ => some .shutdown
  | _ => none

/-- The master a replica state change names. -/
def master? : SystemMsg → Option Member
  | becomePreReplica _ m | becomeCatchingUp _ m | becomeClone _ m | becomeSlave _ m => some m
  | _ => none

end SystemMsg

namespace ElectionMsg

/-- The election message a peer message carries, if it is one. -/
def ofPeer? : PeerMessage → Option ElectionMsg
  | .viewChange m => some (viewChange m)
  | .viewChangeProof m => some (viewChangeProof m)
  | .prepare m => some (prepare m)
  | .prepareOk m => some (prepareOk m)
  | .proposal m => some (proposal m)
  | .accept m => some (accept m)
  | _ => none

end ElectionMsg

namespace ReplicationMsg

/-- The master and subscription a replication message belongs to, if it names them. -/
def subscription? : ReplicationMsg → Option (Uuid × Uuid)
  | replicaSubscribed m => some (m.masterId, m.subscriptionId)
  | replicaSubscriptionRetry m => some (m.masterId, m.subscriptionId)
  | createChunk m => some (m.masterId, m.subscriptionId)
  | rawChunkBulk m => some (m.masterId, m.subscriptionId)
  | dataChunkBulk m => some (m.masterId, m.subscriptionId)
  | slaveAssignment m | cloneAssignment m => some (m.masterId, m.subscriptionId)
  | _ => none

end ReplicationMsg

/-- The services of a node that a bus delivers to. -/
inductive Service where
  | elections
  | gossip
  | storageWriter
  | storageChaser
  | replica
  | masterReplication
  | timer
  | peer
  deriving DecidableEq, Repr, Inhabited

namespace Service

/-- The name of a service. -/
def name : Service → String
  | elections => "elections"
  | gossip => "gossip"
  | storageWriter => "storage_writer"
  | storageChaser => "storage_chaser"
  | replica => "replica"
  | masterReplication => "master_replication"
  | timer => "timer"
  | peer => "peer"

end Service

namespace Message

/-- The services a message is delivered to, in the bus's order. -/
def targets : Message → List Service
  | system .systemInit => [.elections, .gossip, .storageWriter, .storageChaser, .masterReplication]
  | system (.waitForChaserToCatchUp _ _) => [.storageChaser]
  | system .writeEpoch => [.storageWriter]
  | system (.becomeShuttingDown _ _) =>
    [.elections, .gossip, .storageWriter, .storageChaser, .replica, .masterReplication]
  | system m =>
    if m.newState?.isSome then [.gossip, .storageWriter, .storageChaser, .replica, .masterReplication]
    else []
  | election (.electionsDone _ _) => [.gossip]
  | election _ => [.elections]
  | gossip (.gossipReceived _ _) => [.gossip]
  | gossip (.gossipUpdated _) => [.elections]
  | replication m =>
    match m with
    | .reconnectToMaster _ _ | .subscribeToMaster _ _ _ | .ackLogPosition _ | .heartbeatTick _ =>
      [.replica]
    | .replicaSubscribed _ | .createChunk _ | .rawChunkBulk _ | .dataChunkBulk _ => [.storageWriter]
    | .replicaSubscriptionRequest _ _ | .replicaLogPositionAck _ _ | .replicaWriteAck _ _
    | .replicaConnectionClosed _ => [.masterReplication]
    | .replicaSubscriptionRetry _ | .slaveAssignment _ | .cloneAssignment _ => []
  | client (.writeEvents _ _ _ _) => [.storageWriter]
  | client (.tcpForwardMessage _) => [.replica]
  | client _ => []
  | storage (.commitAck _ _) => [.replica]
  | storage _ => [.masterReplication]
  | schedule _ _ => [.timer]
  | peerSend _ _ => [.peer]

end Message

end EventStore
