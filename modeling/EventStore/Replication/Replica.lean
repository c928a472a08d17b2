import EventStore.Service.Actor
import EventStore.Store.Epochs
import EventStore.Cluster.Node

/-!
# The replica side of replication

A replica keeps one connection to its master. Over it, it subscribes to the master's log (from
its own writer position, naming the chunk that holds it and its last epochs), acknowledges what it
wrote, forwards client writes, and watches the master with heartbeats: a tick that finds nothing
received since the last one sends a heartbeat request, and a second such tick gives the
connection up.

Every (re)connection starts a new generation, so that heartbeat ticks scheduled for an older
connection do nothing. A connection the replica closes itself is not reported; one that fails,
or that cannot be made, is reported as lost so that the controller decides what comes next.

Whether a master's endpoint takes connections is part of the environment: the replica is given
the endpoints that accept.
-/

namespace EventStore

/-- How many epochs a subscription request carries. -/
def lastEpochsSent : Nat := 5

/-- The replica's delays, in milliseconds. -/
structure ReplicaTimeouts where
  connect : Nat := 1000
  heartbeatInterval : Nat := 100
  heartbeatTimeout : Nat := 100
  deriving Inhabited

/-- An open connection to the master. -/
structure MasterLink where
  endpoint : SocketAddr
  /-- The connection's number, which its traffic is sent under. -/
  conn : Nat
  /-- How many messages came in on it. -/
  received : Nat := 0
  deriving Inhabited

/-- The replica's state. -/
structure Replica where
  info : NodeInfo
  timeouts : ReplicaTimeouts := {}
  /-- The master endpoints that accept connections. -/
  accepting : List SocketAddr := []
  state : NodeState := .initializing
  master : Option Member := none
  subscription : Option Uuid := none
  link : Option MasterLink := none
  generation : Nat := 0
  lastReceived : Nat := 0
  awaitingHeartbeat : Bool := false
  heartbeatNum : Nat := 0
  deriving Inhabited

/-- Replica actions. -/
abbrev ReplicaM := ActorM Replica ServiceError

namespace Replica

/-- Closes the connection without reporting it. -/
def disconnect : ReplicaM Unit := do
  if let some l := (← Actor.me).link then
    Actor.onWorld (World.emit (.close l.conn))
    Actor.modifyMe fun r => { r with link := none }

/-- Schedules a heartbeat tick of the current generation. -/
def scheduleTick (delay : Nat) : ReplicaM Unit := do
  Actor.publish (.schedule delay (.replication (.heartbeatTick (← Actor.me).generation)))

/-- Connects to a master, replacing any connection; a failure is reported as a lost
connection. -/
def connect (master : Member) : ReplicaM Unit := do
  disconnect
  let endpoint := master.internalTcp
  Actor.modifyMe fun r => { r with master := some master }
  if (← Actor.me).accepting.contains endpoint then
    let conn ← Actor.onWorld World.freshNat
    Actor.modifyMe fun r =>
      { r with link := some { endpoint, conn }, generation := r.generation + 1, lastReceived := 0,
               awaitingHeartbeat := false }
    Actor.publish (.system (.vnodeConnectionEstablished endpoint))
    scheduleTick (← Actor.me).timeouts.heartbeatInterval
  else Actor.publish (.system (.vnodeConnectionLost endpoint))

/-- Closes the connection after a failure and reports it lost. -/
def connectionLost : ReplicaM Unit := do
  if let some l := (← Actor.me).link then
    Actor.onWorld (World.emit (.close l.conn))
    Actor.modifyMe fun r => { r with link := none }
    Actor.publish (.system (.vnodeConnectionLost l.endpoint))

/-- Sends a message to the master, if connected. -/
def send (m : PeerMessage) : ReplicaM Unit := do
  if let some l := (← Actor.me).link then Actor.onWorld (World.emit (.send l.conn m))

/-- Subscribes to the master's log, connecting first if needed; a request for another master
than the current one is ignored. -/
def subscribe (masterId sub : Uuid) : ReplicaM Unit := do
  let some master := (← Actor.me).master | return
  if master.instanceId ≠ masterId then return
  if (← Actor.me).link.isNone then
    connect master
    if (← Actor.me).link.isNone then return
  let logPosition := (← Actor.onStore (ε := ServiceError) Store.checkpoints).writer.readNonFlushed
  let chunk ← Actor.onDb (Store.getChunkFor logPosition)
  let lastEpochs ← Actor.onDb (Store.lastEpochs lastEpochsSent)
  let r ← Actor.me
  Actor.modifyMe fun r => { r with subscription := some sub }
  send (.subscribeReplica
    { logPosition, chunkId := (chunk.map (·.header.chunkId)).getD .nil, lastEpochs,
      replicaId := r.info.instanceId, replicaInternal := r.info.internalTcp, masterId,
      subscriptionId := sub })

/-- A heartbeat tick: with traffic since the last tick all is well; without, a heartbeat request
goes out, and if one already did the connection is given up. -/
def heartbeatTick (generation : Nat) : ReplicaM Unit := do
  let r ← Actor.me
  if generation ≠ r.generation then return
  let some l := r.link | return
  if l.received ≠ r.lastReceived then
    Actor.modifyMe fun r => { r with lastReceived := l.received, awaitingHeartbeat := false }
    scheduleTick r.timeouts.heartbeatInterval
  else if !r.awaitingHeartbeat then
    Actor.modifyMe fun r => { r with heartbeatNum := r.heartbeatNum + 1, awaitingHeartbeat := true }
    send (.heartbeatRequest (r.heartbeatNum + 1))
    scheduleTick r.timeouts.heartbeatTimeout
  else connectionLost

/-- Counts a frame read from the connection to the master; the connection's reader counts every
frame it reads, and a frame of a connection already closed counts for nothing. -/
def frameReceived : ReplicaM Unit :=
  Actor.modifyMe fun r => { r with link := r.link.map fun l => { l with received := l.received + 1 } }

/-- Handles a message from the node's bus. -/
def handle (msg : Message) : ReplicaM Unit := do
  match msg with
  | .system (.becomePreReplica _ master) =>
    Actor.modifyMe fun r => { r with state := .preReplica, subscription := none }
    connect master
  | .system m =>
    let some s := m.newState? | return
    Actor.modifyMe fun r => { r with state := s }
    if !s.isReplica then
      disconnect
      Actor.modifyMe fun r => { r with master := none, subscription := none }
  | .replication (.reconnectToMaster _ master) => connect master
  | .replication (.subscribeToMaster _ masterId sub) => subscribe masterId sub
  | .replication (.ackLogPosition a) =>
    if (← Actor.me).subscription = some a.subscriptionId then send (.ackLogPosition a)
  | .replication (.heartbeatTick g) => heartbeatTick g
  | .storage (.commitAck sub pos) =>
    let r ← Actor.me
    if r.state = .slave ∧ r.subscription = some sub then send (.writeAck ⟨sub, pos⟩)
  | .client (.tcpForwardMessage fw) =>
    if (← Actor.me).link.isSome then send (.forwardWrite fw)
  | _ => pure ()

end Replica

end EventStore
