import EventStore.Cluster.Node
import EventStore.Service.Forwarding

/-!
# The node controller

The controller owns the node's role. For every message from the node's main queue and the
current state it decides whether to act on it, pass it on to the services, or drop it as stale.

Every role change started by an election gets a fresh state correlation identifier; follow-up
messages (chaser caught up, reconnects, subscription retries) carry the identifier they were
issued under and are dropped once it no longer matches. Replication messages from a master count
only when they come from the current master over the current subscription.

A node starts once its storage writer and chaser report that they are initialized, and shuts
down once the storage writer, the chaser and master replication report that they stopped, or the
shutdown times out; the database is closed then.
-/

namespace EventStore

/-- The controller's delays, in milliseconds. -/
structure ControllerTimeouts where
  shutdown : Nat := 5000
  masterReconnectionDelay : Nat := 500
  subscriptionRetryDelay : Nat := 500
  subscriptionTimeout : Nat := 1000
  forwardingTimeout : Nat := 2000 + 2000 + 300
  deriving Inhabited

/-- The services that report being initialized before the node starts. -/
def serviceInitsToExpect : List String := ["StorageWriter", "StorageChaser"]

/-- The services that report stopping before the database is closed. -/
def serviceShutdownsToExpect : List String := ["StorageWriter", "StorageChaser", "MasterReplication"]

/-- The controller's state. -/
structure Controller where
  info : NodeInfo
  timeouts : ControllerTimeouts := {}
  state : NodeState := .initializing
  master : Option Member := none
  stateCorrelationId : Uuid := .nil
  subscriptionId : Uuid := .nil
  initsToExpect : List String := serviceInitsToExpect
  shutdownsToExpect : List String := serviceShutdownsToExpect
  forwarding : ForwardingProxy := {}
  dbClosed : Bool := false
  nodeShuttingDown : Bool := false
  deriving Inhabited

/-- A controller with the world it acts on and what it published. -/
structure ControllerRun where
  ctl : Controller
  world : World := {}
  out : Array Message := #[]
  deriving Inhabited

/-- Controller actions. -/
abbrev ControllerM := StateM ControllerRun

namespace Controller

/-- The controller. -/
def me : ControllerM Controller := do pure (← get).ctl

/-- Changes the controller. -/
def modifyMe (f : Controller → Controller) : ControllerM Unit :=
  modify fun r => { r with ctl := f r.ctl }

/-- Publishes a message to the services. -/
def publish (m : Message) : ControllerM Unit :=
  modify fun r => { r with out := r.out.push m }

/-- Runs a world action that cannot fail. -/
def onWorld {α : Type} [Inhabited α] (m : WorldM Empty α) : ControllerM α := do
  let (res, w) := (ExceptT.run m).run (← get).world
  modify fun r => { r with world := w }
  match res with
  | .ok a => pure a
  | .error _ => pure default

/-- A new identifier. -/
def freshId : ControllerM Uuid := onWorld World.freshId

/-- Whether a member is the current master. -/
def isCurrentMaster (c : Controller) (m : Member) : Bool :=
  c.master.any (·.instanceId = m.instanceId)

/-- Whether a replication message comes from the current master over the current
subscription. -/
def isLegitimate (c : Controller) (m : ReplicationMsg) : Bool :=
  match m.subscription? with
  | some (masterId, sub) => sub = c.subscriptionId && c.master.any (·.instanceId = masterId)
  | none => false

/-- Where clients should send writes that need the master: the master's endpoints, or this
node's own while no master is known. -/
def masterEndpoints (c : Controller) : Endpoints :=
  match c.master with
  | some m => m.endpoints
  | none => ⟨c.info.externalTcp, c.info.externalSecureTcp, c.info.externalHttp⟩

/-- Moves to a state. -/
def setState (s : NodeState) : ControllerM Unit := modifyMe fun c => { c with state := s }

/-- Asks the chaser to report when it caught up. -/
def waitForChaser : ControllerM Unit := do
  publish (.system (.waitForChaserToCatchUp (← me).stateCorrelationId 0))

/-- Forgets the master and starts elections. -/
def becomeUnknown : ControllerM Unit := do
  let cid ← freshId
  modifyMe fun c => { c with master := none, stateCorrelationId := cid, state := .unknown }
  publish (.system (.becomeUnknown cid))
  publish (.election .startElections)

/-- Elected: waits for the chaser before becoming master. -/
def becomePreMaster : ControllerM Unit := do
  setState .preMaster
  publish (.system (.becomePreMaster (← me).stateCorrelationId))
  waitForChaser

/-- Becomes master. -/
def becomeMaster : ControllerM Unit := do
  setState .master
  publish (.system (.becomeMaster (← me).stateCorrelationId))

/-- Follows a master: waits for the chaser before subscribing. -/
def becomePreReplica (m : Member) : ControllerM Unit := do
  modifyMe fun c => { c with master := some m, state := .preReplica }
  publish (.system (.becomePreReplica (← me).stateCorrelationId m))
  waitForChaser

/-- Takes a replica role the master gave; nothing without a master. -/
def becomeReplicaRole (s : NodeState) : ControllerM Unit := do
  let c ← me
  let some m := c.master | return
  let cid := c.stateCorrelationId
  let msg? : Option SystemMsg := match s with
    | .catchingUp => some (.becomeCatchingUp cid m)
    | .clone => some (.becomeClone cid m)
    | .slave => some (.becomeSlave cid m)
    | _ => none
  let some msg := msg? | return
  setState s
  publish (.system msg)

/-- Starts shutting down: the services are told to stop, with a deadline. -/
def becomeShuttingDown (exitProcess : Bool) : ControllerM Unit := do
  let cid ← freshId
  modifyMe fun c => { c with master := none, stateCorrelationId := cid, state := .shuttingDown }
  publish (.schedule (← me).timeouts.shutdown (.system .shutdownTimeout))
  publish (.system (.becomeShuttingDown cid exitProcess))

/-- Closes the database and finishes shutting down. -/
def shutdown : ControllerM Unit := do
  modifyMe fun c => { c with dbClosed := true, state := .shutdown }
  publish (.system (.becomeShutdown (← me).stateCorrelationId))
  modifyMe fun c => { c with nodeShuttingDown := true }

/-- Removes the first occurrence of a service name. -/
def dropService (s : String) (l : List String) : List String := l.erase s

/-- Handles a replication message. -/
def handleReplication (m : ReplicationMsg) : ControllerM Unit := do
  let c ← me
  match c.state, m with
  | .preReplica, .reconnectToMaster cid master =>
    if cid = c.stateCorrelationId && c.isCurrentMaster master then publish (.replication m)
  | .preReplica, .subscribeToMaster cid masterId sub =>
    if cid = c.stateCorrelationId && c.master.any (·.instanceId = masterId) then
      modifyMe fun c => { c with subscriptionId := sub }
      publish (.replication m)
      let next ← freshId
      publish (.schedule c.timeouts.subscriptionTimeout
        (.replication (.subscribeToMaster cid masterId next)))
  | .preReplica, .replicaSubscriptionRetry _ =>
    if c.isLegitimate m then
      if let some master := c.master then
        let next ← freshId
        publish (.schedule c.timeouts.subscriptionRetryDelay
          (.replication (.subscribeToMaster c.stateCorrelationId master.instanceId next)))
  | .preReplica, .replicaSubscribed _ =>
    if c.isLegitimate m then
      publish (.replication m)
      becomeReplicaRole .catchingUp
  | .catchingUp, .createChunk _ | .clone, .createChunk _ | .slave, .createChunk _
  | .catchingUp, .rawChunkBulk _ | .clone, .rawChunkBulk _ | .slave, .rawChunkBulk _
  | .catchingUp, .dataChunkBulk _ | .clone, .dataChunkBulk _ | .slave, .dataChunkBulk _ =>
    if c.isLegitimate m then publish (.replication m)
  | .catchingUp, .ackLogPosition _ | .clone, .ackLogPosition _ | .slave, .ackLogPosition _ =>
    publish (.replication m)
  | .catchingUp, .slaveAssignment _ | .clone, .slaveAssignment _ =>
    if c.isLegitimate m then becomeReplicaRole .slave
  | .catchingUp, .cloneAssignment _ | .slave, .cloneAssignment _ =>
    if c.isLegitimate m then becomeReplicaRole .clone
  | .preMaster, .replicaSubscriptionRequest _ _ | .master, .replicaSubscriptionRequest _ _ =>
    publish (.replication m)
  | s, .replicaLogPositionAck _ _ | s, .replicaWriteAck _ _ | s, .replicaConnectionClosed _
  | s, .heartbeatTick _ =>
    if s ≠ .shutdown then publish (.replication m)
  | _, _ => pure ()

/-- Whether a state is one of a replica's. -/
def isReplicaState : NodeState → Bool
  | .preReplica | .catchingUp | .clone | .slave => true
  | _ => false

/-- Handles a system message; `fuel` bounds the start that the last initialized service
triggers. -/
def handleSystem : Nat → SystemMsg → ControllerM Unit
  | 0, _ => pure ()
  | fuel + 1, m => do
    let c ← me
    match c.state, m with
    | .initializing, .systemInit => publish (.system m)
    | .initializing, .serviceInitialized s =>
      modifyMe fun c => { c with initsToExpect := dropService s c.initsToExpect }
      if (← me).initsToExpect.isEmpty then handleSystem fuel .systemStart
    | .initializing, .systemStart =>
      publish (.system m)
      becomeUnknown
    | .shuttingDown, .requestShutdown | .shutdown, .requestShutdown => pure ()
    | _, .requestShutdown => becomeShuttingDown true
    | .shuttingDown, .serviceShutdown s =>
      modifyMe fun c => { c with shutdownsToExpect := dropService s c.shutdownsToExpect }
      if (← me).shutdownsToExpect.isEmpty then shutdown
    | .shuttingDown, .shutdownTimeout => shutdown
    | s, .chaserCaughtUp cid =>
      if (s = .preMaster ∨ s = .preReplica) ∧ cid = c.stateCorrelationId then
        if s = .preMaster then becomeMaster
        else if let some master := c.master then
          let sub ← freshId
          handleReplication (.subscribeToMaster c.stateCorrelationId master.instanceId sub)
    | s, .becomePreReplica cid master =>
      if isReplicaState s && cid = c.stateCorrelationId && c.isCurrentMaster master then
        becomePreReplica master
    | s, .vnodeConnectionLost endpoint =>
      if isReplicaState s then
        let some master := c.master | return
        if master.internalTcp ≠ endpoint then return
        let msg : Message := if s = .preReplica then
            .replication (.reconnectToMaster c.stateCorrelationId master)
          else .system (.becomePreReplica c.stateCorrelationId master)
        publish (.schedule c.timeouts.masterReconnectionDelay msg)
    | .master, .noQuorum => becomeUnknown
    | _, _ => pure ()

/-- Handles the end of elections: a new master starts a new role, the same master again has a
master write a new epoch. -/
def electionsDone (view : Int) (master : Member) : ControllerM Unit := do
  let c ← me
  if c.isCurrentMaster master then
    if master.instanceId = c.info.instanceId ∧ c.state = .master then
      publish (.system .writeEpoch)
    return
  let sub ← freshId
  let cid ← freshId
  modifyMe fun c => { c with subscriptionId := sub, stateCorrelationId := cid }
  publish (.election (.electionsDone view master))
  if master.instanceId = c.info.instanceId then
    modifyMe fun c => { c with master := some master }
    becomePreMaster
  else becomePreReplica master

/-- Handles an election message. -/
def handleElection (m : ElectionMsg) : ControllerM Unit := do
  match (← me).state, m with
  | .initializing, _ | .shuttingDown, _ | .shutdown, _ => pure ()
  | _, .electionsDone view master => electionsDone view master
  | _, _ => publish (.election m)

/-- Handles a gossip message: a view without a live master starts elections on a replica, one
with several live masters starts them on a master. -/
def handleGossip (m : GossipMsg) : ControllerM Unit := do
  let c ← me
  if let .gossipUpdated members := m then
    if isReplicaState c.state then
      let masterAlive := c.master.any fun master =>
        members.any fun x => x.instanceId = master.instanceId && x.isAlive
      if !masterAlive then publish (.election .startElections)
    else if c.state = .preMaster ∨ c.state = .master then
      let masters := (members.filter fun x => x.isAlive && x.state = .master).length
      if 1 < masters then publish (.election .startElections)
  if c.state ≠ .shutdown then publish (.gossip m)

/-- Handles a client message: a master takes writes, a replica forwards them to the master (or
redirects writes that need the master), any other node refuses them. -/
def handleClient (m : ClientMsg) : ControllerM Unit := do
  let c ← me
  match c.state, m with
  | .preMaster, .writeEvents .. | .master, .writeEvents .. => publish (.client m)
  | s, .writeEvents _ requireMaster events envelope =>
    if isReplicaState s then
      if requireMaster then
        onWorld (envelope.reply (.notHandled (.notMaster c.masterEndpoints)))
      else
        let (id, p) ← onWorld (c.forwarding.register envelope)
        modifyMe fun c => { c with forwarding := p }
        publish (.schedule c.timeouts.forwardingTimeout (.client (.forwardingTimeout id)))
        publish (.client (.tcpForwardMessage ⟨id, events⟩))
    else onWorld (envelope.reply (.notHandled .notReady))
  | _, .forwardedWriteCompleted done =>
    let (_, p) ← onWorld (c.forwarding.complete done)
    modifyMe fun c => { c with forwarding := p }
  | _, .forwardingTimeout id =>
    let (_, p) ← onWorld (c.forwarding.timeout id)
    modifyMe fun c => { c with forwarding := p }
  | _, .tcpForwardMessage _ => publish (.client m)

/-- Handles one message from the main queue. -/
def handle (m : Message) : ControllerM Unit := do
  match m with
  | .system s => handleSystem 2 s
  | .election e => handleElection e
  | .gossip g => handleGossip g
  | .replication r => handleReplication r
  | .client c => handleClient c
  | other => if (← me).state ≠ .shutdown then publish other

end Controller

end EventStore
