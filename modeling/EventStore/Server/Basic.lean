import EventStore.Bench.Node
import EventStore.Cluster.Controller
import EventStore.Cluster.Gossip
import EventStore.Election.Service
import EventStore.Replication.Replica

/-!
# Servers

A server is a whole node: its log, the controller that owns its role, and its services
(elections, gossip, storage writer and chaser, replica and master replication), with a timer and
a main queue. Services publish to the main queue; the controller takes messages from it one at a
time and hands what it decides on to the services each message is for (`Message.targets`).

Starting a server opens its checkpoint files, its database, its epoch history and its chunk
writer, in that order; the first failure ends the start with nothing running. A started server
gossips at once and then finds `SystemInit` on its main queue.
-/

namespace EventStore

/-- How a server is set up; durations are in milliseconds. -/
structure ServerParams where
  instanceId : Uuid
  nodePriority : Int := 0
  clusterSize : Nat := 1
  chunkSize : Nat := 4096
  verifyHashes : Bool := true
  epochCacheSize : Nat := 1000
  seeds : List SocketAddr := []
  gossipInterval : Nat := 1000
  gossipTimeout : Nat := 2500
  prepareTimeout : Nat := 2000
  commitTimeout : Nat := 2000
  electionProgressTimeout : Nat := 1000
  proofInterval : Nat := 5000
  masterReconnectionDelay : Nat := 500
  subscriptionRetryDelay : Nat := 500
  subscriptionTimeout : Nat := 1000
  connectTimeout : Nat := 1000
  heartbeatInterval : Nat := 1000
  heartbeatTimeout : Nat := 1000
  shutdownTimeout : Nat := 5000
  internalAdvertise : Option SocketAddr := none
  externalTcp : Option SocketAddr := none
  externalHttp : Option SocketAddr := none
  deriving Inhabited

/-- How long a replica waits for the master to answer a forwarded write. -/
def ServerParams.forwardingTimeout (p : ServerParams) : Nat :=
  p.prepareTimeout + p.commitTimeout + 300

/-- A message the timer holds until it is due; `seq` orders messages due at the same time. -/
structure Timer where
  due : Nat
  seq : Nat
  message : Message
  deriving Inhabited

/-- Inserts a timer after every timer due no later, keeping the list ordered by due time and,
among equal due times, by sequence. -/
def Timer.insert (t : Timer) : List Timer → List Timer
  | [] => [t]
  | u :: us => if t.due < u.due then t :: u :: us else u :: Timer.insert t us

/-- How far a store's log has come, as elections and gossip see it. -/
def Store.progress (s : Store) : Progress :=
  { lastEpoch := s.epochs.epochs.getLast?, writer := s.db.config.checkpoints.writer.read,
    chaser := s.db.config.checkpoints.chaser.read, commit := s.lastCommit }

/-- A running server. -/
structure Server where
  params : ServerParams
  info : NodeInfo
  /-- The log; its world is kept apart, with the other servers'. -/
  store : Store
  controller : Controller
  electionConfig : ElectionConfig
  elections : Elections
  gossip : GossipService
  /-- When the next gossip round is due. -/
  nextRound : Nat
  writer : StorageWriter
  chaser : StorageChaser
  master : MasterReplication
  replica : Replica
  /-- The services whose loop ended. -/
  finished : List Service := []
  timers : List Timer := []
  timerSeq : Nat := 0
  /-- The main queue, oldest first. -/
  queue : List Message := []
  shutdownRequested : Bool := false
  shutdownSeen : Bool := false
  /-- Set once every loop of the server ended. -/
  halted : Bool := false
  deriving Inhabited

namespace Server

/-- Why a server did not start. -/
inductive StartFailure where
  /-- Opening its storage failed, with the failure's text. -/
  | failed (message : String)
  /-- The program stopped on a broken internal rule. -/
  | stopped
  deriving Inhabited

/-- A storage fault as the reason a start failed. -/
def StartFailure.ofFault {ε : Type} (message : ε → String) : Fault ε → StartFailure
  | .error e => .failed (message e)
  | .panic => .stopped

/-- Runs a store action on a store with a world, giving back the world apart. -/
def onStore {ε α : Type} (s : Store) (w : World) (m : StoreM ε α) :
    Except (Fault ε) α × Store × World :=
  let (r, s') := (ExceptT.run m).run { s with world := w }
  (r, { s' with world := {} }, s'.world)

/-- Opens a store in directory `dir`: checkpoints, database, epoch history and chunk writer. -/
def openStore (dir : String) (p : ServerParams) (w : World) : Except StartFailure Store × World :=
  match Checkpoints.openFiles w.disk dir with
  | .error e => (.error (.failed (DbError.message (.checkpoint e))), w)
  | .ok (disk, cps) =>
    let w := { w with disk }
    let cfg : DbConfig :=
      { dir, chunkSize := p.chunkSize, checkpoints := cps, verifyHashes := p.verifyHashes }
    let (r, w) := (ExceptT.run (do
        let cfg ← ChunkDb.finishTruncation cfg
        ChunkDb.openChunks cfg)).run w
    match r with
    | .error e => (.error (.ofFault DbError.message e), w)
    | .ok db =>
      let store : Store :=
        { world := {}, db, writer := { position := 0 }, epochs := { cacheSize := max p.epochCacheSize 1 } }
      match onStore store w Store.reloadEpochs with
      | (.error e, _, w) => (.error (.ofFault EpochError.message e), w)
      | (.ok (), store, w) =>
        match onStore store w (Store.openWriter (ε := DbError)) with
        | (.error e, _, w) => (.error (.ofFault DbError.message e), w)
        | (.ok wr, store, w) => (.ok { store with writer := wr }, w)

/-- The identity a server announces: the advertised internal address or the bound one, and the
internal address for any external endpoint not given. -/
def infoOf (p : ServerParams) (bound : SocketAddr) : NodeInfo :=
  let internal := p.internalAdvertise.getD bound
  { instanceId := p.instanceId, internalTcp := internal, internalSecureTcp := none,
    externalTcp := p.externalTcp.getD internal, externalSecureTcp := none,
    externalHttp := p.externalHttp.getD internal, nodePriority := p.nodePriority }

/-- A server on an opened store at `now`, before anything ran. -/
def ofStore (p : ServerParams) (info : NodeInfo) (store : Store) (now : Nat) : Server :=
  let electionConfig : ElectionConfig :=
    { node := info, clusterSize := p.clusterSize, progressTimeoutMs := p.electionProgressTimeout,
      proofIntervalMs := p.proofInterval }
  { params := p, info, store,
    controller :=
      { info,
        timeouts :=
          { shutdown := p.shutdownTimeout, masterReconnectionDelay := p.masterReconnectionDelay,
            subscriptionRetryDelay := p.subscriptionRetryDelay,
            subscriptionTimeout := p.subscriptionTimeout, forwardingTimeout := p.forwardingTimeout } },
    electionConfig,
    elections := Elections.init electionConfig store.progress wallClock,
    gossip := { info, progress := store.progress, seeds := p.seeds, timeoutMs := p.gossipTimeout },
    nextRound := now,
    writer := { instanceId := p.instanceId },
    chaser := StorageChaser.ofStore store,
    master :=
      { instanceId := p.instanceId, clusterSize := p.clusterSize,
        commits := { clusterSize := p.clusterSize, commitTimeoutMs := p.commitTimeout } },
    replica :=
      { info,
        timeouts :=
          { connect := p.connectTimeout, heartbeatInterval := p.heartbeatInterval,
            heartbeatTimeout := p.heartbeatTimeout } } }

end Server

end EventStore
