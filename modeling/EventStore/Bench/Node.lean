import EventStore.Service.StorageWriter
import EventStore.Service.StorageChaser
import EventStore.Replication.Master

/-!
# A storage bench

A bench holds storage nodes on one disk, each in a directory named after it, and carries
replication traffic between them by hand. An open node has its store (database, chunk writer,
epoch history, last commit position), a storage chaser and a master replication service, and,
once started, a storage writer service that takes over the chunk writer. Everything a node's
services publish goes to the node's bus, where the bench keeps what was not yet handed on:
storage reports for the master replication service, and acknowledgements for a master.

Opening a node opens its checkpoints (files, or the same in-memory ones across openings), its
database and its epoch history. Closing flushes and closes the database; a crash drops everything
without flushing. Either way a chunk being received is discarded with its temporary file.
-/

namespace EventStore

/-- How a bench node is set up. -/
structure NodeSpec where
  name : String
  instanceId : Uuid
  chunkSize : Nat := 4096
  verifyHashes : Bool := true
  epochCacheSize : Nat := 1000
  clusterSize : Nat := 1
  commitTimeoutMs : Nat := 3600000
  openAtStart : Bool := true
  memoryCheckpoints : Bool := false
  deriving Inhabited

/-- An open node. -/
structure OpenNode where
  store : Store
  writerService : Option StorageWriter := none
  chaser : StorageChaser
  master : MasterReplication
  deriving Inhabited

/-- A node of the bench. -/
structure BenchNode where
  spec : NodeSpec
  /-- The in-memory checkpoints, kept across openings. -/
  memory : Checkpoints := .inMemory
  running : Option OpenNode := none
  /-- What the node published during the current step. -/
  published : Array Message := #[]
  /-- Storage reports not yet handed to the master replication service. -/
  unrouted : List Message := []
  /-- Acknowledgements not yet delivered to a master. -/
  unacked : List Message := []
  deriving Inhabited

/-- Storage nodes on one disk with the traffic between them. -/
structure Bench where
  world : World := {}
  nodes : Array BenchNode
  /-- Peer messages sent on each connection and not yet delivered, oldest first. -/
  undelivered : List (Nat × List PeerMessage) := []
  deriving Inhabited

/-- Why a bench step did not give a value. -/
inductive BenchFault where
  | closed
  | alreadyOpen
  | writerInService
  | noWriterService
  | noChunk
  | panic
  /-- The step's request is refused after the step has begun its work. -/
  | badInput
  /-- A failure of the storage, with the name of its kind and its text. -/
  | failure (kind message : String)
  deriving Inhabited

/-- Bench actions. -/
abbrev BenchM := ExceptT BenchFault (StateM Bench)

namespace Bench

/-- Reports a storage fault as a bench fault, naming its kind with a prefix. -/
def report {ε : Type} (kind : ε → String) (message : ε → String) (pfx : String) :
    Fault ε → BenchFault
  | .panic => .panic
  | .error e => .failure (pfx ++ kind e) (message e)

/-- The node at an index. -/
def node (i : Nat) : BenchM BenchNode := do
  pure ((← get).nodes[i]?.getD default)

/-- Changes the node at an index. -/
def modifyNode (i : Nat) (f : BenchNode → BenchNode) : BenchM Unit :=
  modify fun b => { b with nodes := b.nodes.modify i f }

/-- The open node at an index. -/
def running (i : Nat) : BenchM OpenNode := do
  match (← node i).running with
  | some o => pure o
  | none => throw .closed

/-- Files what a node published: all of it for the step's report, storage reports other than
commit acknowledgements for routing, acknowledgements for delivery. -/
def file (i : Nat) (out : Array Message) : BenchM Unit :=
  modifyNode i fun n =>
    { n with published := n.published ++ out,
             unrouted := n.unrouted ++ out.toList.filter (fun
               | .storage (.commitAck _ _) => false
               | .storage _ => true
               | _ => false),
             unacked := n.unacked ++ out.toList.filter (fun
               | .storage (.commitAck _ _) => true
               | .replication (.ackLogPosition _) => true
               | _ => false) }

/-- Runs a store action on an open node against the bench's world. -/
def onStore {ε α : Type} (i : Nat) (m : StoreM ε α) (report' : Fault ε → BenchFault) :
    BenchM α := do
  let o ← running i
  let w := (← get).world
  let (r, s) := (ExceptT.run m).run { o.store with world := w }
  modify fun b => { b with world := s.world }
  modifyNode i fun n => { n with running := some { o with store := { s with world := {} } } }
  match r with
  | .ok a => pure a
  | .error e => throw (report' e)

/-- Runs a service action on an open node: `get'` and `set'` pick the service's state. -/
def onService {σ ε α : Type} (i : Nat) (get' : OpenNode → Option σ) (set' : OpenNode → σ → OpenNode)
    (m : ActorM σ ε α) (report' : Fault ε → BenchFault) : BenchM α := do
  let o ← running i
  let some self := get' o | throw .noWriterService
  let w := (← get).world
  let (r, a) := (ExceptT.run m).run { store := { o.store with world := w }, self }
  modify fun b => { b with world := a.store.world }
  modifyNode i fun n => { n with running := some (set' { o with store := { a.store with world := {} } } a.self) }
  file i a.outbox
  match r with
  | .ok x => pure x
  | .error e => throw (report' e)

/-- Reports of the services' failures. -/
def serviceReport : Fault ServiceError → BenchFault := report ServiceError.kind ServiceError.message "Service."

/-- Reports of database failures. -/
def dbReport : Fault DbError → BenchFault := report DbError.kind DbError.message "Db."

/-- Reports of epoch history failures. -/
def epochReport : Fault EpochError → BenchFault := report EpochError.kind EpochError.message "Epoch."

/-- Fails unless node `i` runs a storage writer service; a closed node runs none. -/
def requireWriterService (i : Nat) : BenchM Unit := do
  if ((← node i).running.bind (·.writerService)).isNone then throw .noWriterService

/-- Runs an action of the storage writer service. -/
def onWriterService {α : Type} (i : Nat) (m : ActorM StorageWriter ServiceError α) : BenchM α := do
  requireWriterService i
  onService i (·.writerService) (fun o s => { o with writerService := some s }) m serviceReport

/-- Runs an action of the chaser. -/
def onChaser {α : Type} (i : Nat) (m : ActorM StorageChaser ServiceError α) : BenchM α :=
  onService i (some ·.chaser) (fun o s => { o with chaser := s }) m serviceReport

/-- Runs an action of the master replication service. -/
def onMaster {α : Type} (i : Nat) (m : ActorM MasterReplication ServiceError α) : BenchM α :=
  onService i (some ·.master) (fun o s => { o with master := s }) m serviceReport

/-- Runs a world action. -/
def onWorld {α : Type} (m : WorldM DbError α) : BenchM α := do
  let (r, w) := (ExceptT.run m).run (← get).world
  modify fun b => { b with world := w }
  match r with
  | .ok a => pure a
  | .error e => throw (dbReport e)

/-- Opens a node: checkpoints, database, epoch history, writer, chaser and master replication. -/
def openNode (i : Nat) : BenchM Unit := do
  let n ← node i
  if n.running.isSome then throw .alreadyOpen
  let spec := n.spec
  let cps ← if spec.memoryCheckpoints then pure n.memory
    else do
      let w := (← get).world
      match Checkpoints.openFiles w.disk spec.name with
      | .ok (d, cps) =>
        modify fun b => { b with world := { w with disk := d } }
        pure cps
      | .error e => throw (dbReport (.error (.checkpoint e)))
  let cfg : DbConfig :=
    { dir := spec.name, chunkSize := spec.chunkSize, checkpoints := cps,
      verifyHashes := spec.verifyHashes }
  let cfg ← onWorld (ChunkDb.finishTruncation cfg)
  modifyNode i fun n => { n with memory := cfg.checkpoints }
  let db ← onWorld (ChunkDb.openChunks cfg)
  let store : Store :=
    { world := {}, db, writer := { position := 0 }, epochs := { cacheSize := max spec.epochCacheSize 1 } }
  let o : OpenNode :=
    { store, chaser := StorageChaser.ofStore store,
      master := { instanceId := spec.instanceId, clusterSize := spec.clusterSize,
                  commits := { clusterSize := spec.clusterSize, commitTimeoutMs := spec.commitTimeoutMs } } }
  modifyNode i fun n => { n with running := some o }
  let ok ← tryCatch (do
      onStore i Store.reloadEpochs epochReport
      let w ← onStore i Store.openWriter dbReport
      onStore i (modify fun s => { s with writer := w }) dbReport
      pure none)
    fun e => pure (some e)
  if let some e := ok then
    modifyNode i fun n =>
      { n with running := none,
               memory := (n.running.map (·.store.db.config.checkpoints)).getD n.memory }
    throw e
  modifyNode i fun n => { n with running := n.running.map fun o => { o with chaser := StorageChaser.ofStore o.store } }

/-- Takes a node down, keeping its in-memory checkpoints; a chunk being received is discarded. -/
def takeDown (i : Nat) : BenchM Unit := do
  let _ ← tryCatch (onStore i (Store.dropWriter (ε := DbError)) dbReport) fun _ => pure ()
  let o ← running i
  modifyNode i fun n => { n with running := none, memory := o.store.db.config.checkpoints }

/-- Closes a node: flushes and closes its database, then takes it down. -/
def closeNode (i : Nat) : BenchM Unit := do
  let _ ← running i
  onStore i (Store.close (ε := DbError)) dbReport
  takeDown i

/-- Crashes a node: drops everything without flushing. -/
def crashNode (i : Nat) : BenchM Unit := do
  let _ ← running i
  takeDown i

end Bench

end EventStore
