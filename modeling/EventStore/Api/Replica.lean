import EventStore.Api.Storage
import EventStore.Replication.Replica

/-!
# Replica sessions

`replica` drives a replica service with a database of its own, facing two masters written
`$m1` and `$m2`. A step is either a bus message handed to the replica, or an operation on its
database (`db_write`, `db_flush`, `db_epoch`) or on a master's side of a connection.

The masters of this bench take no connections: every attempt to connect fails at once and is
reported as a lost connection, so there is never a master side to act on, and the operations on
one are refused.

Each step answers `{"r": result}` with the messages the replica published.
-/

namespace EventStore

namespace Api

/-- The addresses that stand for the two masters. -/
def masterAliases : List (String × SocketAddr) :=
  [("$m1", SocketAddr.loopback 61001), ("$m2", SocketAddr.loopback 61002)]

/-- Replaces master aliases by their addresses. -/
def expandAlias (aliases : List (String × SocketAddr)) (s : String) : String :=
  match aliases.lookup s with
  | some a => a.toText
  | none => s

/-- Replaces master addresses by their aliases. -/
def foldAlias (aliases : List (String × SocketAddr)) (s : String) : String :=
  match aliases.find? (·.2.toText == s) with
  | some (name, _) => name
  | none => s

/-- A replica with its node's database. -/
structure ReplicaBench where
  bench : Bench
  replica : Replica
  deriving Inhabited

/-- Runs a replica action against the node's store, giving its result and what it published. -/
def runReplica {α : Type} (rb : ReplicaBench) (m : ReplicaM α) :
    (Except BenchFault α × List Message) × ReplicaBench :=
  match rb.bench.nodes[0]? |>.bind (·.running) with
  | none => ((.error .closed, []), rb)
  | some o =>
    let (r, a) := (ExceptT.run m).run { store := { o.store with world := rb.bench.world }, self := rb.replica }
    let bench := { rb.bench with
      world := a.store.world,
      nodes := rb.bench.nodes.modify 0 fun n =>
        { n with running := some { o with store := { a.store with world := {} } } } }
    let r' := match r with
      | .ok x => .ok x
      | .error e => .error (Bench.serviceReport e)
    ((r', a.outbox.toList), { bench, replica := a.self })

/-- Runs a bench action on the replica's node. -/
def runBench {α : Type} (rb : ReplicaBench) (m : BenchM α) : Except BenchFault α × ReplicaBench :=
  let (r, b) := (ExceptT.run m).run rb.bench
  (r, { rb with bench := b })

/-- The answer of a step: its result or failure, and what was published. -/
def replicaAnswer (r : Except BenchFault Doc) (out : List Message) : Doc :=
  let base := match r with
    | .ok v => Doc.obj [("r", v)]
    | .error e => BenchFault.toDoc e
  withExtras base [("out", outField out)]

/-- One step of a replica session. -/
def replicaStep (rb : ReplicaBench) (d : Doc) : Read (ReplicaBench × Doc) := do
  if d.has "t" then
    let msg ← Message.read d
    let ((r, out), rb') := runReplica rb (Replica.handle msg)
    pure (rb', replicaAnswer (r.map fun () => Doc.null) out)
  else
    let act : BenchM Doc ← match ← d.req "op" Doc.toStr with
      | "db_write" => do
        let data ← d.req "data" Doc.toBytes
        pure do
          let (s, e) ← Bench.onStore 0 (Store.writeRecord fun p => .data ⟨p, 0, .nil, data⟩)
            Bench.dbReport
          pure (spanDoc s e)
      | "db_flush" => pure do
        Bench.onStore 0 (Store.flushWriter (ε := DbError)) Bench.dbReport
        pure .null
      | "db_epoch" => pure do
        let leader := rb.replica.info.instanceId
        pure (← Bench.onStore 0 (Store.writeNewEpoch leader) Bench.epochReport).toDoc
      | _ => Read.reject
    let (r, rb') := runBench rb act
    pure (rb', replicaAnswer r [])

/-- `replica`: a replica service and its database, step by step. -/
def replicaSession (d : Doc) (L : Labels) : Except ReadFailure Doc := do
  let d := d.mapText (expandAlias masterAliases)
  let ((rb, steps), L) ← (do
    let info ← d.req "node" readNodeInfo
    let chunkSize ← d.reqD "chunk_size" Doc.u32 4096
    let timeouts : ReplicaTimeouts :=
      { connect := ← d.reqD "connect_ms" Doc.u64 1000,
        heartbeatInterval := ← d.reqD "heartbeat_interval_ms" Doc.u64 100,
        heartbeatTimeout := ← d.reqD "heartbeat_timeout_ms" Doc.u64 100 }
    let steps ← readSteps d
    let spec : NodeSpec :=
      { name := "replica", instanceId := info.instanceId, chunkSize, epochCacheSize := 10 }
    let b : Bench := { nodes := #[{ spec }] }
    let (_, b) := (ExceptT.run (Bench.openNode 0)).run b
    pure (({ bench := b, replica := { info, timeouts } } : ReplicaBench), steps) : Read _).setup L
  let (answers, _, _) := runSteps replicaStep steps L rb
  pure ((Doc.obj [("steps", .arr answers)]).mapText (foldAlias masterAliases))

end Api

end EventStore
