import EventStore.Api.Session
import EventStore.Replication.Commit

/-!
# Commit tracker sessions

`commit` drives a master's commit tracker on a virtual clock. Each step answers with what it gave
back (writes taken, or null), the commit position, the number of slaves and the quorum.
-/

namespace EventStore

namespace Api

/-- A taken write as printed. -/
def PendingWrite.toDoc (w : PendingWrite) : Doc :=
  .obj [("correlation_id", .ident w.correlationId), ("first_position", .int w.firstPosition),
    ("end_position", .int w.endPosition)]

/-- The answer of a commit step. -/
def commitView (t : CommitTracker) (r : Doc) : Doc :=
  .obj [("r", r), ("commit_position", .int t.commitPosition), ("slave_count", .nat t.slaveCount),
    ("quorum", .nat t.quorum)]

/-- Taken writes as printed. -/
def takenDoc (ws : List PendingWrite) : Doc := .arr (ws.map PendingWrite.toDoc)

/-- One step of a commit session. -/
def commitStep (t : CommitTracker) (d : Doc) : Read (CommitTracker × Doc) := do
  let t' ← match ← d.req "op" Doc.toStr with
    | "add_pending" => do
      pure (some (t.addPending (← d.reqD "correlation_id" Doc.toUuid ⟨0⟩)
        (← d.reqD "envelope" Envelope.read (.client 0)) (← d.req "first_position" Doc.i64)
        (← d.req "end_position" Doc.i64) (← d.reqD "now_ms" Doc.u64 0)))
    | "master_flushed" => do pure (some (t.masterFlushed (← d.req "position" Doc.i64)))
    | "replica_acked" => do
      pure (some (t.replicaAcked (← d.req "subscription_id" Doc.toUuid) (← d.req "position" Doc.i64)))
    | "add_slave" => do
      pure (some (t.addSlave (← d.req "subscription_id" Doc.toUuid) (← d.req "position" Doc.i64)))
    | "remove_slave" => do pure (some (t.removeSlave (← d.req "subscription_id" Doc.toUuid)))
    | "take_committed" => pure none
    | "take_timed_out" => do let _ ← d.reqD "now_ms" Doc.u64 0; pure none
    | "reset" => pure none
    | _ => Read.reject
  match t' with
  | some t' => pure (t', commitView t' .null)
  | none =>
    let (ws, t') ← match ← d.req "op" Doc.toStr with
      | "take_committed" => pure t.takeCommitted
      | "take_timed_out" => do pure (t.takeTimedOut (← d.reqD "now_ms" Doc.u64 0))
      | _ => pure t.reset
    pure (t', commitView t' (takenDoc ws))

/-- `commit`: a commit tracker, step by step. -/
def commitSession (d : Doc) (L : Labels) : Except ReadFailure Doc := do
  let ((t, steps), L) ← (do
    let n ← d.req "cluster_size" Doc.u64
    if n = 0 then Read.reject
    let timeout ← d.reqD "commit_timeout_ms" Doc.u64 2000
    let steps ← readSteps d
    pure (({ clusterSize := n, commitTimeoutMs := timeout } : CommitTracker), steps) : Read _).setup L
  let (answers, _, _) := runSteps commitStep steps L t
  pure (.obj [("steps", .arr answers)])

end Api

end EventStore
