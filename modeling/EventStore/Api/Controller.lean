import EventStore.Api.Traffic
import EventStore.Cluster.Controller

/-!
# Controller sessions

`controller` hands bus messages to a node controller one by one. Each step answers with the
node's state and master, whether the node is shutting down and its database closed (only when
true), and what the step published and sent.
-/

namespace EventStore

namespace Api

/-- The answer of a controller step. -/
def controllerView (c : Controller) (out : List Message) (traffic : List Traffic) : Doc :=
  .withOptional [("state", .str c.state.name), ("master", .opt (fun m => .ident m.instanceId) c.master)]
    ([("node_shutting_down", if c.nodeShuttingDown then some (.bool true) else none),
      ("db_closed", if c.dbClosed then some (.bool true) else none),
      ("out", outField out)] ++ trafficFields traffic)

/-- One step of a controller session. -/
def controllerStep (r : ControllerRun) (d : Doc) : Read (ControllerRun × Doc) := do
  let msg ← Message.read d
  let ((), r') := (Controller.handle msg).run r
  pure ({ r' with out := #[], world := { r'.world with traffic := #[] } },
    controllerView r'.ctl r'.out.toList r'.world.traffic.toList)

/-- `controller`: a node controller, message by message. -/
def controllerSession (d : Doc) (L : Labels) : Except ReadFailure Doc := do
  let ((c, steps), L) ← (do
    let info ← d.req "node" readNodeInfo
    let timeouts : ControllerTimeouts :=
      { shutdown := ← d.reqD "shutdown_ms" Doc.u64 5000,
        masterReconnectionDelay := ← d.reqD "master_reconnection_delay_ms" Doc.u64 500,
        subscriptionRetryDelay := ← d.reqD "subscription_retry_delay_ms" Doc.u64 500,
        subscriptionTimeout := ← d.reqD "subscription_timeout_ms" Doc.u64 1000,
        forwardingTimeout := ← d.reqD "forwarding_timeout_ms" Doc.u64 (2000 + 2000 + 300) }
    let steps ← readSteps d
    pure (({ info, timeouts } : Controller), steps) : Read _).setup L
  let (answers, _, _) := runSteps controllerStep steps L { ctl := c }
  pure (.obj [("steps", .arr answers)])

end Api

end EventStore
