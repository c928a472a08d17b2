import EventStore.Api.Replica
import EventStore.Server.Run

/-!
# Node sessions

`node` runs one to three whole servers on one disk and one clock, each in a directory of its own
that outlives restarts. Steps start and stop servers, wait for their states, submit client writes
and read back what a server's chaser has passed, its commit position and its database.

Waiting is done on the clock: a wait looks at the servers, and while its condition does not hold
lets time pass to the next thing some server does, until the deadline. A server's internal
address is printed as `$n<i>`, after the server's index.
-/

namespace EventStore

namespace Api

/-- A node of a deployment: how it is set up and, while it runs, its server. -/
structure NodeSlot where
  params : ServerParams
  /-- The indexes of the nodes whose addresses are its seeds. -/
  seeds : List Nat
  server : Option Server := none
  /-- The internal address of its last start. -/
  address : Option SocketAddr := none
  deriving Inhabited

/-- Servers on one disk and one clock. -/
structure Deployment where
  slots : Array NodeSlot
  world : World := {}
  now : Nat := 0
  /-- How many client writes were submitted. -/
  clients : Nat := 0
  /-- How many addresses were bound. -/
  bound : Nat := 0
  deriving Inhabited

namespace Deployment

/-- The first port that servers are bound to. -/
def firstPort : Nat := 62001

/-- The directory of node `i`. -/
def dirOf (i : Nat) : String := "n" ++ toString i

/-- The server of node `i`, if it runs. -/
def server? (d : Deployment) (i : Nat) : Option Server := d.slots[i]? >>= (·.server)

/-- Runs a server action on node `i`, if it runs, at the deployment's time. -/
def onServer {α : Type} (d : Deployment) (i : Nat) (m : ServerM α) : Option (α × Deployment) :=
  match d.server? i with
  | none => none
  | some srv =>
    let (a, r) := m.run { srv, world := d.world, now := d.now }
    some (a, { d with world := r.world,
                      slots := d.slots.modify i fun s => { s with server := some r.srv } })

/-- Runs a server action on node `i` for its effect; nothing if the node is down. -/
def onServer_ (d : Deployment) (i : Nat) (m : ServerM Unit) : Deployment :=
  match d.onServer i m with
  | some ((), d') => d'
  | none => d

/-- When some server next has something to do on its own. -/
def nextEvent (d : Deployment) : Option Nat :=
  (d.slots.toList.filterMap fun s => s.server.bind Server.nextEvent).min?

/-- Lets time pass until `t` on every running server. -/
def advanceTo (d : Deployment) (t : Nat) : Deployment :=
  let d := (List.range d.slots.size).foldl
    (fun d i => d.onServer_ i (Server.advance t Server.eventsPerWait)) d
  { d with now := max d.now t }

/-- Looks with `probe` until it reports success or the deadline passes, letting time pass from one
event to the next; gives whether it succeeded and what it saw last. -/
def waitFor {β : Type} (probe : Deployment → Bool × β × Deployment) (deadline : Nat) :
    Nat → Deployment → Bool × β × Deployment
  | 0, d => probe d
  | fuel + 1, d =>
    let (ok, v, d) := probe d
    if ok then (true, v, d)
    else
      match d.nextEvent with
      | some t =>
        if t ≤ deadline then waitFor probe deadline fuel (d.advanceTo t)
        else (false, v, { d with now := max d.now deadline })
      | none => (false, v, { d with now := max d.now deadline })

/-- How many events a wait may pass. -/
def waitEvents : Nat := 100000

/-- Waits until `cond` holds, at most `timeout` milliseconds. -/
def waitUntil (cond : Deployment → Bool) (timeout : Nat) (d : Deployment) : Bool × Deployment :=
  let (ok, (), d) := waitFor (fun d => (cond d, (), d)) (d.now + timeout) waitEvents d
  (ok, d)

/-- The addresses printed as node aliases. -/
def aliases (d : Deployment) : List (String × SocketAddr) :=
  (List.range d.slots.size).filterMap fun i =>
    (d.slots[i]? >>= (·.address)).map fun a => ("$n" ++ toString i, a)

/-- Starts node `i`: its seeds are the addresses of their last starts. -/
def start (d : Deployment) (i : Nat) (seeds : List SocketAddr) : Doc × Deployment :=
  match d.slots[i]? with
  | none => (.badInput, d)
  | some slot =>
    let bound := SocketAddr.loopback (firstPort + d.bound)
    let d := { d with bound := d.bound + 1 }
    let p := { slot.params with seeds }
    match Server.start (dirOf i) p bound d.world d.now with
    | (.error (.failed msg), world) => (.errorWith "start" msg, { d with world })
    | (.error .stopped, world) => (panicked, { d with world })
    | (.ok r, world) =>
      let slot := { slot with server := some r.srv, address := some r.srv.info.internalTcp }
      (.obj [("r", .obj [("instance_id", .ident p.instanceId)])],
        { d with world, slots := d.slots.modify i fun _ => slot })

/-- Stops node `i`: asks it to stop and waits until every loop of it ended, then closes its
database. -/
def stop (d : Deployment) (i : Nat) : Deployment :=
  let d := d.onServer_ i Server.requestStop
  let halted := fun (d : Deployment) => (d.server? i).all (·.halted)
  let (_, d) := d.waitUntil halted (Nat.pow 10 9)
  let d := d.onServer_ i Server.closeStore
  { d with slots := d.slots.modify i fun s => { s with server := none } }

/-- The reply to client `k` in the traffic, if one came. -/
def replyTo (d : Deployment) (k : Nat) : Option ClientResponse :=
  d.world.traffic.toList.findSome? fun
    | .reply c r => if c = k then some r else none
    | _ => none

/-- Reads the data node `i`'s chaser has passed; none if the node is down or the read fails. -/
def events (d : Deployment) (i : Nat) : Option (List Bytes) × Deployment :=
  match d.onServer i Server.readEvents with
  | some (r, d') => (r, d')
  | none => (none, d)

end Deployment

/-- Reads a node's set-up: its parameters and the indexes of its seeds. -/
def readServerSpec (d : Doc) : Read (ServerParams × List Nat) := do
  let ms := fun (k : String) (dflt : Nat) => d.reqD k Doc.u64 dflt
  let p : ServerParams :=
    { instanceId := ← d.req "id" Doc.toUuid,
      nodePriority := ← d.reqD "node_priority" Doc.i32 0,
      clusterSize := ← d.reqD "cluster_size" Doc.u64 1,
      chunkSize := ← d.reqD "chunk_size" Doc.u32 4096,
      verifyHashes := ← d.reqD "verify_hashes" Doc.toBool true,
      epochCacheSize := ← d.reqD "epoch_cache_size" Doc.u64 1000,
      gossipInterval := ← ms "gossip_interval_ms" 50,
      gossipTimeout := ← ms "gossip_timeout_ms" 1000,
      prepareTimeout := ← ms "prepare_timeout_ms" 2000,
      commitTimeout := ← ms "commit_timeout_ms" 2000,
      electionProgressTimeout := ← ms "election_timeout_ms" 200,
      proofInterval := ← ms "proof_interval_ms" 100,
      masterReconnectionDelay := ← ms "reconnect_ms" 50,
      subscriptionRetryDelay := ← ms "subscription_retry_ms" 50,
      subscriptionTimeout := ← ms "subscription_timeout_ms" 1000,
      connectTimeout := ← ms "connect_ms" 200,
      heartbeatInterval := ← ms "heartbeat_interval_ms" 200,
      heartbeatTimeout := ← ms "heartbeat_timeout_ms" 200,
      shutdownTimeout := ← ms "shutdown_ms" 1000,
      internalAdvertise := ← d.opt? "internal_advertise" Doc.toAddr,
      externalTcp := ← d.opt? "external_tcp" Doc.toAddr,
      externalHttp := ← d.opt? "external_http" Doc.toAddr }
  pure (p, ← d.reqD "seeds" (Doc.toList Doc.u64) [])

/-- The node index a step names, the first by default; it must be one of the deployment's. -/
def nodeIndex (dep : Deployment) (d : Doc) : Read Nat := do
  let i ← d.reqD "node" Doc.u64 0
  if i < dep.slots.size then pure i else Read.reject

/-- One step of a node session. -/
def nodeStep (dep : Deployment) (d : Doc) : Read (Deployment × Doc) := do
  let dep := { dep with world := { dep.world with traffic := #[] } }
  let op ← d.req "op" Doc.toStr
  let (dep, answer) ← match op with
    | "start" => do
      let i ← nodeIndex dep d
      let slot := dep.slots[i]?.getD default
      if slot.server.isSome then pure (dep, Doc.error "already_running")
      else
        let seeds ← slot.seeds.mapM fun j => Read.ofOption (dep.slots[j]? >>= (·.address))
        let (a, dep) := dep.start i seeds
        pure (dep, a)
    | "stop" => do
      let i ← nodeIndex dep d
      if (dep.server? i).isNone then pure (dep, Doc.error "not_running")
      else pure (dep.stop i, Doc.obj [("r", .str "ok")])
    | "wait_state" => do
      let wanted ← d.req "states" (Doc.toList fun w => do
        pure (← nodeIndex dep w, ← Read.ofOption (NodeState.ofName? (← w.req "state" Doc.toStr))))
      let timeout ← d.reqD "timeout_ms" Doc.u64 3000
      let reached := fun (dep : Deployment) =>
        wanted.all fun (i, st) => (dep.server? i).any (·.controller.state = st)
      let (ok, dep) := dep.waitUntil reached timeout
      pure (dep, Doc.obj [("r", .bool ok)])
    | "write" => do
      let i ← nodeIndex dep d
      let events ← d.req "events" (Doc.toList Doc.toBytes)
      let requireMaster ← d.reqD "require_master" Doc.toBool false
      let timeout ← d.reqD "timeout_ms" Doc.u64 5000
      if (dep.server? i).isNone then pure (dep, Doc.error "not_running")
      else
        let k := dep.clients
        let dep := { dep with clients := k + 1 }
        let dep := dep.onServer_ i (Server.submitWrite k events requireMaster)
        let (_, dep) := dep.waitUntil (fun dep => (dep.replyTo k).isSome) timeout
        let r := match dep.replyTo k with
          | some resp => resp.toDoc
          | none => .str "no_response"
        pure (dep, Doc.obj [("r", r)])
    | "events" => do
      let i ← nodeIndex dep d
      let count ← d.reqD "count" Doc.u64 0
      let timeout ← d.reqD "timeout_ms" Doc.u64 3000
      if (dep.server? i).isNone then pure (dep, Doc.error "not_running")
      else
        let probe := fun (dep : Deployment) =>
          let (r, dep) := dep.events i
          ((r.map fun es => decide (count ≤ es.length)).getD false, r, dep)
        let (ok, last, dep) := Deployment.waitFor probe (dep.now + timeout) Deployment.waitEvents dep
        let es := (last.getD []).map Doc.ofBytes
        pure (dep, Doc.obj [("r", .obj [("reached", .bool ok), ("events", .arr es)])])
    | "commit_position" => do
      let i ← nodeIndex dep d
      let atLeast ← d.req "at_least" Doc.i64
      let timeout ← d.reqD "timeout_ms" Doc.u64 3000
      if (dep.server? i).isNone then pure (dep, Doc.error "not_running")
      else
        let reached := fun (dep : Deployment) =>
          (dep.server? i).any fun s => atLeast ≤ s.store.lastCommit
        let (ok, dep) := dep.waitUntil reached timeout
        pure (dep, Doc.obj [("r", .bool ok)])
    | "db" => do
      let i ← nodeIndex dep d
      match dep.server? i with
      | none => pure (dep, Doc.error "not_running")
      | some s =>
        pure (dep, Doc.obj [("r", .obj [("writer", .int s.store.db.config.checkpoints.writer.read),
          ("chunks", .int s.store.db.chunks.length)])])
    | _ => Read.reject
  pure (dep, answer.mapText (foldAlias dep.aliases))

/-- `node`: one to three whole servers, step by step. -/
def nodeSession (d : Doc) (L : Labels) : Except ReadFailure Doc := do
  let ((specs, steps), L) ← (do
    let specs ← d.req "nodes" (Doc.toList readServerSpec)
    if specs.isEmpty ∨ 3 < specs.length then Read.reject
    let steps ← readSteps d
    pure (specs, steps) : Read _).setup L
  let dep : Deployment :=
    { slots := (specs.map fun (params, seeds) => ({ params, seeds } : NodeSlot)).toArray }
  let (answers, _, _) := runSteps nodeStep steps L dep
  pure (.obj [("steps", .arr answers)])

end Api

end EventStore
