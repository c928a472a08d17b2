import EventStore.Api.Elections
import EventStore.Election.Cluster

/-!
# Election cluster sessions

`elections_cluster` runs several elections services (default timeouts) and a network between them.
Steps: `gossip`, `start`, `kill`, `revive`, `deliver`, `drop`, `timeouts`, `proofs`,
`set_progress`. Each step shows the number of messages in flight and every node's phase,
installed view, master, elections seen done and liveness.
-/

namespace EventStore

namespace Api

/-- What a step shows of the cluster. -/
def clusterView (c : ElectionCluster) : Doc :=
  .obj [("in_flight", .nat c.inFlight.length), ("nodes", .arr (c.nodes.toList.map fun n =>
    .obj [("state", .str n.elections.phase.name), ("installed_view", .int n.elections.lastInstalledView),
      ("master", .ofUuid? n.elections.master),
      ("done", .arr (n.done.map fun (v, m) => .arr [.int v, .ident m])), ("alive", .bool n.alive)]))]

/-- Reads a node index of the cluster. -/
def readIndex (c : ElectionCluster) (d : Doc) : Read Nat := do
  let i ← Doc.u64 d
  if i < c.nodes.size then pure i else Read.reject

/-- Reads a node state name. -/
def readStateName (d : Doc) : Read NodeState := do
  Read.ofOption (NodeState.ofName? (← d.toStr))

/-- The states gossip gives the nodes, in node order; a value that is not a list gives none. -/
def readStates (d : Doc) : Read (List NodeState) :=
  match d.get? "states" with
  | some (.arr xs) => xs.mapM readStateName
  | _ => pure []

/-- A cluster with what a step shows of it. -/
def shown (c : ElectionCluster) : ElectionCluster × Doc := (c, clusterView c)

/-- Starts elections on the listed nodes in order, up to the first entry that is not a node's
index: the nodes before it stay started and the step is refused. -/
def startEach (c : ElectionCluster) : List Doc → Read (ElectionCluster × Doc)
  | [] => pure (shown c)
  | d :: ds => do
    match ← Read.attempt (readIndex c d) with
    | some i => startEach (c.start [i]) ds
    | none => pure (c, Doc.badInput)

/-- One step of a cluster session. -/
def clusterStep (c : ElectionCluster) (d : Doc) : Read (ElectionCluster × Doc) := do
  match ← d.req "op" Doc.toStr with
  | "gossip" => do pure (shown (c.gossip (← readStates d)))
  | "start" => do startEach c (← d.req "nodes" Doc.items)
  | "kill" => do pure (shown (c.setAlive (← d.req "node" (readIndex c)) false))
  | "revive" => do pure (shown (c.setAlive (← d.req "node" (readIndex c)) true))
  | "deliver" => do
    pure (shown (c.deliver (← d.reqD "limit" Doc.u64 100000) (← d.reqD "picks" (Doc.toList Doc.u64) [])))
  | "drop" => do pure (shown (c.drop (← d.reqD "count" Doc.u64 1)))
  | "timeouts" => pure (shown c.fireTimeouts)
  | "proofs" => pure (shown c.proofs)
  | "set_progress" => do
    pure (shown (c.setProgress (← d.req "node" (readIndex c)) (← d.req "progress" readProgress)))
  | _ => Read.reject

/-- Reads a cluster node: a node's identity and an optional progress. -/
def readClusterNode (n : Nat) (d : Doc) : Read ClusterNode := do
  let node ← readNodeInfo d
  let p ← d.reqD "progress" readProgress { commit := 0 }
  let cfg : ElectionConfig := { node, clusterSize := n }
  pure { cfg, progress := p, elections := Elections.init cfg p wallClock }

/-- `elections_cluster`: a cluster of elections services, step by step. -/
def electionClusterSession (d : Doc) (L : Labels) : Except ReadFailure Doc := do
  let ((c, steps), L) ← (do
    let items ← d.req "nodes" Doc.items
    let n ← d.reqD "cluster_size" Doc.u64 items.length
    let nodes ← items.mapM (readClusterNode n)
    let steps ← readSteps d
    pure (({ nodes := nodes.toArray } : ElectionCluster), steps) : Read _).setup L
  let (answers, _, c') := runSteps clusterStep steps L c
  pure (.obj [("steps", .arr answers), ("dropped", .nat c'.dropped)])

end Api

end EventStore
