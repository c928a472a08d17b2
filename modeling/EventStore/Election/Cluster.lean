import EventStore.Election.Service

/-!
# A cluster of election services

Several elections services joined by a network that holds the peer messages in flight. The
network delivers one in-flight message at a time, in an order chosen from outside, to the node
listening on its address; what the node publishes in return is put in flight (peer messages),
kept as the node's pending timers, or recorded as an election result. A dead node receives
nothing. Messages can be dropped from the network, and pending election timeouts fired.
-/

namespace EventStore

/-- One node of the cluster. -/
structure ClusterNode where
  cfg : ElectionConfig
  progress : Progress
  elections : Elections
  alive : Bool := true
  /-- Messages the node scheduled and that have not fired. -/
  timers : List Message := []
  /-- The elections the node saw done: view and master. -/
  done : List (Int × Uuid) := []
  deriving Inhabited

/-- The cluster and its network. -/
structure ElectionCluster where
  nodes : Array ClusterNode
  /-- Peer messages in flight, with the address they go to, oldest first. -/
  inFlight : List (SocketAddr × PeerMessage) := []
  /-- Published messages of any other kind, which the cluster does not carry. -/
  dropped : Nat := 0
  deriving Inhabited

namespace ElectionCluster

/-- Files what node `i` published: peer messages go in flight, schedules become its timers,
results are recorded. -/
def absorb (c : ElectionCluster) (i : Nat) (out : List Message) : ElectionCluster :=
  out.foldl (fun c m =>
    match m with
    | .peerSend dest pm => { c with inFlight := c.inFlight ++ [(dest, pm)] }
    | .schedule _ inner => { c with nodes := c.nodes.modify i fun n => { n with timers := n.timers ++ [inner] } }
    | .election (.electionsDone v master) =>
      { c with nodes := c.nodes.modify i fun n => { n with done := n.done ++ [(v, master.instanceId)] } }
    | _ => { c with dropped := c.dropped + 1 }) c

/-- Hands a message to node `i`, alive or not. -/
def handleAnyway (c : ElectionCluster) (i : Nat) (m : Message) : ElectionCluster :=
  match c.nodes[i]? with
  | some n =>
    let (s', out) := Elections.handle n.cfg n.progress n.elections m
    absorb { c with nodes := c.nodes.set! i { n with elections := s' } } i out
  | none => c

/-- Hands a message to node `i`, if it is alive. -/
def handleAt (c : ElectionCluster) (i : Nat) (m : Message) : ElectionCluster :=
  if c.nodes[i]?.any (·.alive) then handleAnyway c i m else c

/-- The node listening on an address. -/
def nodeAt (c : ElectionCluster) (a : SocketAddr) : Option Nat :=
  c.nodes.toList.findIdx? (·.cfg.node.internalTcp == a)

/-- The member snapshot gossip gives of node `n` in a state. -/
def memberOf (n : ClusterNode) (state : NodeState) : Member :=
  n.cfg.node.memberInfo state n.alive n.progress 0

/-- Every alive node learns the whole cluster from gossip, node `i` in state `states[i]`
(`unknown` past the end of the list). -/
def gossip (c : ElectionCluster) (states : List NodeState) : ElectionCluster :=
  let members := c.nodes.toList.zipIdx.map fun (n, i) => memberOf n (states[i]?.getD .unknown)
  (List.range c.nodes.size).foldl (fun c i => handleAt c i (.gossip (.gossipUpdated members))) c

/-- Starts elections at the given nodes, in order; a dead node is started too, as the order comes
from outside the network. -/
def start (c : ElectionCluster) (idx : List Nat) : ElectionCluster :=
  idx.foldl (fun c i => handleAnyway c i (.election .startElections)) c

/-- Delivers in-flight message number `k` (counted modulo their number). -/
def deliverOne (c : ElectionCluster) (k : Nat) : ElectionCluster :=
  if c.inFlight.isEmpty then c
  else
    let j := k % c.inFlight.length
    match c.inFlight[j]? with
    | none => c
    | some (dest, pm) =>
      let c := { c with inFlight := c.inFlight.eraseIdx j }
      match c.nodeAt dest, ElectionMsg.ofPeer? pm with
      | some i, some em => handleAt c i (.election em)
      | some i, none =>
        match pm with
        | .gossip s ms => handleAt c i (.gossip (.gossipReceived s ms))
        | _ => c
      | none, _ => c

/-- Delivers up to `limit` messages, the `k`-th being number `picks[k]` (0 once the picks run out),
while any are in flight. -/
def deliver (c : ElectionCluster) (limit : Nat) (picks : List Nat) : ElectionCluster :=
  go limit 0 c
where
  /-- Deliveries left, deliveries made, cluster. -/
  go : Nat → Nat → ElectionCluster → ElectionCluster
    | 0, _, c => c
    | fuel + 1, k, c =>
      if c.inFlight.isEmpty then c else go fuel (k + 1) (deliverOne c (picks[k]?.getD 0))

/-- Drops the oldest `count` messages in flight. -/
def drop (c : ElectionCluster) (count : Nat) : ElectionCluster :=
  { c with inFlight := c.inFlight.drop count }

/-- Each node in turn takes its pending timers and fires the election timeouts among them. -/
def fireTimeouts (c : ElectionCluster) : ElectionCluster :=
  (List.range c.nodes.size).foldl (fun c i =>
    match c.nodes[i]? with
    | none => c
    | some n =>
      let c := { c with nodes := c.nodes.set! i { n with timers := [] } }
      n.timers.foldl (fun c m =>
        match m with
        | .election (.electionsTimedOut _) => handleAt c i m
        | _ => c) c) c

/-- Every alive node announces its installed view. -/
def proofs (c : ElectionCluster) : ElectionCluster :=
  (List.range c.nodes.size).foldl (fun c i => handleAt c i (.election .sendViewChangeProof)) c

/-- Marks node `i` alive or dead. -/
def setAlive (c : ElectionCluster) (i : Nat) (alive : Bool) : ElectionCluster :=
  { c with nodes := c.nodes.modify i fun n => { n with alive } }

/-- Changes the progress node `i` reads. -/
def setProgress (c : ElectionCluster) (i : Nat) (p : Progress) : ElectionCluster :=
  { c with nodes := c.nodes.modify i fun n => { n with progress := p } }

end ElectionCluster

end EventStore
