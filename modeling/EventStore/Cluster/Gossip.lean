import EventStore.Cluster.Node
import EventStore.Bus.Message

/-!
# Membership gossip

Each round a node sends what it knows of the cluster to its seeds and to every member it heard
of, and publishes that view. Member snapshots from gossip are merged by their time stamps: a
snapshot replaces the one known for its member only when it is newer, and a node that restarted
under a new identifier at the same internal endpoint replaces its older self. A node never takes
a snapshot of itself from gossip.

Liveness is judged from direct contact only: a member is alive while gossip came from its
internal endpoint less than the timeout ago.

Times are milliseconds on one clock; members are kept ordered by instance identifier.
-/

namespace EventStore

/-- The gossip service's state. -/
structure GossipService where
  info : NodeInfo
  progress : Progress
  seeds : List SocketAddr
  /-- How long after the last direct contact a member counts as dead. -/
  timeoutMs : Nat
  state : NodeState := .initializing
  /-- Other members as last heard of, by instance identifier. -/
  members : List Member := []
  /-- When gossip last came directly from each internal endpoint. -/
  lastContact : List (SocketAddr × Nat) := []
  /-- Whether a round is due before the interval is up. -/
  roundRequested : Bool := false
  deriving Inhabited

namespace GossipService

/-- Inserts a member, keeping the list ordered by instance identifier. -/
def insertMember (m : Member) : List Member → List Member
  | [] => [m]
  | x :: xs => if m.instanceId.value < x.instanceId.value then m :: x :: xs else x :: insertMember m xs

/-- Merges one member snapshot heard in gossip. -/
def merge (g : GossipService) (m : Member) : GossipService :=
  if m.instanceId = g.info.instanceId ∨ m.internalTcp = g.info.internalTcp then g
  else
    let isNewer := match g.members.find? (·.instanceId = m.instanceId) with
      | some known => known.timeStamp < m.timeStamp
      | none => true
    if !isNewer then g
    else
      let kept := g.members.filter fun k =>
        !(k.internalTcp = m.internalTcp ∧ k.instanceId ≠ m.instanceId ∧ k.timeStamp < m.timeStamp) &&
          k.instanceId != m.instanceId
      { g with members := insertMember m kept }

/-- Takes in gossip received from `sender` at `now`. -/
def received (g : GossipService) (sender : SocketAddr) (members : List Member) (now : Nat) :
    GossipService :=
  let g := { g with lastContact := (sender, now) :: g.lastContact.filter (·.1 != sender) }
  members.foldl merge g

/-- Handles a message at `now`. -/
def handle (g : GossipService) (msg : Message) (now : Nat) : GossipService :=
  match msg with
  | .gossip (.gossipReceived sender members) => g.received sender members now
  | .election (.electionsDone _ _) => { g with roundRequested := true }
  | .system .systemInit => g
  | .system m =>
    match m.newState? with
    | some s => { g with state := s }
    | none => g
  | _ => g

/-- Whether gossip came directly from an endpoint less than the timeout before `now`. -/
def isAlive (g : GossipService) (endpoint : SocketAddr) (now : Nat) : Bool :=
  match g.lastContact.lookup endpoint with
  | some last => now - last < g.timeoutMs
  | none => false

/-- The view of the cluster at `now`: this node first, alive, then the other members. -/
def cluster (g : GossipService) (now : Nat) (wallTime : Int) : List Member :=
  g.info.memberInfo g.state true g.progress wallTime ::
    g.members.map fun m => { m with isAlive := g.isAlive m.internalTcp now }

/-- Where a round sends gossip: the seeds and every known member's internal endpoint, but not
this node, each once, in address order. -/
def targets (g : GossipService) : List SocketAddr :=
  let all := (g.seeds ++ g.members.map (·.internalTcp)).filter (· != g.info.internalTcp)
  (all.mergeSort fun a b => compare a b != .gt).eraseDups

/-- One round at `now`: the view sent to every target, then published. -/
def tick (g : GossipService) (now : Nat) (wallTime : Int) : List Message × GossipService :=
  let view := g.cluster now wallTime
  let sends := g.targets.map fun dest => Message.peerSend dest (.gossip g.info.internalTcp view)
  (sends ++ [.gossip (.gossipUpdated view)], { g with roundRequested := false })

end GossipService

end EventStore
