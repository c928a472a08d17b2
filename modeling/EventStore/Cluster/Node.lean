import EventStore.Cluster.Member
import EventStore.Log.Epoch

/-!
# A node's identity and progress

A node is known by its instance identifier, its endpoints and its priority. Elections and gossip
also read how far the node's log has come: the last epoch, the writer and chaser checkpoints, and
the last commit position. A member snapshot of the node combines the two with a state, a liveness
flag and the time the snapshot was taken.
-/

namespace EventStore

/-- Endpoints and identity of a node. -/
structure NodeInfo where
  instanceId : Uuid
  internalTcp : SocketAddr
  internalSecureTcp : Option SocketAddr
  externalTcp : SocketAddr
  externalSecureTcp : Option SocketAddr
  externalHttp : SocketAddr
  nodePriority : Int
  deriving DecidableEq, Repr, Inhabited

/-- How far a node's log has come. -/
structure Progress where
  lastEpoch : Option Epoch := none
  writer : Int := 0
  chaser : Int := 0
  commit : Int := -1
  deriving DecidableEq, Repr, Inhabited

namespace NodeInfo

/-- A snapshot of the node taken at `now`. -/
def memberInfo (n : NodeInfo) (state : NodeState) (alive : Bool) (p : Progress) (now : Int) :
    Member :=
  { instanceId := n.instanceId, timeStamp := now, state, isAlive := alive,
    internalTcp := n.internalTcp, internalSecureTcp := n.internalSecureTcp,
    externalTcp := n.externalTcp, externalSecureTcp := n.externalSecureTcp,
    externalHttp := n.externalHttp, lastCommitPosition := p.commit,
    writerCheckpoint := p.writer, chaserCheckpoint := p.chaser,
    epochPosition := (p.lastEpoch.map (·.epochPosition)).getD (-1),
    epochNumber := (p.lastEpoch.map (·.epochNumber)).getD (-1),
    epochId := (p.lastEpoch.map (·.epochId)).getD .nil,
    nodePriority := n.nodePriority }

end NodeInfo

end EventStore
