import EventStore.Cluster.NodeState
import EventStore.Net.Addr

/-!
# Members

A member is what gossip says about one node at one moment: who it is, when the snapshot was
taken, its state and liveness, where to reach it, and how far its log has come. The master's
external endpoints are where a client is sent when it reaches another node.

The binary form lists the sixteen fields in order, big-endian, with addresses as in
`SocketAddr.encode`.
-/

namespace EventStore

/-- Where clients reach a node. -/
structure Endpoints where
  externalTcp : SocketAddr
  externalSecureTcp : Option SocketAddr
  externalHttp : SocketAddr
  deriving DecidableEq, Repr, Inhabited

/-- A snapshot of one node, as gossip exchanges it. -/
structure Member where
  instanceId : Uuid
  timeStamp : Int
  state : NodeState
  isAlive : Bool
  internalTcp : SocketAddr
  internalSecureTcp : Option SocketAddr
  externalTcp : SocketAddr
  externalSecureTcp : Option SocketAddr
  externalHttp : SocketAddr
  lastCommitPosition : Int
  writerCheckpoint : Int
  chaserCheckpoint : Int
  epochPosition : Int
  epochNumber : Int
  epochId : Uuid
  nodePriority : Int
  deriving DecidableEq, Repr, Inhabited

namespace Member

/-- Whether the member is the master. -/
def isMaster (m : Member) : Bool := m.state == .master

/-- The client endpoints of the member. -/
def endpoints (m : Member) : Endpoints := ⟨m.externalTcp, m.externalSecureTcp, m.externalHttp⟩

/-- The binary form. -/
def encode (m : Member) : Bytes :=
  Bytes.ofUuid m.instanceId ++ Bytes.ofInt 8 m.timeStamp ++ [UInt8.ofNat m.state.toNat] ++
    [if m.isAlive then 1 else 0] ++ m.internalTcp.encode ++
    SocketAddr.encodeOpt m.internalSecureTcp ++ m.externalTcp.encode ++
    SocketAddr.encodeOpt m.externalSecureTcp ++ m.externalHttp.encode ++
    Bytes.ofInt 8 m.lastCommitPosition ++ Bytes.ofInt 8 m.writerCheckpoint ++
    Bytes.ofInt 8 m.chaserCheckpoint ++ Bytes.ofInt 8 m.epochPosition ++
    Bytes.ofInt 4 m.epochNumber ++ Bytes.ofUuid m.epochId ++ Bytes.ofInt 4 m.nodePriority

/-- Reads the binary form. -/
def decode : Decoder Member := do
  let instanceId ← Decoder.uuid
  let timeStamp ← Decoder.i64
  let state ← NodeState.decode
  let isAlive ← Decoder.flag
  let internalTcp ← SocketAddr.decode
  let internalSecureTcp ← SocketAddr.decodeOpt
  let externalTcp ← SocketAddr.decode
  let externalSecureTcp ← SocketAddr.decodeOpt
  let externalHttp ← SocketAddr.decode
  let lastCommitPosition ← Decoder.i64
  let writerCheckpoint ← Decoder.i64
  let chaserCheckpoint ← Decoder.i64
  let epochPosition ← Decoder.i64
  let epochNumber ← Decoder.i32
  let epochId ← Decoder.uuid
  let nodePriority ← Decoder.i32
  pure ⟨instanceId, timeStamp, state, isAlive, internalTcp, internalSecureTcp, externalTcp,
    externalSecureTcp, externalHttp, lastCommitPosition, writerCheckpoint, chaserCheckpoint,
    epochPosition, epochNumber, epochId, nodePriority⟩

end Member

end EventStore
