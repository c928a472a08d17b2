import EventStore.Doc.Peer
import EventStore.Bus.Message

/-!
# Document forms of bus messages

A bus message is written `{"t": "Group.Name", fields…}`. Messages that carry a peer message's
fields write them as the peer message does; `Replication.ReplicaSubscriptionRequest` nests its
request as a whole peer message, the acknowledgements nest theirs without a kind.
-/

namespace EventStore

namespace Envelope

/-- The printed form. -/
def toDoc : Envelope → Doc
  | client k => .obj [("client", .nat k)]
  | peer c id => .obj [("peer_conn", .nat c), ("internal_corr_id", .ident id)]

/-- Reads an envelope: a client number, `{"client": k}` or a peer connection; an object naming
both a client and a peer connection goes to the client. -/
def read (d : Doc) : Read Envelope :=
  match d with
  | .int _ => do pure (client (← Doc.u64 d))
  | _ =>
    if d.has "client" then do pure (client (← d.req "client" Doc.u64))
    else do pure (peer (← d.req "peer_conn" Doc.u64) (← d.req "internal_corr_id" Doc.toUuid))

end Envelope

namespace ClientResponse

/-- The printed form. -/
def toDoc : ClientResponse → Doc
  | writeCompleted r first last =>
    .obj [("t", .str "WriteCompleted"), ("result", .str r.name), ("first_position", .int first),
      ("last_position", .int last)]
  | notHandled .notReady => .obj [("t", .str "NotHandled"), ("reason", .str "NotReady")]
  | notHandled (.notMaster e) =>
    .obj [("t", .str "NotHandled"), ("reason", .str "NotMaster"), ("endpoints", e.toDoc)]

end ClientResponse

namespace Message

/-- Fields of a state change that names a master. -/
def becomeFields (cid : Uuid) (m : Member) : List (String × Doc) :=
  [("correlation_id", .ident cid), ("master", m.toDoc)]

/-- The kind name and fields of a message. -/
def parts (form : BulkForm) : Message → String × List (String × Doc)
  | system m =>
    match m with
    | .systemInit => ("System.SystemInit", [])
    | .systemStart => ("System.SystemStart", [])
    | .serviceInitialized s => ("System.ServiceInitialized", [("service", .str s)])
    | .requestShutdown => ("System.RequestShutdown", [])
    | .serviceShutdown s => ("System.ServiceShutdown", [("service", .str s)])
    | .shutdownTimeout => ("System.ShutdownTimeout", [])
    | .becomeUnknown c => ("System.BecomeUnknown", [("correlation_id", .ident c)])
    | .becomePreReplica c mm => ("System.BecomePreReplica", becomeFields c mm)
    | .becomeCatchingUp c mm => ("System.BecomeCatchingUp", becomeFields c mm)
    | .becomeClone c mm => ("System.BecomeClone", becomeFields c mm)
    | .becomeSlave c mm => ("System.BecomeSlave", becomeFields c mm)
    | .becomePreMaster c => ("System.BecomePreMaster", [("correlation_id", .ident c)])
    | .becomeMaster c => ("System.BecomeMaster", [("correlation_id", .ident c)])
    | .becomeShuttingDown c e =>
      ("System.BecomeShuttingDown", [("correlation_id", .ident c), ("exit_process", .bool e)])
    | .becomeShutdown c => ("System.BecomeShutdown", [("correlation_id", .ident c)])
    | .waitForChaserToCatchUp c t =>
      ("System.WaitForChaserToCatchUp", [("correlation_id", .ident c), ("total_time_ms", .nat t)])
    | .chaserCaughtUp c => ("System.ChaserCaughtUp", [("correlation_id", .ident c)])
    | .vnodeConnectionEstablished a =>
      ("System.VNodeConnectionEstablished", [("endpoint", .ofAddr a)])
    | .vnodeConnectionLost a => ("System.VNodeConnectionLost", [("endpoint", .ofAddr a)])
    | .noQuorum => ("System.NoQuorum", [])
    | .writeEpoch => ("System.WriteEpoch", [])
  | election m =>
    match m with
    | .startElections => ("Election.StartElections", [])
    | .electionsTimedOut v => ("Election.ElectionsTimedOut", [("view", .int v)])
    | .sendViewChangeProof => ("Election.SendViewChangeProof", [])
    | .viewChange p => ("Election.ViewChange", (PeerMessage.viewChange p).fields form)
    | .viewChangeProof p =>
      ("Election.ViewChangeProof", (PeerMessage.viewChangeProof p).fields form)
    | .prepare p => ("Election.Prepare", (PeerMessage.prepare p).fields form)
    | .prepareOk p => ("Election.PrepareOk", (PeerMessage.prepareOk p).fields form)
    | .proposal p => ("Election.Proposal", (PeerMessage.proposal p).fields form)
    | .accept p => ("Election.Accept", (PeerMessage.accept p).fields form)
    | .electionsDone v mm => ("Election.ElectionsDone", [("view", .int v), ("master", mm.toDoc)])
  | gossip m =>
    match m with
    | .gossipReceived s ms =>
      ("Gossip.GossipReceived", [("sender_internal", .ofAddr s), ("members", .arr (ms.map Member.toDoc))])
    | .gossipUpdated ms => ("Gossip.GossipUpdated", [("members", .arr (ms.map Member.toDoc))])
  | replication m =>
    match m with
    | .reconnectToMaster c mm =>
      ("Replication.ReconnectToMaster", [("state_correlation_id", .ident c), ("master", mm.toDoc)])
    | .subscribeToMaster c mid sid =>
      ("Replication.SubscribeToMaster", [("state_correlation_id", .ident c), ("master_id", .ident mid),
        ("subscription_id", .ident sid)])
    | .replicaSubscribed p =>
      ("Replication.ReplicaSubscribed", (PeerMessage.replicaSubscribed p).fields form)
    | .replicaSubscriptionRetry p =>
      ("Replication.ReplicaSubscriptionRetry", (PeerMessage.replicaSubscriptionRetry p).fields form)
    | .createChunk p => ("Replication.CreateChunk", (PeerMessage.createChunk p).fields form)
    | .rawChunkBulk p => ("Replication.RawChunkBulk", (PeerMessage.rawChunkBulk p).fields form)
    | .dataChunkBulk p => ("Replication.DataChunkBulk", (PeerMessage.dataChunkBulk p).fields form)
    | .ackLogPosition p => ("Replication.AckLogPosition", (PeerMessage.ackLogPosition p).fields form)
    | .slaveAssignment p => ("Replication.SlaveAssignment", (PeerMessage.slaveAssignment p).fields form)
    | .cloneAssignment p => ("Replication.CloneAssignment", (PeerMessage.cloneAssignment p).fields form)
    | .heartbeatTick g => ("Replication.HeartbeatTick", [("generation", .nat g)])
    | .replicaSubscriptionRequest c r =>
      ("Replication.ReplicaSubscriptionRequest",
        [("connection", .nat c), ("request", PeerMessage.toDocAs form "" (.subscribeReplica r))])
    | .replicaLogPositionAck c a =>
      ("Replication.ReplicaLogPositionAck",
        [("connection_id", .nat c), ("ack", .obj ((PeerMessage.ackLogPosition a).fields form))])
    | .replicaWriteAck c a =>
      ("Replication.ReplicaWriteAck",
        [("connection_id", .nat c), ("ack", .obj ((PeerMessage.writeAck a).fields form))])
    | .replicaConnectionClosed c => ("Replication.ReplicaConnectionClosed", [("connection_id", .nat c)])
  | client m =>
    match m with
    | .writeEvents c rm evs env =>
      ("Client.WriteEvents", [("correlation_id", .ident c), ("require_master", .bool rm),
        ("events", .arr (evs.map Doc.ofBytes)), ("envelope", env.toDoc)])
    | .tcpForwardMessage p => ("Client.TcpForwardMessage", (PeerMessage.forwardWrite p).fields form)
    | .forwardedWriteCompleted p =>
      ("Client.ForwardedWriteCompleted", (PeerMessage.forwardWriteCompleted p).fields form)
    | .forwardingTimeout id => ("Client.ForwardingTimeout", [("internal_corr_id", .ident id)])
  | storage m =>
    match m with
    | .writePending c env first last =>
      ("Storage.WritePending", [("correlation_id", .ident c), ("envelope", env.toDoc),
        ("first_position", .int first), ("end_position", .int last)])
    | .flushed p => ("Storage.Flushed", [("position", .int p)])
    | .commitAck s p => ("Storage.CommitAck", [("subscription_id", .ident s), ("log_position", .int p)])
  | schedule d msg =>
    ("Timer.Schedule", [("delay_ms", .nat d), ("message", .obj (("t", .str (parts form msg).1) ::
      (parts form msg).2))])
  | peerSend dest msg => ("Peer.Send", [("to", .ofAddr dest), ("message", PeerMessage.toDocAs form "" msg)])

/-- The printed form of a message. -/
def toDocAs (form : BulkForm) (m : Message) : Doc :=
  let (kind, fields) := m.parts form
  .obj (("t", .str kind) :: fields)

/-- The printed form of a message, bulk data as bytes. -/
def toDoc (m : Message) : Doc := toDocAs .bytes m

/-- Reads a state change that names a master. -/
def readBecome (d : Doc) (mk : Uuid → Member → SystemMsg) : Read Message := do
  pure (system (mk (← d.req "correlation_id" Doc.toUuid) (← d.req "master" Member.read)))

/-- Reads a correlation identifier. -/
def readCid (d : Doc) : Read Uuid := d.req "correlation_id" Doc.toUuid

/-- Reads a system message by name. -/
def readSystem (name : String) (d : Doc) : Read Message :=
  match name with
  | "SystemInit" => pure (system .systemInit)
  | "SystemStart" => pure (system .systemStart)
  | "ServiceInitialized" => do pure (system (.serviceInitialized (← d.req "service" Doc.toStr)))
  | "RequestShutdown" => pure (system .requestShutdown)
  | "ServiceShutdown" => do pure (system (.serviceShutdown (← d.req "service" Doc.toStr)))
  | "ShutdownTimeout" => pure (system .shutdownTimeout)
  | "BecomeUnknown" => do pure (system (.becomeUnknown (← readCid d)))
  | "BecomePreReplica" => readBecome d .becomePreReplica
  | "BecomeCatchingUp" => readBecome d .becomeCatchingUp
  | "BecomeClone" => readBecome d .becomeClone
  | "BecomeSlave" => readBecome d .becomeSlave
  | "BecomePreMaster" => do pure (system (.becomePreMaster (← readCid d)))
  | "BecomeMaster" => do pure (system (.becomeMaster (← readCid d)))
  | "BecomeShuttingDown" => do
    pure (system (.becomeShuttingDown (← readCid d) (← d.reqD "exit_process" Doc.toBool false)))
  | "BecomeShutdown" => do pure (system (.becomeShutdown (← readCid d)))
  | "WaitForChaserToCatchUp" => do
    pure (system (.waitForChaserToCatchUp (← readCid d) (← d.reqD "total_time_ms" Doc.u64 0)))
  | "ChaserCaughtUp" => do pure (system (.chaserCaughtUp (← readCid d)))
  | "VNodeConnectionEstablished" => do
    pure (system (.vnodeConnectionEstablished (← d.req "endpoint" Doc.toAddr)))
  | "VNodeConnectionLost" => do pure (system (.vnodeConnectionLost (← d.req "endpoint" Doc.toAddr)))
  | "NoQuorum" => pure (system .noQuorum)
  | "WriteEpoch" => pure (system .writeEpoch)
  | _ => Read.reject

/-- Reads an election message by name. -/
def readElection (name : String) (d : Doc) : Read Message :=
  match name with
  | "StartElections" => pure (election .startElections)
  | "ElectionsTimedOut" => do pure (election (.electionsTimedOut (← d.req "view" Doc.i32)))
  | "SendViewChangeProof" => pure (election .sendViewChangeProof)
  | "ElectionsDone" => do
    pure (election (.electionsDone (← d.req "view" Doc.i32) (← d.req "master" Member.read)))
  | "ViewChange" | "ViewChangeProof" | "Prepare" | "PrepareOk" | "Proposal" | "Accept" => do
    match ElectionMsg.ofPeer? (← PeerMessage.readAs name d) with
    | some m => pure (election m)
    | none => Read.reject
  | _ => Read.reject

/-- Reads a replication message by name. -/
def readReplication (name : String) (d : Doc) : Read Message := do
  let r : ReplicationMsg ← match name with
    | "ReconnectToMaster" => do
      pure (.reconnectToMaster (← d.req "state_correlation_id" Doc.toUuid) (← d.req "master" Member.read))
    | "SubscribeToMaster" => do
      pure (.subscribeToMaster (← d.req "state_correlation_id" Doc.toUuid) (← d.req "master_id" Doc.toUuid)
        (← d.req "subscription_id" Doc.toUuid))
    | "HeartbeatTick" => do pure (.heartbeatTick (← d.req "generation" Doc.u64))
    | "ReplicaSubscriptionRequest" => do
      pure (.replicaSubscriptionRequest (← d.req "connection" Doc.u64)
        (← d.req "request" PeerMessage.readSubscribe))
    | "ReplicaLogPositionAck" => do
      pure (.replicaLogPositionAck (← d.req "connection_id" Doc.u64) (← d.req "ack" PeerMessage.readAck))
    | "ReplicaWriteAck" => do
      pure (.replicaWriteAck (← d.req "connection_id" Doc.u64) (← d.req "ack" PeerMessage.readWriteAck))
    | "ReplicaConnectionClosed" => do pure (.replicaConnectionClosed (← d.req "connection_id" Doc.u64))
    | "ReplicaSubscribed" | "ReplicaSubscriptionRetry" | "CreateChunk" | "RawChunkBulk"
    | "DataChunkBulk" | "AckLogPosition" | "SlaveAssignment" | "CloneAssignment" => do
      match ← PeerMessage.readAs name d with
      | .replicaSubscribed m => pure (.replicaSubscribed m)
      | .replicaSubscriptionRetry m => pure (.replicaSubscriptionRetry m)
      | .createChunk m => pure (.createChunk m)
      | .rawChunkBulk m => pure (.rawChunkBulk m)
      | .dataChunkBulk m => pure (.dataChunkBulk m)
      | .ackLogPosition m => pure (.ackLogPosition m)
      | .slaveAssignment m => pure (.slaveAssignment m)
      | .cloneAssignment m => pure (.cloneAssignment m)
      | _ => Read.reject
    | _ => Read.reject
  pure (replication r)

/-- Reads a client message by name. -/
def readClient (name : String) (d : Doc) : Read Message :=
  match name with
  | "WriteEvents" => do
    pure (client (.writeEvents (← d.reqD "correlation_id" Doc.toUuid .nil)
      (← d.reqD "require_master" Doc.toBool false) (← d.reqD "events" (Doc.toList Doc.toBytes) [])
      (← d.req "envelope" Envelope.read)))
  | "TcpForwardMessage" => do pure (client (.tcpForwardMessage (← PeerMessage.readForwardWrite d)))
  | "ForwardedWriteCompleted" => do
    pure (client (.forwardedWriteCompleted (← PeerMessage.readForwardWriteCompleted d)))
  | "ForwardingTimeout" => do pure (client (.forwardingTimeout (← d.req "internal_corr_id" Doc.toUuid)))
  | _ => Read.reject

/-- Reads a storage message by name. -/
def readStorage (name : String) (d : Doc) : Read Message :=
  match name with
  | "WritePending" => do
    pure (storage (.writePending (← d.reqD "correlation_id" Doc.toUuid .nil)
      (← d.req "envelope" Envelope.read) (← d.req "first_position" Doc.i64)
      (← d.req "end_position" Doc.i64)))
  | "Flushed" => do pure (storage (.flushed (← d.req "position" Doc.i64)))
  | "CommitAck" => do
    pure (storage (.commitAck (← d.req "subscription_id" Doc.toUuid) (← d.req "log_position" Doc.i64)))
  | _ => Read.reject

/-- Reads a bus message `{"t": "Group.Name", fields…}`, with fuel for nested schedules. -/
def readWith : Nat → Doc → Read Message
  | 0, _ => Read.reject
  | fuel + 1, d => do
    let kind ← d.kind
    match kind.splitOn "." with
    | ["System", name] => readSystem name d
    | ["Election", name] => readElection name d
    | ["Gossip", "GossipReceived"] => do
      pure (gossip (.gossipReceived (← d.req "sender_internal" Doc.toAddr)
        (← d.req "members" (Doc.toList Member.read))))
    | ["Gossip", "GossipUpdated"] => do
      pure (gossip (.gossipUpdated (← d.req "members" (Doc.toList Member.read))))
    | ["Replication", name] => readReplication name d
    | ["Client", name] => readClient name d
    | ["Storage", name] => readStorage name d
    | ["Timer", "Schedule"] => do
      pure (schedule (← d.reqD "delay_ms" Doc.u64 0) (← d.req "message" (readWith fuel)))
    | ["Peer", "Send"] => do
      pure (peerSend (← d.req "to" Doc.toAddr) (← d.req "message" PeerMessage.read))
    | _ => Read.reject

/-- Reads a bus message. Input documents nest at most 128 deep, so 128 levels of schedules are
as many as a message can have. -/
def read (d : Doc) : Read Message := readWith 128 d

end Message

end EventStore
