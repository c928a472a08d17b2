import EventStore.Api.Traffic
import EventStore.Bench.Node
import EventStore.Store.Scavenging
import EventStore.Store.BulkRead

/-!
# Storage sessions

`storage` drives a bench of storage nodes step by step: the chunk database, the epoch history,
replicated writes, the storage services and replication traffic between nodes. Each step answers
`{"r": result}` or an error, with what the step caused beside it: the messages each node
published (`out`), client replies (`replies`) and peer traffic by connection (`conns`).

A temporary file has a generated name, so wherever one appears (file listings, error texts) it is
written `*.tmp`.
-/

namespace EventStore

namespace Api

/-- The clock the bench's master replication services read. -/
def benchNow : Nat := 0

/-- Writes every word of a text that ends in `.tmp` as `*.tmp`. -/
def maskTemp (s : String) : String :=
  " ".intercalate ((s.splitOn " ").map fun w => if w.endsWith ".tmp" then "*.tmp" else w)

/-- The printed form of a bench fault. -/
def BenchFault.toDoc : BenchFault → Doc
  | .closed => .error "closed"
  | .alreadyOpen => .error "already_open"
  | .writerInService => .error "writer_in_service"
  | .noWriterService => .error "no_writer_service"
  | .noChunk => .error "no_chunk"
  | .panic => panicked
  | .badInput => Doc.badInput
  | .failure kind message => .errorWith kind (maskTemp message)

/-- Whether a node name is non-empty and has only ASCII letters, digits and underscores. -/
def validNodeName (s : String) : Bool :=
  !s.isEmpty && s.all fun c => c.isAlphanum || c = '_'

/-- Reads a node specification. -/
def readNodeSpec (d : Doc) : Read NodeSpec := do
  let name ← d.reqD "name" Doc.toStr "a"
  if !validNodeName name then Read.reject
  let timeout ← d.reqD "commit_timeout_ms" Doc.u64 3600000
  if timeout ≠ 0 ∧ timeout < 60000 then Read.reject
  pure
    { name, instanceId := ← d.req "instance_id" Doc.toUuid,
      chunkSize := ← d.reqD "chunk_size" Doc.u32 4096,
      verifyHashes := ← d.reqD "verify_hashes" Doc.toBool true,
      epochCacheSize := ← d.reqD "epoch_cache_size" Doc.amount 1000,
      clusterSize := ← d.reqD "cluster_size" Doc.amount 1, commitTimeoutMs := timeout,
      openAtStart := ← d.reqD "open" Doc.toBool true,
      memoryCheckpoints := ← d.reqD "memory_checkpoints" Doc.toBool false }

/-- The index of the node a field names. -/
def nodeNamed (b : Bench) (name : String) : Read Nat :=
  Read.ofOption (b.nodes.findIdx? (·.spec.name == name))

/-- The node field `k` names, or the first node when the field holds no name. -/
def nodeField (b : Bench) (d : Doc) (k : String) : Read Nat :=
  match d.get? k with
  | some (.str name) => nodeNamed b name
  | _ => pure 0

/-- The node field `k` names; the field is required. -/
def nodeReq (b : Bench) (d : Doc) (k : String) : Read Nat := do
  nodeNamed b (← d.req k Doc.toStr)

/-- A record span as printed. -/
def spanDoc (start finish : Int) : Doc := .obj [("start", .int start), ("end", .int finish)]

/-- A position as printed. -/
def positionDoc (p : Int) : Doc := .obj [("position", .int p)]

/-- A record read forward as printed. -/
def readForwardDoc : Option (Record × Int) → Doc
  | some (r, next) => .obj [("record", r.toDoc), ("next", .int next)]
  | none => .null

/-- Fails unless the node's chunk writer is its own, not the storage writer service's. -/
def ownWriter (i : Nat) : BenchM Unit := do
  if (← Bench.running i).writerService.isSome then throw .writerInService

/-- A field read ahead of the step's work and needed only now: a refused field refuses the step
here, after the work before it. -/
def needed {α : Type} : Option α → BenchM α
  | some a => pure a
  | none => throw .badInput

/-- The writer position of an open node. -/
def writerPosition (i : Nat) : BenchM Int := do
  pure (← Bench.running i).store.writer.position

/-- Runs a database action on a node that still owns its chunk writer. -/
def onWriter {α : Type} (i : Nat) (m : StoreM DbError α) : BenchM α := do
  ownWriter i
  Bench.onStore i m Bench.dbReport

/-- Records read forward from `position` while they lie before `limit`, `count` at most. -/
def scanFrom (i : Nat) (limit : Int) : Nat → Int → List Doc → BenchM (List Doc × Doc)
  | 0, _, acc => pure (acc.reverse, .null)
  | count + 1, position, acc => do
    let r ← tryCatch (do
        let r ← Bench.onStore i (Store.readForward position) Bench.dbReport
        pure (Except.ok r))
      fun
        | .panic => throw .panic
        | e => pure (Except.error e)
    match r with
    | .error e => pure (acc.reverse, BenchFault.toDoc e)
    | .ok none => pure (acc.reverse, .null)
    | .ok (some (rec, next)) =>
      if limit ≤ rec.logPosition then pure (acc.reverse, .null)
      else
        scanFrom i limit count next
          (.obj [("pos", .int rec.logPosition), ("next", .int next), ("record", rec.toDoc)] :: acc)

/-- A chunk as printed, with its file size and whether its hash checks out. -/
def chunkDoc (c : Chunk) : WorldM DbError Doc := do
  let size := (← World.currentDisk).size c.file
  let hashOk ← tryCatch (do c.verifyHash; pure true) fun
    | .panic => stop
    | .error _ => pure false
  pure (.withOptional
    [("start", .nat c.header.chunkStartNumber), ("end", .nat c.header.chunkEndNumber),
      ("file", .str c.name), ("chunk_id", .ident c.header.chunkId),
      ("completed", .bool c.isCompleted), ("scavenged", .bool c.header.isScavenged),
      ("physical_data_size", .nat c.physicalDataSize), ("file_size", .nat size),
      ("footer", .opt (·.toDoc false) c.footer)]
    [("pos_map", if c.posMap.isEmpty then none
        else some (.arr (c.posMap.map fun e => .arr [.nat e.logPos, .nat e.actualPos]))),
      ("hash_ok", c.footer.map fun _ => .bool hashOk)])

/-- The files of a directory with their lengths, sorted by printed name. -/
def filesDoc (d : Disk) (dir : String) : Doc :=
  let entries := (d.list dir).map fun (name, f) =>
    (if name.endsWith ChunkFileName.tempSuffix then "*.tmp" else name, d.size f)
  let sorted := entries.mergeSort fun a b => a.1 < b.1 || a.1 == b.1
  .arr (sorted.map fun (name, size) => .arr [.str name, .nat size])

/-- A checkpoint's flushed and written values as printed. -/
def checkpointDoc (c : Checkpoint) : Doc := .arr [.int c.read, .int c.readNonFlushed]

/-- The checkpoint a name selects, with how to put it back. -/
def checkpointField? : String →
    Option ((Checkpoints → Checkpoint) × (Checkpoints → Checkpoint → Checkpoints))
  | "writer" => some (Checkpoints.writer, fun cs c => { cs with writer := c })
  | "chaser" => some (Checkpoints.chaser, fun cs c => { cs with chaser := c })
  | "epoch" => some (Checkpoints.epoch, fun cs c => { cs with epoch := c })
  | "truncate" => some (Checkpoints.truncate, fun cs c => { cs with truncate := c })
  | _ => none

/-- Which records a scavenge keeps. -/
def readKeep (d : Doc) : Read (Record → Bool) :=
  match d.get? "keep" with
  | none | some (.str "all") => pure fun _ => true
  | some (.str "none") => pure fun _ => false
  | some v =>
    if v.has "first_byte_in" then do
      let bs ← v.req "first_byte_in" (Doc.toList Doc.u8)
      pure fun
        | .data r => match r.data.head? with
          | some b => bs.contains b.toNat
          | none => false
        | .system _ => true
    else if v.has "positions" then do
      let ps ← v.req "positions" (Doc.toList Doc.i64)
      pure fun r => ps.contains r.logPosition
    else Read.reject

/-- One bulk read as printed, or the failure it met. -/
def bulkReadDoc (raw : Bool) (r : BulkRead) : Doc :=
  .withOptional
    [("old_position", .nat r.oldPosition), ("bytes_read", .nat r.data.size),
      ("is_eof", .bool r.isEof)]
    [("data", if raw then none else some (Frames.view (Bytes.ofByteArray r.data)))]

/-- Bulk reads of a chunk, each answered on its own. -/
def bulkReads (i : Nat) (c : Chunk) (raw : Bool) :
    List Nat → BulkReader → List Doc → BenchM (List Doc)
  | [], _, acc => pure acc.reverse
  | len :: rest, reader, acc => do
    let step : WorldM DbError (BulkRead × BulkReader) :=
      if raw then reader.readRaw len else reader.readData c len
    let r ← tryCatch (do
        let r ← Bench.onStore i (Store.onWorld step) Bench.dbReport
        pure (Except.ok r))
      fun
        | .panic => throw .panic
        | e => pure (Except.error e)
    match r with
    | .ok (read, reader') => bulkReads i c raw rest reader' (bulkReadDoc raw read :: acc)
    | .error e => bulkReads i c raw rest reader (BenchFault.toDoc e :: acc)

/-- The kind name of a bus message. -/
def Message.kindName (m : Message) : String := (m.parts .bytes).1

/-- The bus message a storage writer service takes for a peer message from a master, if it
takes it. -/
def fromMaster? : PeerMessage → Option Message
  | .replicaSubscribed m => some (.replication (.replicaSubscribed m))
  | .createChunk m => some (.replication (.createChunk m))
  | .rawChunkBulk m => some (.replication (.rawChunkBulk m))
  | .dataChunkBulk m => some (.replication (.dataChunkBulk m))
  | _ => none

/-- The messages still to deliver on a connection. -/
def pendingOn (b : Bench) (conn : Nat) : List PeerMessage :=
  ((b.undelivered.find? (·.1 == conn)).map (·.2)).getD []

/-- Replaces the messages still to deliver on a connection. -/
def setPending (conn : Nat) (msgs : List PeerMessage) : BenchM Unit :=
  modify fun b =>
    { b with undelivered := (b.undelivered.filter (·.1 != conn)) ++
        (if msgs.isEmpty then [] else [(conn, msgs)]) }

/-- Delivers up to `limit` messages of a connection to a node's storage writer service. -/
def deliverTo (i conn : Nat) : Nat → List Doc → BenchM (List Doc)
  | 0, acc => pure acc.reverse
  | limit + 1, acc => do
    match pendingOn (← get) conn with
    | [] => pure acc.reverse
    | pm :: rest =>
      setPending conn rest
      match fromMaster? pm with
      | some msg =>
        let r ← Bench.onWriterService i (StorageWriter.handle msg)
        deliverTo i conn limit (.obj [("t", .str pm.kindName), ("r", .bool r)] :: acc)
      | none =>
        deliverTo i conn limit (.obj [("t", .str pm.kindName), ("skipped", .bool true)] :: acc)

/-- Hands a node's acknowledgements to a master on connection `conn`. -/
def deliverAcks (dest conn : Nat) (writeAcks : Bool) : List Message → List Doc → BenchM (List Doc)
  | [], acc => pure acc.reverse
  | m :: rest, acc => do
    match m with
    | .replication (.ackLogPosition a) =>
      let r ← Bench.onMaster dest (MasterReplication.handle benchNow
        (.replication (.replicaLogPositionAck conn a)))
      deliverAcks dest conn writeAcks rest (.obj [("t", .str "ReplicaLogPositionAck"), ("r", .bool r)] :: acc)
    | .storage (.commitAck sub pos) =>
      if writeAcks then
        let r ← Bench.onMaster dest (MasterReplication.handle benchNow
          (.replication (.replicaWriteAck conn ⟨sub, pos⟩)))
        deliverAcks dest conn writeAcks rest (.obj [("t", .str "ReplicaWriteAck"), ("r", .bool r)] :: acc)
      else deliverAcks dest conn writeAcks rest acc
    | _ => deliverAcks dest conn writeAcks rest acc

/-- Hands a node's storage reports to its master replication service. -/
def routeAll (i : Nat) : List Message → List Doc → BenchM (List Doc)
  | [], acc => pure acc.reverse
  | m :: rest, acc => do
    let r ← Bench.onMaster i (MasterReplication.handle benchNow m)
    routeAll i rest (.obj [("t", .str (Message.kindName m)), ("r", .bool r)] :: acc)

/-- The name of a file in a node's directory; it may not be empty or contain `/`. -/
def readFileName (d : Doc) (k : String) : Read String := do
  let name ← d.req k Doc.toStr
  if name.isEmpty || name == "." || name == ".." || name.contains '/' then Read.reject
  pure name

/-- Runs a disk change that may fail. -/
def onDisk {α : Type} (f : Disk → Except IoError (Disk × α)) : BenchM α :=
  Bench.onWorld (World.diskTry DbError.io f)

/-- The bytes of a file in a node's directory, from `offset`, `len` of them or all the rest; of a
range reaching past the end of the file only the part inside it. -/
def fileBytes (dir name : String) (offset : Nat) (len : Option Nat) : BenchM ByteArray := do
  let d := (← get).world.disk
  let f ← onDisk fun d' => (d'.openFile dir name).map (d', ·)
  pure (d.readUpTo f offset (len.getD (d.size f)))

/-- The request a node sends to subscribe to a master. -/
def subscribeRequest (src dest : Nat) (position : Option Int) (epochs : Nat)
    (masterId : Option Uuid) (subscriptionId : Uuid) (internal : SocketAddr) :
    BenchM SubscribeReplica := do
  let f ← Bench.running src
  let t ← Bench.running dest
  let logPosition := position.getD f.store.db.config.checkpoints.writer.readNonFlushed
  let chunk ← Bench.onStore src (Store.getChunkFor logPosition) Bench.dbReport
  let lastEpochs ← Bench.onStore src (Store.lastEpochs epochs) Bench.epochReport
  pure { logPosition, chunkId := (chunk.map (·.header.chunkId)).getD ⟨0⟩, lastEpochs,
         replicaId := (← Bench.node src).spec.instanceId, replicaInternal := internal,
         masterId := masterId.getD t.master.instanceId, subscriptionId }

/-- The steps between two nodes, which name their nodes in fields of their own. -/
def betweenNodes : List String := ["subscribe", "deliver", "deliver_acks", "drop_conn"]

/-- The action of a storage step, read from its document. -/
def storageAction (b : Bench) (d : Doc) : Read (BenchM Doc) := do
  let op ← d.req "op" Doc.toStr
  let i ← if betweenNodes.contains op then pure 0 else nodeField b d "node"
  let ok : Doc := .str "ok"
  match op with
  | "open" => pure do Bench.openNode i; pure ok
  | "close" => pure do Bench.closeNode i; pure ok
  | "crash" => pure do Bench.crashNode i; pure ok
  | "write" => do
    let data ← d.req "data" Doc.toBytes
    let cid ← d.reqD "correlation_id" Doc.toUuid ⟨0⟩
    let ts ← d.reqD "timestamp" Doc.i64 0
    pure do
      let (s, e) ← onWriter i (Store.writeRecord fun p => .data ⟨p, ts, cid, data⟩)
      pure (spanDoc s e)
  | "write_system" => do
    let kind ← d.reqD "record_type" SystemKind.read .invalid
    let ser ← d.reqD "serialization" Serialization.read .binary
    let reserved ← d.reqD "reserved" Doc.u64 0
    let ts ← d.reqD "timestamp" Doc.i64 0
    let data ← d.reqD "data" Doc.toBytes []
    pure do
      let (s, e) ← onWriter i (Store.writeRecord fun p => .system ⟨p, ts, kind, ser, reserved, data⟩)
      pure (spanDoc s e)
  | "write_once" => do
    let r ← d.req "record" Record.read
    pure do
      let e ← onWriter i (Store.writeOnce r)
      pure (.obj [("end", .opt .int e)])
  | "flush" => pure do onWriter i Store.flushWriter; pure ok
  | "complete_chunk" => pure do onWriter i Store.completeChunk; pure ok
  | "truncate" => do
    let p ← d.req "position" Doc.i64
    pure do
      onWriter i (Store.truncateWriter p)
      pure (positionDoc (← writerPosition i))
  | "writer_position" => pure do pure (.int (← writerPosition i))
  | "read_forward" => do
    let p ← d.req "position" Doc.i64
    pure do pure (readForwardDoc (← Bench.onStore i (Store.readForward p) Bench.dbReport))
  | "read_at" => do
    let p ← d.req "position" Doc.i64
    pure do pure (← Bench.onStore i (Store.readRecordAt p) Bench.dbReport).toDoc
  | "scan" => do
    let start ← d.reqD "from" Doc.i64 0
    let limit ← d.reqD "limit" Doc.u64 1000
    pure do
      let o ← Bench.running i
      let (records, err) ← scanFrom i o.store.db.config.checkpoints.writer.read limit start []
      pure (.obj [("records", .arr records), ("error", err)])
  | "chunks" => pure do
    let cs ← Bench.onStore i Store.chunkList Bench.dbReport
    let docs ← Bench.onStore i (Store.onWorld (cs.mapM chunkDoc)) Bench.dbReport
    pure (.arr docs)
  | "files" => pure do
    let dir := (← Bench.node i).spec.name
    pure (filesDoc (← get).world.disk dir)
  | "checkpoints" => pure do
    let o ← Bench.running i
    let cps := o.store.db.config.checkpoints
    pure (.obj [("writer", checkpointDoc cps.writer), ("chaser", checkpointDoc cps.chaser),
      ("epoch", checkpointDoc cps.epoch), ("truncate", checkpointDoc cps.truncate),
      ("generation", .nat o.store.db.generation), ("closed", .bool o.store.db.isClosed),
      ("writer_position", .int o.store.writer.position),
      ("chaser_position", .int o.chaser.position)])
  | "set_checkpoint" => do
    let field ← Read.attempt (do Read.ofOption (checkpointField? (← d.req "name" Doc.toStr)))
    let value ← Read.attempt (d.req "value" Doc.i64)
    let flush ← Read.attempt (d.reqD "flush" Doc.toBool true)
    pure do
      let _ ← Bench.running i
      let (get', set') ← needed field
      let value ← needed value
      let flush ← needed flush
      Bench.onStore i (ε := DbError) (do
          Store.modifyCheckpoints fun cs => set' cs ((get' cs).write value)
          if flush then Store.flushCheckpointOf get' set')
        Bench.dbReport
      pure ok
  | "scavenge" => do
    let start ← Read.attempt (d.req "start" Doc.u32)
    let finish ← Read.attempt (d.req "end" Doc.u32)
    let keep ← Read.attempt (readKeep d)
    pure do
      let _ ← Bench.running i
      let s ← Bench.onStore i
        (Store.scavenge (← needed start) (← needed finish) (← needed keep)) Bench.dbReport
      pure (.obj [("records_kept", .nat s.recordsKept), ("records_removed", .nat s.recordsRemoved),
        ("old_data_size", .nat s.oldDataSize), ("new_data_size", .nat s.newDataSize)])
  | "bulk" => do
    let n ← d.req "chunk" Doc.u32
    let mode ← Read.attempt (d.req "mode" Doc.toStr)
    let rawPosition ← d.opt? "raw_position" Doc.u64
    let dataPosition ← d.opt? "data_position" Doc.u64
    let reads ← Read.attempt (d.req "reads" (Doc.toList Doc.amount))
    pure do
      let some c ← Bench.onStore i (Store.getChunk n) Bench.dbReport | throw .noChunk
      let raw := (← needed mode) == "raw"
      let reads ← needed reads
      let dir := (← Bench.node i).spec.name
      let reader ← Bench.onStore i (Store.onWorld (do
          let r ← BulkReader.acquire dir c
          let r ← match rawPosition with
            | some p => r.setRawPosition p
            | none => pure r
          match dataPosition with
          | some p => r.setDataPosition p
          | none => pure r)) Bench.dbReport
      pure (.arr (← bulkReads i c raw reads reader []))
  | "get_chunk_for" => do
    let p ← d.req "position" Doc.i64
    pure do
      let c ← Bench.onStore i (Store.getChunkFor p) Bench.dbReport
      pure (.opt (fun c => .obj [("start", .nat c.header.chunkStartNumber),
        ("end", .nat c.header.chunkEndNumber)]) c)
  | "write_epoch" => do
    let leader ← d.opt? "leader" Doc.toUuid
    pure do
      ownWriter i
      let leader := leader.getD (← Bench.node i).spec.instanceId
      pure (← Bench.onStore i (Store.writeNewEpoch leader) Bench.epochReport).toDoc
  | "cache_epoch" => do
    let e ← d.req "epoch" Epoch.read
    pure do Bench.onStore i (Store.cacheEpoch e) Bench.epochReport; pure ok
  | "last_epochs" => do
    let count ← d.reqD "count" Doc.amount 1000
    pure do
      let es ← Bench.onStore i (Store.lastEpochs count) Bench.epochReport
      pure (.arr (es.map Epoch.toDoc))
  | "epoch" => do
    let n ← d.req "number" Doc.i32
    pure do pure (.opt Epoch.toDoc (← Bench.onStore i (Store.epochNumbered n) Bench.epochReport))
  | "epoch_after" => do
    let n ← d.req "number" Doc.i32
    pure do pure (.opt Epoch.toDoc (← Bench.onStore i (Store.epochAfter n) Bench.epochReport))
  | "is_known" => do
    let n ← d.req "number" Doc.i32
    let id ← d.req "epoch_id" Doc.toUuid
    pure do pure (.bool (← Bench.onStore i (Store.isKnownEpoch n id) Bench.epochReport))
  | "epochs_truncated" => do
    let p ← d.req "position" Doc.i64
    pure do Bench.onStore i (Store.epochsTruncated p) Bench.epochReport; pure ok
  | "epochs_reload" => pure do Bench.onStore i Store.reloadEpochs Bench.epochReport; pure ok
  | "add_new_chunk" => do
    let header ← d.opt? "header" ChunkHeader.read
    let source ← match header with
      | some _ => pure none
      | none => do pure (some (← nodeReq b d "header_from_node", ← d.req "header_chunk" Doc.u32))
    let fileSize ← d.req "file_size" Doc.u64
    let completed ← d.reqD "is_completed" Doc.toBool false
    pure do
      let header ← match header, source with
        | some h, _ => pure h
        | none, some (j, n) => do
          let some c ← Bench.onStore j (Store.getChunk n) Bench.dbReport | throw .noChunk
          pure c.header
        | none, none => throw .panic
      onWriter i (Store.addReplicatedChunk header fileSize completed)
      pure ok
  | "raw_chunk_bytes" => do
    let rawPosition ← d.req "raw_position" Doc.u64
    let source ← match d.get? "data" with
      | some v => do pure (Sum.inl (← Doc.toBytes v))
      | none => do
        pure (Sum.inr (← nodeReq b d "from_node", ← readFileName d "name",
          ← d.reqD "offset" Doc.u64 0, ← d.opt? "len" Doc.u64))
    pure do
      let bs ← match source with
        | .inl bs => pure bs.toByteArray
        | .inr (j, name, offset, len) => fileBytes (← Bench.node j).spec.name name offset len
      onWriter i (Store.writeRawChunkBytes rawPosition bs)
      pure ok
  | "complete_raw_chunk" => pure do
    onWriter i Store.completeRawChunk
    pure (positionDoc (← writerPosition i))
  | "complete_replicated_chunk" => pure do
    onWriter i Store.completeReplicatedChunk
    pure (positionDoc (← writerPosition i))
  | "append_raw_data" => do
    let p ← d.req "log_position" Doc.i64
    let data ← Read.attempt (d.req "data" Doc.toLogData)
    pure do
      ownWriter i
      let data ← needed data
      onWriter i (Store.appendRawData p data.toByteArray)
      pure (positionDoc (← writerPosition i))
  | "start_writer_service" => pure do
    ownWriter i
    let id := (← Bench.node i).spec.instanceId
    Bench.modifyNode i fun n =>
      { n with running := n.running.map fun o => { o with writerService := some { instanceId := id } } }
    pure ok
  | "writer" => do
    let msg ← d.req "msg" Message.read
    pure do pure (.bool (← Bench.onWriterService i (StorageWriter.handle msg)))
  | "chaser" => do
    let msg ← d.req "msg" Message.read
    pure do pure (.bool (← Bench.onChaser i (StorageChaser.handle msg)))
  | "master" => do
    let msg ← d.req "msg" Message.read
    pure do pure (.bool (← Bench.onMaster i (MasterReplication.handle benchNow msg)))
  | "chase" => pure do
    Bench.onChaser i StorageChaser.chase
    pure (positionDoc (← Bench.running i).chaser.position)
  | "pump" => pure do Bench.onMaster i (MasterReplication.pump benchNow); pure ok
  | "route" => pure do
    let msgs := (← Bench.node i).unrouted
    Bench.modifyNode i fun n => { n with unrouted := [] }
    let _ ← Bench.running i
    pure (.arr (← routeAll i msgs []))
  | "roles" => do
    let ids ← d.req "subscription_ids" (Doc.toList Doc.toUuid)
    pure do
      let m := (← Bench.running i).master
      let role := fun id => ((m.subscriptions.lookup id).map fun s => Doc.str s.role.name).getD .null
      pure (.obj [("roles", .arr (ids.map role)),
        ("commit_position", .int m.commits.commitPosition)])
  | "progress" => pure do
    let o ← Bench.running i
    let last ← Bench.onStore i (Store.lastEpoch (ε := EpochError)) Bench.epochReport
    let cps := o.store.db.config.checkpoints
    pure (.obj [("last_epoch", .opt Epoch.toDoc last), ("writer", .int cps.writer.read),
      ("chaser", .int cps.chaser.read), ("last_commit_position", .int o.store.lastCommit)])
  | "write_file" => do
    let name ← readFileName d "name"
    let offset ← d.reqD "offset" Doc.u64 0
    let data ← Read.attempt (d.req "data" Doc.toBytes)
    pure do
      let dir := (← Bench.node i).spec.name
      let f ← onDisk (·.openForWrite dir name)
      let some data := data | throw .badInput
      onDisk fun disk => (disk.writeWithin f offset data.toByteArray).map (·, ())
      pure ok
  | "truncate_file" => do
    let name ← readFileName d "name"
    let len ← Read.attempt (d.req "len" Doc.u64)
    pure do
      let dir := (← Bench.node i).spec.name
      let f ← onDisk fun disk => (disk.openFile dir name).map (disk, ·)
      let len ← needed len
      onDisk fun disk => (disk.setSizeWithin f len).map (·, ())
      pure ok
  | "remove_file" => do
    let name ← readFileName d "name"
    pure do
      let dir := (← Bench.node i).spec.name
      onDisk fun disk => (disk.remove dir name).map (·, ())
      pure ok
  | "copy_file" => do
    let j ← nodeField b d "from_node"
    let name ← readFileName d "name"
    let toName ← match d.get? "to_name" with
      | some _ => readFileName d "to_name"
      | none => pure name
    pure do
      let srcDir := (← Bench.node j).spec.name
      let src ← onDisk fun disk => (disk.openFile srcDir name).map (disk, ·)
      let dir := (← Bench.node i).spec.name
      let dst ← onDisk (·.openForWrite dir toName)
      Bench.onWorld (World.onDisk (·.copy src dst))
      pure ok
  | "subscribe" => do
    let src ← nodeReq b d "from"
    let dest ← nodeReq b d "to"
    let conn ← d.req "conn" Doc.u64
    let sub ← d.req "subscription_id" Doc.toUuid
    let epochs ← d.reqD "epochs" Doc.amount 5
    let position ← d.opt? "log_position" Doc.i64
    let masterId ← d.opt? "master_id" Doc.toUuid
    let internal ← d.reqD "replica_internal" Doc.toAddr (SocketAddr.loopback 2112)
    pure do
      let req ← subscribeRequest src dest position epochs masterId sub internal
      let r ← Bench.onMaster dest (MasterReplication.handle benchNow
        (.replication (.replicaSubscriptionRequest conn req)))
      pure (.obj [("request", PeerMessage.toDoc (.subscribeReplica req)), ("r", .bool r)])
  | "deliver" => do
    let conn ← d.req "conn" Doc.u64
    let dest ← nodeReq b d "to"
    let skip ← Read.attempt (d.reqD "drop" Doc.u64 0)
    let limit ← Read.attempt (d.opt? "limit" Doc.u64)
    pure do
      Bench.requireWriterService dest
      let pending := pendingOn (← get) conn
      setPending conn []
      let skip ← needed skip
      let limit ← needed limit
      setPending conn (pending.drop skip)
      let rest := (pendingOn (← get) conn).length
      pure (.arr (← deliverTo dest conn (limit.getD rest) []))
  | "deliver_acks" => do
    let src ← nodeReq b d "from"
    let dest ← nodeReq b d "to"
    let conn ← d.req "conn" Doc.u64
    let writeAcks ← d.reqD "write_acks" Doc.toBool false
    pure do
      let msgs := (← Bench.node src).unacked
      Bench.modifyNode src fun n => { n with unacked := [] }
      let _ ← Bench.running dest
      pure (.arr (← deliverAcks dest conn writeAcks msgs []))
  | "drop_conn" => do
    let conn ← d.req "conn" Doc.u64
    pure do
      let n := (pendingOn (← get) conn).length
      setPending conn []
      pure (.nat n)
  | _ => Read.reject

/-- What a step caused beside its result: published messages by node, client replies and peer
traffic by connection. Clears them from the bench and queues the messages sent for delivery. -/
def collectTraffic (b : Bench) : Bench × List (String × Option Doc) :=
  let out := b.nodes.toList.filterMap fun n =>
    if n.published.isEmpty then none
    else some (n.spec.name, Doc.arr (n.published.toList.map Message.toDoc))
  let traffic := b.world.traffic.toList
  let queued := traffic.foldl (fun (u : List (Nat × List PeerMessage)) t =>
      match t with
      | .send c m =>
        match u.find? (·.1 == c) with
        | some _ => u.map fun (c', ms) => if c' = c then (c', ms ++ [m]) else (c', ms)
        | none => u ++ [(c, [m])]
      | _ => u) b.undelivered
  let b' := { b with world := { b.world with traffic := #[] },
                     nodes := b.nodes.map fun n => { n with published := #[] },
                     undelivered := queued }
  (b', ("out", if out.isEmpty then none else some (.obj out)) :: trafficFields traffic)

/-- One step of a storage session. -/
def storageStep (b : Bench) (d : Doc) : Read (Bench × Doc) := do
  let act ← storageAction b d
  let (r, b') := (ExceptT.run act).run b
  let answer := match r with
    | .ok v => Doc.obj [("r", v)]
    | .error e => BenchFault.toDoc e
  let (b'', extras) := collectTraffic b'
  pure (b'', withExtras answer extras)

/-- Opens the nodes that open at the start, in order, answering each by name. -/
def openAtStart (b : Bench) : List (String × Doc) × Bench :=
  let step := fun (acc : List (String × Doc) × Bench) (i : Nat) =>
    let (answers, b) := acc
    let n := b.nodes[i]?.getD default
    if n.spec.openAtStart then
      let (r, b') := (ExceptT.run (Bench.openNode i)).run b
      let a := match r with
        | .ok () => Doc.str "ok"
        | .error e => BenchFault.toDoc e
      (answers ++ [(n.spec.name, a)], (collectTraffic b').1)
    else (answers, b)
  (List.range b.nodes.size).foldl step ([], b)

/-- `storage`: a bench of storage nodes, step by step. -/
def storageSession (d : Doc) (L : Labels) : Except ReadFailure Doc := do
  let ((specs, steps), L) ← (do
    let specs ← d.req "nodes" (Doc.toList readNodeSpec)
    if specs.isEmpty ∨ 5 < specs.length then Read.reject
    let names := specs.map (·.name)
    if names.eraseDups.length ≠ names.length then Read.reject
    let steps ← readSteps d
    pure (specs, steps) : Read _).setup L
  let b : Bench := { nodes := (specs.map fun spec => ({ spec } : BenchNode)).toArray }
  let (opened, b) := openAtStart b
  let (openDoc, L) := (Doc.obj opened).render.run L
  let (answers, _, _) := runSteps storageStep steps L b
  pure (.obj [("open", openDoc), ("steps", .arr answers)])

end Api

end EventStore
