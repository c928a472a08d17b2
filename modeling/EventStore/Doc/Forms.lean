import EventStore.Doc.Read
import EventStore.Cluster.Member
import EventStore.Log.Record
import EventStore.Chunk.Header

/-!
# Document forms of the stored nouns

How bytes, members, epochs, chunk headers and footers and log records are written in requests and
answers, and how they are read with their defaults.

Bytes print as lowercase hexadecimal, except that more than 64 equal bytes print as
`{"byte": b, "len": n}`. Wall-clock readings print through `Doc.clock`, identifiers through
`Doc.ident`.
-/

namespace EventStore

namespace Doc

/-- How a byte string is printed. -/
def ofBytes (bs : Bytes) : Doc :=
  match bs with
  | b :: rest =>
    if 64 < bs.length ∧ rest.all (· == b) then obj [("byte", nat b.toNat), ("len", nat bs.length)]
    else str (Bytes.toHex bs)
  | [] => str ""

/-- How a socket address is printed. -/
def ofAddr (a : SocketAddr) : Doc := str a.toText

/-- How an optional socket address is printed. -/
def ofAddr? (a : Option SocketAddr) : Doc := opt ofAddr a

/-- How an identifier that may be absent is printed. -/
def ofUuid? (u : Option Uuid) : Doc := opt ident u

end Doc

namespace Member

/-- The printed form: all sixteen fields in order. -/
def toDoc (m : Member) : Doc :=
  .obj [("instance_id", .ident m.instanceId), ("time_stamp", .clock m.timeStamp),
    ("state", .str m.state.name), ("is_alive", .bool m.isAlive),
    ("internal_tcp", .ofAddr m.internalTcp), ("internal_secure_tcp", .ofAddr? m.internalSecureTcp),
    ("external_tcp", .ofAddr m.externalTcp), ("external_secure_tcp", .ofAddr? m.externalSecureTcp),
    ("external_http", .ofAddr m.externalHttp), ("last_commit_position", .int m.lastCommitPosition),
    ("writer_checkpoint", .int m.writerCheckpoint), ("chaser_checkpoint", .int m.chaserCheckpoint),
    ("epoch_position", .int m.epochPosition), ("epoch_number", .int m.epochNumber),
    ("epoch_id", .ident m.epochId), ("node_priority", .int m.nodePriority)]

/-- The default address of a client endpoint. -/
def defaultEndpoint : SocketAddr := SocketAddr.loopback 0

/-- Reads a state name. -/
def readState (d : Doc) : Read NodeState := do
  Read.ofOption (NodeState.ofName? (← d.toStr))

/-- Reads a member: identifier and internal address are required. -/
def read (d : Doc) : Read Member := do
  pure ⟨← d.req "instance_id" Doc.toUuid, ← d.reqD "time_stamp" Doc.i64 0,
    ← d.reqD "state" readState .unknown, ← d.reqD "is_alive" Doc.toBool true,
    ← d.req "internal_tcp" Doc.toAddr, ← d.opt? "internal_secure_tcp" Doc.toAddr,
    ← d.reqD "external_tcp" Doc.toAddr defaultEndpoint, ← d.opt? "external_secure_tcp" Doc.toAddr,
    ← d.reqD "external_http" Doc.toAddr defaultEndpoint,
    ← d.reqD "last_commit_position" Doc.i64 (-1), ← d.reqD "writer_checkpoint" Doc.i64 0,
    ← d.reqD "chaser_checkpoint" Doc.i64 0, ← d.reqD "epoch_position" Doc.i64 (-1),
    ← d.reqD "epoch_number" Doc.i32 (-1), ← d.reqD "epoch_id" Doc.toUuid .nil,
    ← d.reqD "node_priority" Doc.i32 0⟩

end Member

namespace Endpoints

/-- The printed form. -/
def toDoc (e : Endpoints) : Doc :=
  .obj [("external_tcp", .ofAddr e.externalTcp), ("external_secure_tcp", .ofAddr? e.externalSecureTcp),
    ("external_http", .ofAddr e.externalHttp)]

end Endpoints

namespace Epoch

/-- The printed form. -/
def toDoc (e : Epoch) : Doc :=
  .obj [("epoch_position", .int e.epochPosition), ("epoch_number", .int e.epochNumber),
    ("epoch_id", .ident e.epochId), ("prev_epoch_position", .int e.prevEpochPosition),
    ("time_stamp", .clock e.timeStamp), ("leader_instance_id", .ident e.leaderInstanceId)]

/-- Reads an epoch: position and number are required. -/
def read (d : Doc) : Read Epoch := do
  pure ⟨← d.req "epoch_position" Doc.i64, ← d.req "epoch_number" Doc.i32,
    ← d.reqD "epoch_id" Doc.toUuid .nil, ← d.reqD "prev_epoch_position" Doc.i64 (-1),
    ← d.reqD "time_stamp" Doc.i64 0, ← d.reqD "leader_instance_id" Doc.toUuid .nil⟩

end Epoch

namespace ChunkHeader

/-- The printed form. -/
def toDoc (h : ChunkHeader) : Doc :=
  .obj [("version", .nat h.version), ("chunk_size", .nat h.chunkSize),
    ("chunk_start_number", .nat h.chunkStartNumber), ("chunk_end_number", .nat h.chunkEndNumber),
    ("is_scavenged", .bool h.isScavenged), ("chunk_id", .ident h.chunkId),
    ("creation_time", .clock h.creationTime)]

/-- Reads a header: size and chunk range are required. -/
def read (d : Doc) : Read ChunkHeader := do
  pure ⟨← d.reqD "version" Doc.u8 currentVersion, ← d.req "chunk_size" Doc.u32,
    ← d.req "chunk_start_number" Doc.u32, ← d.req "chunk_end_number" Doc.u32,
    ← d.reqD "is_scavenged" Doc.toBool false, ← d.reqD "chunk_id" Doc.toUuid .nil,
    ← d.reqD "creation_time" Doc.i64 0⟩

end ChunkHeader

namespace ChunkFooter

/-- The printed form, with the hash when `withHash`. -/
def toDoc (f : ChunkFooter) (withHash : Bool) : Doc :=
  .obj ([("flags", .nat f.flags), ("is_completed", .bool f.isCompleted),
    ("is_scavenged", .bool f.isScavenged), ("physical_data_size", .nat f.physicalDataSize),
    ("logical_data_size", .int f.logicalDataSize), ("map_size", .nat f.mapSize)] ++
    if withHash then [("hash", .ofBytes f.hash)] else [])

/-- Reads a footer; a hash that is given and not empty is 32 bytes, else the hash is zeros. -/
def read (d : Doc) : Read ChunkFooter := do
  let given ← d.reqD "hash" Doc.toBytes []
  let hash := if given.isEmpty then List.replicate 32 0 else given
  if hash.length ≠ 32 then Read.reject
  pure ⟨← d.req "flags" Doc.u8, ← d.req "physical_data_size" Doc.u32,
    ← d.req "logical_data_size" Doc.i64, ← d.reqD "map_size" Doc.u32 0, hash⟩

end ChunkFooter

/-- A system record kind given by its name; a value that is not text stands for an epoch. -/
def SystemKind.read : Doc → Read SystemKind
  | .str s => Read.ofOption (SystemKind.ofName? s)
  | _ => pure .epoch

/-- A serialization given by its name; a value that is not text stands for binary. -/
def Serialization.read : Doc → Read Serialization
  | .str s => Read.ofOption (Serialization.ofName? s)
  | _ => pure .binary

namespace Record

/-- The printed form; a system record shows its epoch when its data reads as one. -/
def toDoc : Record → Doc
  | data r =>
    .obj [("t", .str "Data"), ("log_position", .int r.logPosition),
      ("timestamp", .clock r.timestamp), ("correlation_id", .ident r.correlationId),
      ("data", .ofBytes r.data)]
  | system r =>
    .obj [("t", .str "System"), ("log_position", .int r.logPosition),
      ("timestamp", .clock r.timestamp), ("record_type", .str r.kind.name),
      ("serialization", .str r.serialization.name), ("reserved", .nat r.reserved),
      match (system r).epoch? with
      | some e => ("epoch", e.toDoc)
      | none => ("data", .ofBytes r.data)]

/-- Reads a record of either kind. -/
def read (d : Doc) : Read Record := do
  match ← d.kind with
  | "Data" =>
    pure (data ⟨← d.req "log_position" Doc.i64, ← d.reqD "timestamp" Doc.i64 0,
      ← d.reqD "correlation_id" Doc.toUuid .nil, ← d.reqD "data" Doc.toBytes []⟩)
  | "System" =>
    let kind ← d.reqD "record_type" SystemKind.read .epoch
    let serialization ← d.reqD "serialization" Serialization.read .binary
    let bytes ← match d.get? "epoch" with
      | some e => do pure (← Epoch.read e).encode
      | none => d.reqD "data" Doc.toBytes []
    pure (system ⟨← d.req "log_position" Doc.i64, ← d.reqD "timestamp" Doc.i64 0, kind,
      serialization, ← d.reqD "reserved" Doc.u64 0, bytes⟩)
  | _ => Read.reject

end Record

/-- Reads log data: bytes, or `{"records": [...]}` for the records framed one after another. -/
def Doc.toLogData (d : Doc) : Read Bytes :=
  if d.has "records" then do
    let rs ← d.req "records" (Doc.toList Record.read)
    pure (rs.map Record.framed).flatten
  else d.toBytes

end EventStore
