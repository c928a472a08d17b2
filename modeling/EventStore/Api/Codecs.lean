import EventStore.Api.Session
import EventStore.Peer.Stream
import EventStore.Chunk.FileName
import EventStore.Election.Candidate

/-!
# Requests on single values

Requests that need no session: encoding and decoding of peer messages, streams of frames, log
records, epochs, chunk headers, footers and position maps; the byte values of node states and
write results; chunk file names; the candidate comparison of elections; and where the bus sends a
message.

Each handler reads its request (refusing it as bad input where a field is missing or out of range)
and gives the answer document.
-/

namespace EventStore

namespace Api

/-- The answer to a failed decoding. -/
def decodeError (e : DecodeError) : Doc := .errorWith "decode" e.cause

/-- The answer of a decoding: the printed value, or the cause of failure. -/
def decoded {α : Type} (r : Except DecodeError α) (f : α → Doc) : Doc :=
  match r with
  | .ok a => f a
  | .error e => decodeError e

/-- `peer_encode`: the frame of a message. -/
def peerEncode (d : Doc) : Read Doc := do
  let m ← d.req "msg" PeerMessage.read
  pure (.obj [("frame", .ofBytes m.toFrame)])

/-- `peer_decode`: the message a frame body holds. -/
def peerDecode (d : Doc) : Read Doc := do
  let body ← d.req "body" Doc.toBytes
  pure (decoded (PeerMessage.ofBody body) fun m =>
    .obj [("msg", m.toDoc), ("is_election", .bool m.isElection)])

/-- The printed reason a stream stopped. -/
def StreamStop.toDoc : StreamStop → Doc
  | .ended => .errorWith "IO" "eof"
  | .invalidLength => .errorWith "Invalid" "invalid data"
  | .parse e => .errorWith "ParseError" e.cause

/-- `read_frame`: the messages of a stream of frames, up to 1001 of them; reading that reached
that many shows no end. -/
def readFrame (d : Doc) : Read Doc := do
  let bs ← d.req "bytes" Doc.toBytes
  let r := PeerMessage.readStream 1001 bs
  pure (.obj [("msgs", .arr (r.msgs.map PeerMessage.toDoc)), ("end", .opt StreamStop.toDoc r.stop),
    ("consumed", .nat r.consumed)])

/-- Reads exactly four bytes. -/
def readPrefix (d : Doc) : Read Bytes := do
  let bs ← d.req "prefix" Doc.toBytes
  if bs.length = 4 then pure bs else Read.reject

/-- `frame_len`: the body length a peer frame prefix announces, or null. -/
def frameLen (d : Doc) : Read Doc := do
  let p ← readPrefix d
  pure (.obj [("len", .opt .nat (PeerMessage.frameLen p))])

/-- `record_encode`: the framed record after the given bytes. -/
def recordEncode (d : Doc) : Read Doc := do
  let r ← d.req "record" Record.read
  let pre ← d.reqD "prefix_bytes" Doc.toBytes []
  let (out, len) := r.writeFramed pre
  pure (.obj [("framed", .ofBytes out), ("frame_len", .nat len)])

/-- `record_decode`: the record of a whole frame. -/
def recordDecode (d : Doc) : Read Doc := do
  let f ← d.req "framed" Doc.toBytes
  pure (decoded (Record.readFramed f) fun r =>
    .obj [("record", r.toDoc), ("log_position", .int r.logPosition),
      ("is_epoch", .bool r.epoch?.isSome)])

/-- `frame_body_len`: the body length a record frame prefix announces. -/
def frameBodyLen (d : Doc) : Read Doc := do
  let p ← readPrefix d
  pure (decoded (Record.frameBodyLen p) fun n => .obj [("len", .nat n)])

/-- `epoch_record`: the system record that begins an epoch. -/
def epochRecord (d : Doc) : Read Doc := do
  let e ← d.req "epoch" Epoch.read
  let r := e.toRecord
  pure (.obj [("data", .ofBytes e.encode), ("framed", .ofBytes r.framed),
    ("log_position", .int r.logPosition), ("timestamp", .clock e.timeStamp)])

/-- `header_encode`. -/
def headerEncode (d : Doc) : Read Doc := do
  let h ← d.req "header" ChunkHeader.read
  pure (.obj [("bytes", .ofBytes h.encode)])

/-- `header_decode`. -/
def headerDecode (d : Doc) : Read Doc := do
  let bs ← d.req "bytes" Doc.toBytes
  pure (decoded (ChunkHeader.decode.run bs) fun (h, _) => .obj [("header", h.toDoc)])

/-- `header_positions`: the positions a header spans, and optional conversions. -/
def headerPositions (d : Doc) : Read Doc := do
  let h ← d.req "header" ChunkHeader.read
  let g ← d.opt? "global" Doc.i64
  let l ← d.opt? "local" Doc.i64
  let c ← d.opt? "covers" Doc.u32
  match h.activeFileSize? with
  | none => pure panicked
  | some size =>
    pure (.withOptional [("start_position", .int h.startPosition),
      ("end_position", .int h.endPosition), ("active_file_size", .nat size)]
      [("local_position", g.map fun x => .int (h.localPosition x)),
        ("global_position", l.map fun x => .int (h.globalPosition x)),
        ("covers", c.map fun n => .bool (h.covers n))])

/-- `footer_encode`. -/
def footerEncode (d : Doc) : Read Doc := do
  let f ← d.req "footer" ChunkFooter.read
  pure (.obj [("bytes", .ofBytes f.encode)])

/-- `footer_decode`, printing the hash. -/
def footerDecode (d : Doc) : Read Doc := do
  let bs ← d.req "bytes" Doc.toBytes
  pure (decoded (ChunkFooter.decode.run bs) fun (f, _) => .obj [("footer", f.toDoc true)])

/-- `posmap_decode`: entries until the bytes end. -/
def posmapDecode (d : Doc) : Read Doc := do
  let bs ← d.req "bytes" Doc.toBytes
  pure (decoded (PosMapEntry.decodeAll bs) fun es =>
    .obj [("entries", .arr (es.map fun e => .arr [.nat e.logPos, .nat e.actualPos]))])

/-- `vnode_state`: the state with a byte value. -/
def nodeState (d : Doc) : Read Doc := do
  let v ← d.req "value" Doc.u8
  pure <| match NodeState.ofNat? v with
    | some s => .obj [("name", .str s.name), ("is_replica", .bool s.isReplica),
        ("is_shutting_down", .bool s.isShuttingDown), ("value", .nat v)]
    | none => .error "invalid"

/-- `operation_result`: the write result with a byte value. -/
def writeResult (d : Doc) : Read Doc := do
  let v ← d.req "value" Doc.u8
  pure <| match WriteResult.ofNat? v with
    | some r => .obj [("name", .str r.name), ("value", .nat v)]
    | none => .error "invalid"

/-- `chunk_file_name`. -/
def chunkFileName (d : Doc) : Read Doc := do
  let n ← d.req "number" Doc.u32
  let v ← d.req "version" Doc.u32
  pure (.obj [("name", .str (ChunkFileName.ofParts n v))])

/-- `parse_chunk_file_name`. -/
def parseChunkFileName (d : Doc) : Read Doc := do
  let s ← d.req "name" Doc.toStr
  pure <| match ChunkFileName.parse? s with
    | some (n, v) => .obj [("number", .nat n), ("version", .nat v)]
    | none => .obj [("number", .null)]

/-- Reads a candidate, every field defaulted. -/
def readCandidate (d : Doc) : Read Candidate := do
  pure ⟨← d.reqD "instance_id" Doc.toUuid .nil,
    ← d.reqD "internal_tcp" Doc.toAddr (SocketAddr.loopback 0), ← Candidacy.read d⟩

/-- `candidate_good_enough`. -/
def candidateGoodEnough (d : Doc) : Read Doc := do
  let c ← d.req "candidate" readCandidate
  let o ← d.req "own" readCandidate
  pure (.obj [("r", .bool (Candidate.goodEnough c o))])

/-- `bus`: where a message goes, with what a state change or replication message names. -/
def bus (d : Doc) : Read Doc := do
  let m ← d.req "msg" Message.read
  let targets := ("targets", Doc.arr (m.targets.map fun s => .str s.name))
  pure <| match m with
    | .system s =>
      .obj [("new_state", .opt (fun st => .str st.name) s.newState?),
        ("master", .opt (fun mm => .ident mm.instanceId) s.master?), targets]
    | .replication r =>
      .obj [("subscription", .opt (fun (a, b) => .arr [.ident a, .ident b]) r.subscription?), targets]
    | _ => .obj [targets]

/-- `member_endpoints`. -/
def memberEndpoints (d : Doc) : Read Doc := do
  let m ← d.req "member" Member.read
  pure (.obj [("is_master", .bool m.isMaster), ("endpoints", m.endpoints.toDoc)])

/-- The handler of a request that needs no session, by op name. -/
def singleValue? : String → Option (Doc → Read Doc)
  | "peer_encode" => some peerEncode
  | "peer_decode" => some peerDecode
  | "read_frame" => some readFrame
  | "frame_len" => some frameLen
  | "record_encode" => some recordEncode
  | "record_decode" => some recordDecode
  | "frame_body_len" => some frameBodyLen
  | "epoch_record" => some epochRecord
  | "header_encode" => some headerEncode
  | "header_decode" => some headerDecode
  | "header_positions" => some headerPositions
  | "footer_encode" => some footerEncode
  | "footer_decode" => some footerDecode
  | "posmap_decode" => some posmapDecode
  | "vnode_state" => some nodeState
  | "operation_result" => some writeResult
  | "chunk_file_name" => some chunkFileName
  | "parse_chunk_file_name" => some parseChunkFileName
  | "candidate_good_enough" => some candidateGoodEnough
  | "bus" => some bus
  | "member_endpoints" => some memberEndpoints
  | _ => none

end Api

end EventStore
