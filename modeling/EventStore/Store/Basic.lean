import EventStore.Store.Truncation
import EventStore.Doc.Render

/-!
# The chunk database

A node's log is a chunk database: the open chunks, ordered by the first chunk number each covers
(a scavenged chunk covers several), its configuration with the four checkpoints, a generation
counted up by each truncation, and whether it was closed. With the database a node keeps its chunk
writer (the only writer of the log), its cache of recent epochs and the last commit position it
knows; together with the world around them they make a `Store`.

Opening a database finishes an interrupted truncation, removes temporary files, checks that no
chunk file lies past the writer checkpoint, opens the chunks up to it (the last one active, with
the data up to the writer checkpoint), verifies completed chunks' hashes, and creates the active
chunk if there is none. A stop while the chunk list was being changed leaves the database
unusable: every later use of the chunk list stops too.
-/

namespace EventStore

/-- A completed chunk being received byte for byte into a temporary file. -/
structure RawChunk where
  header : ChunkHeader
  name : String
  file : Nat
  deriving Inhabited

/-- The only writer of the log: the active chunk it appends to (by handle), a completed chunk it
is receiving, the position of the next record, and the frame length of the last record it tried. -/
structure ChunkWriter where
  current : Option Nat := none
  raw : Option RawChunk := none
  position : Int
  lastFrameLen : Nat := 0
  deriving Inhabited

/-- The most recent epochs, oldest first, at most `cacheSize` of them. -/
structure EpochCache where
  cacheSize : Nat
  epochs : List Epoch := []
  deriving Inhabited

/-- A node's chunk database. -/
structure ChunkDb where
  config : DbConfig
  /-- The open chunks, ordered by first chunk number. -/
  chunks : List Chunk
  generation : Nat := 0
  isClosed : Bool := false
  /-- Whether a stop left the chunk list half-changed. -/
  poisoned : Bool := false
  deriving Inhabited

/-- A node's log with the world around it. -/
structure Store where
  world : World
  db : ChunkDb
  writer : ChunkWriter
  epochs : EpochCache
  /-- The last commit position the node knows; it only grows, except after a truncation. -/
  lastCommit : Int := -1
  deriving Inhabited

/-- Actions on a node's log that may fail with `ε` or stop the program. -/
abbrev StoreM (ε : Type) := ExceptT (Fault ε) (StateM Store)

/-- Runs a world action in a store action. -/
def Store.onWorld {ε α : Type} (m : WorldM ε α) : StoreM ε α :=
  ExceptT.focus (·.world) (fun s w => { s with world := w }) m

/-- A fresh chunk header for chunks `start` to `finish`, with a new identifier. -/
def ChunkHeader.fresh {ε : Type} (chunkSize start finish : Nat) (isScavenged : Bool) :
    WorldM ε ChunkHeader := do
  let id ← World.freshId
  pure ⟨ChunkHeader.currentVersion, chunkSize, start, finish, isScavenged, id, wallClock⟩

namespace ChunkList

/-- The chunk covering chunk number `n`: the last one starting at or before it, if it reaches it. -/
def get? (cs : List Chunk) (n : Nat) : Option Chunk :=
  ((cs.filter fun c => c.header.chunkStartNumber ≤ n).getLast?).filter (·.header.covers n)

/-- The number the next new chunk gets: the 32-bit chunk number after the last chunk's range. -/
def count (cs : List Chunk) : Nat :=
  match cs.getLast? with
  | some c => Word.nextChunk c.header.chunkEndNumber
  | none => 0

/-- Adds a chunk in order of first chunk number, replacing the chunks whose range overlaps its
own; gives the replaced chunks and the new list. -/
def add (cs : List Chunk) (c : Chunk) : List Chunk × List Chunk :=
  let s := c.header.chunkStartNumber
  let e := c.header.chunkEndNumber
  let overlaps := fun (d : Chunk) => d.header.chunkStartNumber ≤ e && s ≤ d.header.chunkEndNumber
  let kept := cs.filter fun d => !overlaps d
  let before := kept.filter fun d => d.header.chunkStartNumber < s
  let after := kept.filter fun d => s < d.header.chunkStartNumber
  (cs.filter overlaps, before ++ [c] ++ after)

/-- Puts back a changed chunk, found by its handle. -/
def update (cs : List Chunk) (c : Chunk) : List Chunk :=
  cs.map fun d => if d.handle = c.handle then c else d

end ChunkList

namespace DbConfig

/-- Creates the version-0 file of a new active chunk. -/
def createChunkFile (cfg : DbConfig) (header : ChunkHeader) : WorldM DbError Chunk := do
  let size ← Chunk.activeFileSize header
  let handle ← World.freshNat
  Chunk.createNew cfg.dir (ChunkFileName.ofParts header.chunkStartNumber 0) header size handle

/-- One step of opening the chunks up to the writer's chunk `last`, at chunk `n` with the chunks
opened so far: opens the newest file of `n` (the one of `last` as the active chunk, with the data up
to the writer checkpoint) after removing its older versions, and goes on at the 32-bit chunk number
after the range its header gives, or ends with the chunks opened. -/
def openChunkStep (cfg : DbConfig) (writer : Int) (last n : Nat) (cs : List Chunk) :
    WorldM DbError ((Nat × List Chunk) ⊕ List Chunk) := do
  if last < n then return .inr cs
  match ← cfg.versionsFor n with
  | [] => if n = last then pure (.inr cs) else fail (.chunkNotFound n)
  | (_, latest) :: older =>
    for (_, name) in older do
      cfg.removeFile name
    let headerStart : Int := n * cfg.chunkSize
    let active ← if n = last then
        (if headerStart ≤ writer then pure (some (writer - headerStart).toNat) else stop)
      else pure none
    let handle ← World.freshNat
    let c ← Chunk.openExisting cfg.dir latest active handle
    if c.header.chunkStartNumber ≠ n then fail (.unexpectedChunk n c.header.chunkStartNumber)
    if c.isCompleted then
      if cfg.verifyHashes then c.verifyHash
      if c.header.covers last then fail (.writerInsideCompletedChunk writer)
    pure (.inl (Word.nextChunk c.header.chunkEndNumber, (ChunkList.add cs c).2))

/-- Opens the chunks of the log, creating the active chunk when the files end before it. A walk
over the chunks that goes round forever stops here. -/
def loadChunks (cfg : DbConfig) : WorldM DbError (List Chunk) := do
  cfg.removeTempFiles
  let writer := cfg.checkpoints.writer.read
  let last ← cfg.chunkNumberOf writer
  let after := Word.nextChunk last
  if !(← cfg.versionsFor after).isEmpty then fail (.extraneousChunk after)
  let some cs ← World.walk (fun st => cfg.openChunkStep writer last st.1 st.2) walkBound (0, [])
    | stop
  if (ChunkList.get? cs last).isSome then pure cs
  else
    let header ← ChunkHeader.fresh cfg.chunkSize last last false
    let c ← cfg.createChunkFile header
    pure (ChunkList.add cs c).2

end DbConfig

namespace ChunkDb

/-- Finishes an interrupted truncation, if the truncate checkpoint records one. -/
def finishTruncation (cfg : DbConfig) : WorldM DbError DbConfig := do
  if 0 ≤ cfg.checkpoints.truncate.read then
    let cps ← cfg.truncateFiles cfg.checkpoints.truncate.read
    pure { cfg with checkpoints := cps }
  else pure cfg

/-- Opens the chunks of a database whose truncation is finished. -/
def openChunks (cfg : DbConfig) : WorldM DbError ChunkDb := do
  let chunks ← cfg.loadChunks
  let writer := cfg.checkpoints.writer.read
  let chaser := cfg.checkpoints.chaser.read
  if writer < chaser then fail (.chaserAheadOfWriter chaser writer)
  pure { config := cfg, chunks }

end ChunkDb

namespace Store

/-- The database configuration. -/
def config {ε : Type} : StoreM ε DbConfig := do
  pure (← get).db.config

/-- The checkpoints. -/
def checkpoints {ε : Type} : StoreM ε Checkpoints := do
  pure (← get).db.config.checkpoints

/-- Replaces the checkpoints. -/
def setCheckpoints {ε : Type} (cps : Checkpoints) : StoreM ε Unit :=
  modify fun s => { s with db.config.checkpoints := cps }

/-- Changes one checkpoint. -/
def modifyCheckpoints {ε : Type} (f : Checkpoints → Checkpoints) : StoreM ε Unit :=
  modify fun s => { s with db.config.checkpoints := f s.db.config.checkpoints }

/-- Flushes the checkpoint a field selects. -/
def flushCheckpointOf {ε : Type} (get' : Checkpoints → Checkpoint)
    (set' : Checkpoints → Checkpoint → Checkpoints) : StoreM ε Unit := do
  let cps ← checkpoints
  let c ← onWorld (DbConfig.flushCheckpoint (get' cps))
  setCheckpoints (set' (← checkpoints) c)

/-- The flushed writer checkpoint. -/
def writerCheckpoint {ε : Type} : StoreM ε Int := do
  pure (← checkpoints).writer.read

/-- The open chunks; a database a stop left half-changed stops the program. -/
def chunkList {ε : Type} : StoreM ε (List Chunk) := do
  let s ← get
  if s.db.poisoned then stop else pure s.db.chunks

/-- The chunk covering chunk number `n`. -/
def getChunk {ε : Type} (n : Nat) : StoreM ε (Option Chunk) := do
  pure (ChunkList.get? (← chunkList) n)

/-- The chunk holding a log position; none for a negative one. -/
def getChunkFor {ε : Type} (position : Int) : StoreM ε (Option Chunk) := do
  if position < 0 then return none
  let n ← onWorld ((← config).chunkNumberOf position)
  getChunk n

/-- The open chunk with a handle. -/
def chunkByHandle? {ε : Type} (h : Nat) : StoreM ε (Option Chunk) := do
  pure ((← chunkList).find? (·.handle = h))

/-- Runs a chunk action on an open chunk and puts the changed chunk back. -/
def withChunk {α : Type} (c : Chunk) (f : Chunk → WorldM DbError (α × Chunk)) : StoreM DbError α := do
  let (a, c') ← onWorld (f c)
  modify fun s => { s with db.chunks := ChunkList.update s.db.chunks c' }
  pure a

/-- Runs an action that holds the chunk list for writing: a stop inside it leaves the database
unusable. -/
def holdingChunks {ε α : Type} (m : StoreM ε α) : StoreM ε α :=
  tryCatch m fun
    | .panic => do
      modify fun s => { s with db.poisoned := true }
      stop
    | e => throw e

end Store

end EventStore
