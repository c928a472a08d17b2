import EventStore.Store.Basic

/-!
# Reading and changing the chunk list

Operations of the chunk database on a node's store: adding a new active chunk (replacing an empty
one of the same number), switching in a completed chunk built in a temporary file in place of the
chunks it covers, reading the record at or after a position, truncating the running database,
closing it, and closing and opening it again with a writer at the writer checkpoint.

Reading forward from a position finds the chunk holding it, then the first record at or after it
(through the position map of a scavenged chunk); past the last record of a completed chunk it goes
on in the next chunk, and past the data of the active chunk there is nothing.
-/

namespace EventStore

namespace Store

/-- Adds a new active chunk. An existing empty active chunk with the same first number is
replaced; otherwise the chunk must be the next one. -/
def addNewChunk (header : ChunkHeader) : StoreM DbError Chunk := holdingChunks do
  let cs ← chunkList
  let cfg ← config
  match ChunkList.get? cs header.chunkStartNumber with
  | some existing =>
    if existing.isCompleted || existing.header.chunkStartNumber ≠ header.chunkStartNumber ||
        existing.physicalDataSize ≠ 0 then
      fail (.unexpectedChunk (ChunkList.count cs) header.chunkStartNumber)
    onWorld (cfg.removeFile existing.name)
  | none =>
    if header.chunkStartNumber ≠ ChunkList.count cs then
      fail (.unexpectedChunk (ChunkList.count cs) header.chunkStartNumber)
  let c ← onWorld (cfg.createChunkFile header)
  modify fun s => { s with db.chunks := (ChunkList.add s.db.chunks c).2 }
  pure c

/-- Puts a completed chunk from a temporary file in place of the chunks it covers, as the next
version of its first chunk number. -/
def switchChunk (tempName : String) : StoreM DbError Chunk := do
  let cfg ← config
  let handle ← onWorld World.freshNat
  let c ← onWorld (Chunk.openExisting cfg.dir tempName none handle)
  onWorld c.verifyHash
  holdingChunks do
    let start := c.header.chunkStartNumber
    let newName := ChunkFileName.ofParts start (← onWorld (cfg.nextVersionFor start))
    onWorld (World.diskTry DbError.io fun d => (d.rename cfg.dir tempName newName).map (·, ()))
    let c := { c with name := newName }
    let (replaced, cs) := ChunkList.add (← chunkList) c
    modify fun s => { s with db.chunks := cs }
    for r in replaced do
      if r.name ≠ newName then onWorld (cfg.removeFile r.name)
    pure c

/-- The record at or after `position`, with the position after it, going through at most `fuel`
chunks. -/
def readForwardIn (fuel : Nat) (position : Int) : StoreM DbError (Option (Record × Int)) :=
  match fuel with
  | 0 => pure none
  | fuel + 1 => do
    let some c ← getChunkFor position | return none
    let loc := c.header.localPosition position
    if loc < 0 then stop
    match c.locate loc.toNat with
    | none => readForwardIn fuel c.endPosition
    | some (logical, physical) =>
      match ← onWorld (c.readFrame physical) with
      | some (r, frameLen) => pure (some (r, c.startPosition + logical + frameLen))
      | none => if c.isCompleted then readForwardIn fuel c.endPosition else pure none

/-- The record at or after `position`, with the position after it. Callers keep below the writer
checkpoint themselves. -/
def readForward (position : Int) : StoreM DbError (Option (Record × Int)) := do
  readForwardIn ((← chunkList).length + 1) position

/-- The record that starts exactly at `position`. -/
def readRecordAt (position : Int) : StoreM DbError Record := do
  match ← readForward position with
  | some (r, _) => if r.logPosition = position then pure r else fail (.recordNotFound position)
  | none => fail (.recordNotFound position)

/-- Truncates the running database to `position`: records the truncation in the truncate
checkpoint, truncates the files and reopens the chunks. If the truncation fails the chunks are
reopened as the files are and its failure is reported, unless reopening fails first. -/
def truncateTo (position : Int) : StoreM DbError Unit := do
  modifyCheckpoints fun c => { c with truncate := c.truncate.write position }
  flushCheckpointOf (·.truncate) fun c t => { c with truncate := t }
  holdingChunks do
    modify fun s => { s with db.chunks := [] }
    let cfg ← config
    let r ← tryCatch (do
        let cps ← onWorld (cfg.truncateFiles position)
        setCheckpoints cps
        pure none)
      fun
        | .error e => pure (some e)
        | .panic => stop
    let cs ← onWorld ((← config).loadChunks)
    modify fun s => { s with db.chunks := cs }
    match r with
    | some e => fail e
    | none => modify fun s => { s with db.generation := s.db.generation + 1 }

/-- A writer positioned at the flushed writer checkpoint, on the active chunk there if any. -/
def openWriter {ε : Type} : StoreM ε ChunkWriter := do
  let position ← writerCheckpoint
  let current := (← getChunkFor position).filter (!·.isCompleted) |>.map (·.handle)
  pure { current, position }

/-- Closes the database once: flushes the chunks and the four checkpoints. -/
def close {ε : Type} : StoreM ε Unit := do
  if (← get).db.isClosed then return
  modify fun s => { s with db.isClosed := true }
  let _ ← chunkList
  flushCheckpointOf (·.writer) fun c x => { c with writer := x }
  flushCheckpointOf (·.chaser) fun c x => { c with chaser := x }
  flushCheckpointOf (·.epoch) fun c x => { c with epoch := x }
  flushCheckpointOf (·.truncate) fun c x => { c with truncate := x }

/-- Closes the database and opens it again from what it left, as a node that is closed and opened
again does: the checkpoints as closing made them durable, an interrupted truncation finished, the
chunks loaded from their files, and a writer opened at the writer checkpoint. -/
def reopen : StoreM DbError Unit := do
  close
  let cfg ← onWorld (ChunkDb.finishTruncation (← config))
  let db ← onWorld (ChunkDb.openChunks cfg)
  modify fun s => { s with db, writer := { position := 0 } }
  let w ← openWriter
  modify fun s => { s with writer := w }

end Store

end EventStore
