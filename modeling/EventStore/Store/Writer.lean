import EventStore.Store.Db

/-!
# The chunk writer

The writer appends framed records at its position, moving the writer checkpoint along (written,
not flushed: `flush` makes it durable). A record never straddles chunks: when the active chunk has
no room for it, the chunk is completed, the position moves to the next chunk, and the record has to
be rebuilt for its new position and written again. A record longer than a chunk is refused.

On a replica the writer instead takes what the master streams: a completed chunk as raw file bytes
into a temporary file, switched in as a whole, or record frames appended to the active chunk at
exactly the writer position.
-/

namespace EventStore

namespace Store

/-- The writer as it is now. -/
def theWriter {ε : Type} : StoreM ε ChunkWriter := do
  pure (← get).writer

/-- Changes the writer. -/
def modifyWriter {ε : Type} (f : ChunkWriter → ChunkWriter) : StoreM ε Unit :=
  modify fun s => { s with writer := f s.writer }

/-- Moves the writer, writing the writer checkpoint. -/
def setWriterPosition {ε : Type} (p : Int) : StoreM ε Unit := do
  modifyWriter fun w => { w with position := p }
  modifyCheckpoints fun c => { c with writer := c.writer.write p }

/-- The active chunk of writer position `p`, made the writer's current one: the chunk of its
number if it is active, else a new one of that number; its data must end exactly at `p`. -/
def activeChunkAt (p : Int) : StoreM DbError Chunk := do
  let cfg ← config
  let n ← onWorld (cfg.chunkNumberOf p)
  let c ← (match (← getChunk n).filter (!·.isCompleted) with
    | some c => pure c
    | none => do
      let header ← onWorld (ChunkHeader.fresh cfg.chunkSize n n false)
      addNewChunk header)
  if c.startPosition + c.physicalDataSize ≠ p then fail (.noActiveChunk p)
  modifyWriter fun w => { w with current := some c.handle }
  pure c

/-- The active chunk the writer appends to: its current one, or the chunk of its position (created
if missing), which must end exactly at the writer position. -/
def ensureChunk : StoreM DbError Chunk := do
  let w ← theWriter
  if let some h := w.current then
    if let some c ← chunkByHandle? h then return c
  activeChunkAt w.position

/-- Makes the writer's chunk and the writer checkpoint durable. -/
def flushWriter {ε : Type} : StoreM ε Unit :=
  flushCheckpointOf (·.writer) fun c x => { c with writer := x }

/-- Seals the active chunk and moves the writer to the start of the next one. -/
def completeChunk : StoreM DbError Unit := do
  let c ← ensureChunk
  let _ ← withChunk c Chunk.complete
  modifyWriter fun w => { w with current := none }
  setWriterPosition c.endPosition
  flushWriter
  let _ ← ensureChunk

/-- Appends a record whose log position is the writer position, giving the new writer position,
or none if the active chunk had no room (it is then completed). -/
def writeOnce (r : Record) : StoreM DbError (Option Int) := do
  let frame := r.framed
  modifyWriter fun w => { w with lastFrameLen := frame.length }
  if (← config).chunkSize < frame.length then fail (.recordTooLarge frame.length)
  let c ← ensureChunk
  if ← withChunk c (·.append frame.toByteArray) then
    let p := (← theWriter).position + frame.length
    setWriterPosition p
    pure (some p)
  else
    completeChunk
    pure none

/-- Writes a record built for the position it lands at: at most two tries, the second at the
start of the next chunk. Gives the record position and the position after it. -/
def writeRecord (make : Int → Record) : StoreM DbError (Int × Int) := do
  let start ← (·.position) <$> theWriter
  if let some finish ← writeOnce (make start) then return (start, finish)
  let start ← (·.position) <$> theWriter
  if let some finish ← writeOnce (make start) then return (start, finish)
  fail (.recordTooLarge (← theWriter).lastFrameLen)

/-- Starts a chunk announced by the master at the writer position: a completed one is received as
raw bytes into a temporary file of `fileSize` bytes, an active one becomes the active chunk. -/
def addReplicatedChunk (header : ChunkHeader) (fileSize : Nat) (isCompleted : Bool) :
    StoreM DbError Unit := do
  let w ← theWriter
  if header.startPosition ≠ w.position then
    fail (.replicationOutOfSync w.position header.startPosition)
  modifyWriter fun w => { w with raw := none }
  if isCompleted then
    let cfg ← config
    let name ← onWorld DbConfig.newTempName
    let file ← onWorld (World.diskTry DbError.io (·.create cfg.dir name))
    -- a size past the largest file offset stops the program when it is converted to one; up to
    -- it, sizing the file goes through
    if Disk.maxFileSize < fileSize then stop
    onWorld (World.onDisk (·.setSize file fileSize))
    modifyWriter fun w => { w with raw := some { header, name, file } }
  else
    modifyWriter fun w => { w with current := none }
    let c ← addNewChunk header
    modifyWriter fun w => { w with current := some c.handle }

/-- Writes raw bytes of the chunk being received at `rawPosition` of its file. -/
def writeRawChunkBytes (rawPosition : Nat) (bs : ByteArray) : StoreM DbError Unit := do
  let w ← theWriter
  let some raw := w.raw | fail (.noActiveChunk w.position)
  if bs.size = 0 then return
  -- an offset past the largest one stops the program when it is converted to one; a write that
  -- reaches past the largest file length stores the bytes below it and then fails
  if Disk.maxFileSize < rawPosition then stop
  let room := Disk.maxFileSize - rawPosition
  onWorld (World.onDisk (·.write raw.file rawPosition (bs.extract 0 room)))
  if Disk.maxFileSize < rawPosition + bs.size then fail (.io .tooLarge)

/-- Switches in the chunk received so far and moves the writer past it. -/
def completeRawChunk : StoreM DbError Unit := do
  let w ← theWriter
  let some raw := w.raw | fail (.noActiveChunk w.position)
  modifyWriter fun w => { w with raw := none, current := none }
  let c ← switchChunk raw.name
  setWriterPosition c.endPosition
  flushWriter

/-- Appends replicated record frames that start at `logPosition`, which must be the writer
position; frames that overflow the active chunk are refused. -/
def appendRawData (logPosition : Int) (data : ByteArray) : StoreM DbError Unit := do
  let w ← theWriter
  if logPosition ≠ w.position then fail (.replicationOutOfSync w.position logPosition)
  let c ← ensureChunk
  if !(← withChunk c (·.append data)) then
    fail (.replicationOutOfSync c.endPosition (logPosition + data.size))
  setWriterPosition (w.position + data.size)

/-- Seals the active chunk once the master says it is complete. -/
def completeReplicatedChunk : StoreM DbError Unit := do
  let c ← ensureChunk
  let _ ← withChunk c Chunk.complete
  modifyWriter fun w => { w with current := none }
  setWriterPosition c.endPosition
  flushWriter

/-- Rolls the log back to `position` and reopens the writer at the new writer checkpoint. -/
def truncateWriter (position : Int) : StoreM DbError Unit := do
  modifyWriter fun w => { w with current := none, raw := none }
  truncateTo position
  let p ← writerCheckpoint
  let current := (← getChunkFor p).filter (!·.isCompleted) |>.map (·.handle)
  modifyWriter fun w => { w with position := p, current }

/-- Drops the writer: a chunk being received is discarded with its temporary file. -/
def dropWriter {ε : Type} : StoreM ε Unit := do
  if let some raw := (← theWriter).raw then
    let cfg ← config
    onWorld (World.onDisk fun d => (d.remove cfg.dir raw.name).toOption.getD d)
  modifyWriter fun w => { w with raw := none }

end Store

end EventStore
