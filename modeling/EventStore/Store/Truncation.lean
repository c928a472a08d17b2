import EventStore.Store.Config

/-!
# Truncating the log

Truncation rolls the files of a database back to a log position. Chunk files past the chunk of the
position are removed, highest first, so the files left always form a prefix of the log. The chunk
holding the position becomes active again, its data after the position overwritten with zeros;
when the position falls inside a scavenged chunk, which cannot be cut, the whole scavenged chunk
goes and the position moves back to its start. Then the epoch, chaser and writer checkpoints are
pulled back to the position and the truncate checkpoint is cleared.

Every step can be repeated, so an interrupted truncation is finished by running it again.
-/

namespace EventStore

namespace DbConfig

/-- Removes every version of chunk `number`. -/
def removeAllVersions (cfg : DbConfig) (number : Nat) : WorldM DbError Unit := do
  for (_, name) in ← cfg.versionsFor number do
    cfg.removeFile name

/-- Turns a chunk file back into an active one whose data ends at `position`. -/
def truncateChunkFile (header : ChunkHeader) (cfg : DbConfig) (name : String) (position : Int) :
    WorldM DbError Unit := do
  if header.isScavenged || header.chunkStartNumber ≠ header.chunkEndNumber ||
      position < header.startPosition || header.endPosition ≤ position then
    fail (.cantTruncateChunk name position)
  let file ← World.diskTry DbError.io fun d => (d.openFile cfg.dir name).map (d, ·)
  let fileSize ← Chunk.activeFileSize header
  World.onDisk (·.setSize file fileSize)
  let dataEnd := chunkHeaderSize + (header.localPosition position).toNat
  World.onDisk (·.writeZeros file dataEnd (fileSize - dataEnd))

/-- One step of the walk to the chunk file holding chunk `target`, at chunk `n`: the newest file of
`n` with its header when its range reaches `target`, none when the files end just before `target`,
or else the chunk after the range the header gives. The header's range is not checked against
`n`, so a range ending before `n` sends the walk back. -/
def findChunkFileStep (cfg : DbConfig) (target n : Nat) :
    WorldM DbError (Nat ⊕ Option (ChunkHeader × String)) := do
  if target < n then return .inr none
  match ← cfg.versionsFor n with
  | [] => if n ≠ target then fail (.chunkNotFound n) else pure (.inr none)
  | (_, name) :: _ =>
    let header ← Chunk.readHeader cfg.dir name
    if target ≤ header.chunkEndNumber then pure (.inr (some (header, name)))
    else pure (.inl (header.chunkEndNumber + 1))

/-- The chunk file holding chunk `target`, found by walking the chunks from the first: its header
and name, or none when the files end just before it. A walk that goes round forever stops here. -/
def findChunkFile (cfg : DbConfig) (target : Nat) : WorldM DbError (Option (ChunkHeader × String)) := do
  let some found ← World.walk (cfg.findChunkFileStep target) walkBound 0 | stop
  pure found

/-- Writes and flushes a checkpoint when `cond` holds, and leaves it as it is otherwise. -/
def storeCheckpointIf {ε : Type} (cond : Bool) (c : Checkpoint) (value : Int) :
    WorldM ε Checkpoint :=
  if cond then storeCheckpoint c value else pure c

/-- Pulls the epoch, chaser and writer checkpoints back to a truncation position, invalidating
the epoch checkpoint when it is not below it, and clears the truncate checkpoint, in that order. -/
def clampCheckpoints {ε : Type} (cps : Checkpoints) (position : Int) : WorldM ε Checkpoints := do
  let epoch ← storeCheckpointIf (decide (position ≤ cps.epoch.read)) cps.epoch (-1)
  let chaser ← storeCheckpointIf (decide (position < cps.chaser.read)) cps.chaser position
  let writer ← storeCheckpointIf (decide (position < cps.writer.read)) cps.writer position
  let truncate ← storeCheckpoint cps.truncate (-1)
  pure { writer, chaser, epoch, truncate }

/-- Cuts the chunk file found for a truncation position, giving the position the log is rolled
back to: a scavenged chunk cannot be cut, so it goes with every chunk after its start, and the
position moves back to its start. -/
def truncateTarget (cfg : DbConfig) (target : Option (ChunkHeader × String)) (newLast : Nat)
    (position : Int) : WorldM DbError Int := do
  let some (header, name) := target | pure position
  if header.isScavenged then
    for n in (List.range (newLast + 1)).reverse do
      if header.chunkStartNumber ≤ n then cfg.removeAllVersions n
    pure header.startPosition
  else
    cfg.truncateChunkFile header name position
    pure position

/-- Rolls the files back to `position`, giving the checkpoints after it. -/
def truncateFiles (cfg : DbConfig) (position : Int) : WorldM DbError Checkpoints := do
  let writer := cfg.checkpoints.writer.read
  let oldLast ← cfg.chunkNumberOf writer
  let newLast ← cfg.chunkNumberOf position
  let afterOld := Word.nextChunk oldLast
  if !(← cfg.versionsFor afterOld).isEmpty then fail (.extraneousChunk afterOld)
  let target ← cfg.findChunkFile newLast
  -- the chunks from the one after the target's down to the old last go; after the largest
  -- chunk number comes 0, and then every chunk goes
  for n in (List.range (oldLast + 1)).reverse do
    if Word.nextChunk newLast ≤ n then cfg.removeAllVersions n
  let position ← cfg.truncateTarget target newLast position
  clampCheckpoints cfg.checkpoints position

end DbConfig

end EventStore
