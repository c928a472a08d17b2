import EventStore.Store.Scavenging

/-!
# Reading chunk files in bulk

A bulk reader reads a chunk's file sequentially through a file handle of its own. It reads the
file's raw bytes, ending at the end of the file, or the data region only: never past the chunk's
data, and at its end only once the chunk is completed.
-/

namespace EventStore

/-- A sequential reader of one chunk's file. -/
structure BulkReader where
  /-- The handle of the chunk read. -/
  chunk : Nat
  /-- The reader's own open file. -/
  file : Nat
  /-- The next byte of the file to read. -/
  position : Nat := 0
  deriving Inhabited

/-- What one bulk read did: where it started (in the file, or in the data region), how many bytes
it read, and whether it reached the end. -/
structure BulkRead where
  oldPosition : Nat
  data : ByteArray
  isEof : Bool
  deriving Inhabited

namespace BulkReader

/-- Opens a reader on a chunk's file by its name. -/
def acquire (dir : String) (c : Chunk) : WorldM DbError BulkReader := do
  let file ← World.diskTry DbError.io fun d => (d.openFile dir c.name).map (d, ·)
  pure { chunk := c.handle, file }

/-- Moves to a byte of the file, which must exist. -/
def setRawPosition (r : BulkReader) (raw : Nat) : WorldM DbError BulkReader := do
  let len := (← World.currentDisk).size r.file
  if len ≤ raw then fail (.positionOutOfBounds raw len)
  pure { r with position := raw }

/-- Moves to a byte of the data region, which must lie in the file. -/
def setDataPosition (r : BulkReader) (dataPosition : Nat) : WorldM DbError BulkReader :=
  r.setRawPosition (dataPosition + chunkHeaderSize)

/-- Reads up to `len` bytes of the file; the end is reached with the file's last byte. -/
def readRaw (r : BulkReader) (len : Nat) : WorldM DbError (BulkRead × BulkReader) := do
  let d ← World.currentDisk
  let bs := d.readUpTo r.file r.position len
  let position := r.position + bs.size
  pure (⟨r.position, bs, d.size r.file == position⟩, { r with position })

/-- Reads up to `len` bytes of the data region of chunk `c`, never past its data; the end is
reached only at the end of a completed chunk's data. A reader left inside the header stops the
program. -/
def readData (r : BulkReader) (c : Chunk) (len : Nat) : WorldM DbError (BulkRead × BulkReader) := do
  let start := if r.position = 0 then chunkHeaderSize else r.position
  if start < chunkHeaderSize then stop
  let old := start - chunkHeaderSize
  let toRead := min (c.physicalDataSize - old) len
  let bs := (← World.currentDisk).readUpTo r.file start toRead
  let eof := c.isCompleted && old + bs.size == c.physicalDataSize
  pure (⟨old, bs, eof⟩, { r with position := start + bs.size })

end BulkReader

end EventStore
