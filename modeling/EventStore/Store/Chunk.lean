import EventStore.Store.World
import EventStore.Chunk.Header
import EventStore.Log.Record
import EventStore.Hash.Sha256

/-!
# Chunk files

A chunk file is a header, a data region of framed records, a position map (scavenged chunks only)
and, once completed, a footer. An active chunk is one still being written: it keeps the offset of
the next write and the running SHA-256 of everything written to its file so far, and its file has
the full size of header, data region and footer. Completing a chunk writes the position map and the
footer, whose hash covers everything before it, and cuts the file to its final size.

Each opened chunk carries a handle, distinct from that of any other opened in the run, which tells
whether two references are to the same open chunk.
-/

namespace EventStore

/-- The write side of an active chunk: where the next write goes, and the hash of everything
written so far. -/
structure ChunkWork where
  position : Nat
  hasher : Sha256
  deriving Inhabited

/-- An open chunk. -/
structure Chunk where
  handle : Nat
  /-- The file name, in the database directory. -/
  name : String
  header : ChunkHeader
  /-- The open file. -/
  file : Nat
  footer : Option ChunkFooter := none
  posMap : List PosMapEntry := []
  physicalDataSize : Nat := 0
  /-- Present while the chunk is active. -/
  work : Option ChunkWork := none
  deriving Inhabited

/-- Reads a byte string. -/
def Bytes.ofByteArray (b : ByteArray) : Bytes := b.toList

/-- A byte string as a byte array. -/
def Bytes.toByteArray (b : Bytes) : ByteArray := ⟨b.toArray⟩

namespace Chunk

/-- The data capacity of a chunk; a reversed range stops the program. -/
def capacityOf {ε : Type} (h : ChunkHeader) : WorldM ε Nat :=
  h.capacity?.elim stop pure

/-- The file size of an active chunk: header, full data region and footer. -/
def activeFileSize {ε : Type} (h : ChunkHeader) : WorldM ε Nat := do
  pure (chunkHeaderSize + (← capacityOf h) + chunkHeaderSize)

/-- Whether the chunk was completed. -/
def isCompleted (c : Chunk) : Bool := c.footer.isSome

/-- The first log position of the chunk. -/
def startPosition (c : Chunk) : Int := c.header.startPosition

/-- The log position past the chunk. -/
def endPosition (c : Chunk) : Int := c.header.endPosition

/-- Appends bytes at the write position of an active chunk's file, hashing them. -/
def appendData (file : Nat) (w : ChunkWork) (bs : ByteArray) : WorldM DbError ChunkWork := do
  World.onDisk (·.write file w.position bs)
  pure { position := w.position + bs.size, hasher := w.hasher.update bs }

/-- The SHA-256 of bytes `start` to `finish` of a file; the file must hold them. -/
def hashRange (file start finish : Nat) (h : Sha256) : WorldM DbError Sha256 := do
  let d ← World.currentDisk
  match d.readExact file start (finish - start) with
  | .ok bs => pure (h.update bs)
  | .error e => fail (.io e)

/-- Creates an empty active chunk file of `fileSize` bytes holding the header. -/
def createNew (dir name : String) (header : ChunkHeader) (fileSize : Nat) (handle : Nat) :
    WorldM DbError Chunk := do
  let file ← World.diskTry DbError.io (·.create dir name)
  World.onDisk (·.setSize file fileSize)
  let w ← appendData file { position := 0, hasher := {} } header.encode.toByteArray
  pure { handle, name, header, file, work := some w }

/-- Reads the header of an open file. -/
def readHeaderOf (file : Nat) (name : String) : WorldM DbError ChunkHeader := do
  let d ← World.currentDisk
  match d.readExact file 0 chunkHeaderSize with
  | .error e => fail (.io e)
  | .ok bs =>
    match ChunkHeader.decode.run (Bytes.ofByteArray bs) with
    | .ok (h, _) => pure h
    | .error e => fail (.badChunkHeader name e)

/-- Reads just the header of a chunk file. -/
def readHeader (dir name : String) : WorldM DbError ChunkHeader := do
  let file ← World.diskTry DbError.io fun d => (d.openFile dir name).map (d, ·)
  if (← World.currentDisk).size file < chunkHeaderSize then fail (.chunkFileTruncated name)
  readHeaderOf file name

/-- The footer at the end of a file, if it has one marking it completed. -/
def tryReadFooter (file len : Nat) : WorldM DbError (Option ChunkFooter) := do
  if len < chunkHeaderSize + chunkHeaderSize then return none
  let d ← World.currentDisk
  match d.readExact file (len - chunkHeaderSize) chunkHeaderSize with
  | .error e => fail (.io e)
  | .ok bs =>
    match ChunkFooter.decode.run (Bytes.ofByteArray bs) with
    | .ok (f, _) => pure (if f.isCompleted then some f else none)
    | .error _ => pure none

/-- Reads a position map of `mapSize` bytes at `offset`. -/
def readPosMap (file offset mapSize : Nat) : WorldM DbError (List PosMapEntry) := do
  if mapSize = 0 then return []
  let d ← World.currentDisk
  match d.readExact file offset mapSize with
  | .error e => fail (.io e)
  | .ok bs =>
    match PosMapEntry.decodeAll (Bytes.ofByteArray bs) with
    | .ok m => pure m
    | .error e => fail (.badPosMap e)

/-- Opens a chunk file. A completed one must have the size its footer implies; one without a valid
footer is opened for writing with `activeDataSize` bytes of data, or refused when that is absent,
when it is scavenged, or when the data would not fit. -/
def openExisting (dir name : String) (activeDataSize : Option Nat) (handle : Nat) :
    WorldM DbError Chunk := do
  let file ← World.diskTry DbError.io fun d => (d.openFile dir name).map (d, ·)
  let len := (← World.currentDisk).size file
  if len < chunkHeaderSize then fail (.chunkFileTruncated name)
  let header ← readHeaderOf file name
  match ← tryReadFooter file len with
  | some footer =>
    let mapStart := chunkHeaderSize + footer.physicalDataSize
    if mapStart + footer.mapSize + chunkHeaderSize ≠ len then fail (.chunkFileTruncated name)
    let posMap ← readPosMap file mapStart footer.mapSize
    pure { handle, name, header, file, footer := some footer, posMap,
           physicalDataSize := footer.physicalDataSize }
  | none =>
    let some dataSize := activeDataSize | fail (.chunkNotCompleted name)
    if header.isScavenged then fail (.chunkNotCompleted name)
    if (← capacityOf header) < dataSize then fail (.chunkNotCompleted name)
    let position := chunkHeaderSize + dataSize
    let expected ← activeFileSize header
    if len ≠ expected then World.onDisk (·.setSize file expected)
    let hasher ← hashRange file 0 position {}
    pure { handle, name, header, file, physicalDataSize := dataSize,
           work := some { position, hasher } }

/-- Appends framed records to the data region; `false` if they do not fit. -/
def append (c : Chunk) (data : ByteArray) : WorldM DbError (Bool × Chunk) := do
  let some w := c.work | fail (.chunkReadOnly c.name)
  if (← capacityOf c.header) < c.physicalDataSize + data.size then return (false, c)
  let w ← appendData c.file w data
  pure (true, { c with work := some w, physicalDataSize := c.physicalDataSize + data.size })

/-- The bytes of a position map. -/
def posMapBytes (m : List PosMapEntry) : ByteArray :=
  (m.flatMap PosMapEntry.encode).toByteArray

/-- Seals an active chunk: writes the position map and the footer and cuts the file after it.
Sizes that do not fit the footer's 32-bit fields stop the program once the map is written. -/
def completeWithMap (c : Chunk) (m : List PosMapEntry) : WorldM DbError (ChunkFooter × Chunk) := do
  let some w := c.work | fail (.chunkReadOnly c.name)
  let mapBytes := posMapBytes m
  let w ← appendData c.file w mapBytes
  -- the footer holds the data and map sizes as 32-bit numbers; larger ones stop the program
  if Nat.pow 2 32 ≤ c.physicalDataSize ∨ Nat.pow 2 32 ≤ mapBytes.size then stop
  let flags := if c.header.isScavenged then ChunkFooter.completedFlag + ChunkFooter.scavengedFlag
    else ChunkFooter.completedFlag
  let footer : ChunkFooter :=
    { flags, physicalDataSize := c.physicalDataSize,
      logicalDataSize := if c.header.isScavenged then Word.pos (c.endPosition - c.startPosition)
        else c.physicalDataSize,
      mapSize := mapBytes.size, hash := Bytes.ofByteArray w.hasher.finish }
  World.onDisk (·.write c.file w.position footer.encode.toByteArray)
  World.onDisk (·.setSize c.file (w.position + chunkHeaderSize))
  pure (footer, { c with work := none, footer := some footer })

/-- Seals an active chunk without a position map. -/
def complete (c : Chunk) : WorldM DbError (ChunkFooter × Chunk) := c.completeWithMap []

/-- Checks the footer's hash against the file; a chunk without footer passes. -/
def verifyHash (c : Chunk) : WorldM DbError Unit := do
  let some footer := c.footer | pure ()
  let h ← hashRange c.file 0 (chunkHeaderSize + footer.physicalDataSize + footer.mapSize) {}
  if Bytes.ofByteArray h.finish ≠ footer.hash then fail (.hashMismatch c.name)

/-- The record whose frame starts at offset `physical` of the data region, with the frame's length,
or none if no whole frame is stored there. -/
def readFrame (c : Chunk) (physical : Nat) : WorldM DbError (Option (Record × Nat)) := do
  let dataSize := c.physicalDataSize
  if dataSize < physical + frameOverhead then return none
  let filePos := chunkHeaderSize + physical
  let position := c.startPosition + physical
  let d ← World.currentDisk
  let pfx ← match d.readExact c.file filePos 4 with
    | .ok bs => pure bs
    | .error e => fail (.io e)
  let bodyLen ← match Record.frameBodyLen (Bytes.ofByteArray pfx) with
    | .ok n => pure n
    | .error e => fail (.corruptRecord position e)
  let frameLen := bodyLen + frameOverhead
  if dataSize < physical + frameLen then return none
  let frame ← match d.readExact c.file filePos frameLen with
    | .ok bs => pure bs
    | .error e => fail (.io e)
  match Record.readFramed (Bytes.ofByteArray frame) with
  | .ok r => pure (some (r, frameLen))
  | .error e => fail (.corruptRecord position e)

/-- Where the first record at or after a position relative to the chunk start is stored: its
relative position and its offset in the data region. -/
def locate (c : Chunk) (localLogical : Nat) : Option (Nat × Nat) :=
  if !c.header.isScavenged then some (localLogical, localLogical)
  else (c.posMap.find? fun e => localLogical ≤ e.logPos).map fun e => (e.logPos, e.actualPos)

end Chunk

end EventStore
