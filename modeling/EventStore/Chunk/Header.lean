import EventStore.Codec.Decoder
import EventStore.Word

/-!
# Chunk headers, footers and position maps

The log is stored in chunk files of a fixed data size. A chunk file is a 128-byte header, the data
region, a position map (only in scavenged chunks) and, once the chunk is completed, a 128-byte
footer.

A header names the range of chunk numbers the file covers; a scavenged chunk covers several. The
chunk numbered `n` holds log positions from `n * chunkSize` on, so a header covering `start` to
`end` spans positions `start * chunkSize` up to `(end + 1) * chunkSize`. Positions are 64-bit
words: for the largest numbers and sizes these products wrap, and a span that wraps below zero
has no capacity.

A footer records the flags, the data actually stored, the span of positions covered, the size of
the position map and the SHA-256 hash of everything before the footer. A position map entry maps a
record's position, relative to the chunk start, to where its frame lies in the data region.
-/

namespace EventStore

/-- The header of a chunk file. -/
structure ChunkHeader where
  version : Nat
  chunkSize : Nat
  chunkStartNumber : Nat
  chunkEndNumber : Nat
  isScavenged : Bool
  chunkId : Uuid
  creationTime : Int
  deriving DecidableEq, Repr, Inhabited

/-- The footer of a completed chunk file. -/
structure ChunkFooter where
  flags : Nat
  physicalDataSize : Nat
  logicalDataSize : Int
  mapSize : Nat
  hash : Bytes
  deriving DecidableEq, Repr, Inhabited

/-- Where a record of a scavenged chunk lies: its position relative to the chunk start, and the
offset of its frame in the data region. -/
structure PosMapEntry where
  logPos : Nat
  actualPos : Nat
  deriving DecidableEq, Repr, Inhabited

/-- The size of a header and of a footer. -/
def chunkHeaderSize : Nat := 128

/-- The size of a position map entry. -/
def posMapEntrySize : Nat := 12

namespace ChunkHeader

/-- The marker a header starts with: `EVCH`. -/
def marker : Bytes := [0x45, 0x56, 0x43, 0x48]

/-- The version headers are written with. -/
def currentVersion : Nat := 1

/-- The first log position the chunk holds. -/
def startPosition (h : ChunkHeader) : Int := Word.pos (h.chunkStartNumber * h.chunkSize)

/-- The log position just past the last one the chunk can hold. -/
def endPosition (h : ChunkHeader) : Int := Word.pos ((h.chunkEndNumber + 1) * h.chunkSize)

/-- A log position relative to the chunk start. -/
def localPosition (h : ChunkHeader) (global : Int) : Int := Word.pos (global - h.startPosition)

/-- A position relative to the chunk start as a log position. -/
def globalPosition (h : ChunkHeader) (loc : Int) : Int := Word.pos (h.startPosition + loc)

/-- Whether the chunk covers a chunk number. -/
def covers (h : ChunkHeader) (n : Nat) : Bool := h.chunkStartNumber ≤ n && n ≤ h.chunkEndNumber

/-- The data capacity of the chunk, if its range is not reversed. -/
def capacity? (h : ChunkHeader) : Option Nat :=
  let span := Word.pos (h.endPosition - h.startPosition)
  if 0 ≤ span then some span.toNat else none

/-- The size of an active chunk's file: header, full data region, room for a footer. -/
def activeFileSize? (h : ChunkHeader) : Option Nat :=
  h.capacity?.map (chunkHeaderSize + · + chunkHeaderSize)

/-- The binary form, 128 bytes. -/
def encode (h : ChunkHeader) : Bytes :=
  marker ++ [UInt8.ofNat h.version] ++ Bytes.ofNat 4 h.chunkSize ++
    Bytes.ofNat 4 h.chunkStartNumber ++ Bytes.ofNat 4 h.chunkEndNumber ++
    [if h.isScavenged then 1 else 0] ++ Bytes.ofUuid h.chunkId ++ Bytes.ofInt 8 h.creationTime ++
    List.replicate 86 0

/-- Reads a header; its version may not be zero. -/
def decode : Decoder ChunkHeader := do
  Decoder.magic marker
  let version ← Decoder.u8
  if version = 0 then Decoder.fail (.assertion "assertion failed: `version != 0`")
  let chunkSize ← Decoder.u32
  let chunkStartNumber ← Decoder.u32
  let chunkEndNumber ← Decoder.u32
  let isScavenged ← Decoder.flag
  let chunkId ← Decoder.uuid
  let creationTime ← Decoder.i64
  Decoder.skip 86
  pure ⟨version, chunkSize, chunkStartNumber, chunkEndNumber, isScavenged, chunkId, creationTime⟩

end ChunkHeader

namespace ChunkFooter

/-- The marker a footer starts with: `EVCF`. -/
def marker : Bytes := [0x45, 0x56, 0x43, 0x46]

/-- The flag of a completed chunk. -/
def completedFlag : Nat := 1

/-- The flag of a scavenged chunk. -/
def scavengedFlag : Nat := 2

/-- Whether the footer marks the chunk completed. -/
def isCompleted (f : ChunkFooter) : Bool := f.flags % 2 = 1

/-- Whether the footer marks the chunk scavenged. -/
def isScavenged (f : ChunkFooter) : Bool := f.flags / 2 % 2 = 1

/-- The binary form, 128 bytes. -/
def encode (f : ChunkFooter) : Bytes :=
  marker ++ [UInt8.ofNat f.flags] ++ Bytes.ofNat 4 f.physicalDataSize ++
    Bytes.ofInt 8 f.logicalDataSize ++ Bytes.ofNat 4 f.mapSize ++ f.hash ++ List.replicate 75 0

/-- Reads a footer. -/
def decode : Decoder ChunkFooter := do
  Decoder.magic marker
  let flags ← Decoder.u8
  let physicalDataSize ← Decoder.u32
  let logicalDataSize ← Decoder.i64
  let mapSize ← Decoder.u32
  let hash ← Decoder.take 32
  Decoder.skip 75
  pure ⟨flags, physicalDataSize, logicalDataSize, mapSize, hash⟩

end ChunkFooter

namespace PosMapEntry

/-- The binary form, twelve bytes. -/
def encode (e : PosMapEntry) : Bytes := Bytes.ofNat 8 e.logPos ++ Bytes.ofNat 4 e.actualPos

/-- Reads an entry. -/
def decode : Decoder PosMapEntry := do
  let logPos ← Decoder.u64
  let actualPos ← Decoder.u32
  pure ⟨logPos, actualPos⟩

/-- Reads entries until the bytes end, with fuel for one entry per byte. -/
def decodeAll (bs : Bytes) : Except DecodeError (List PosMapEntry) :=
  go bs.length bs []
where
  /-- The entries of `bs`, after those already read (reversed in `acc`). -/
  go : Nat → Bytes → List PosMapEntry → Except DecodeError (List PosMapEntry)
    | 0, _, acc => .ok acc.reverse
    | fuel + 1, bs, acc =>
      if bs.isEmpty then .ok acc.reverse
      else
        match decode.run bs with
        | .ok (e, rest) => go fuel rest (e :: acc)
        | .error err => .error err

end PosMapEntry

end EventStore
