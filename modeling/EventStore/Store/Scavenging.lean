import EventStore.Store.Epochs

/-!
# Scavenging

Scavenging merges the completed chunks covering exactly the chunk numbers `start` to `finish` into
one new scavenged chunk, keeping every system record and the data records a predicate accepts.
Records keep their log positions: the merged chunk's position map tells where each kept record's
frame lies. The merged chunk is built in a temporary file and switched in as the next version of
its first chunk number.

A position map entry holds the record's position relative to the range start and the offset its
frame was written at; a frame that does not fit the merged chunk is left out, its entry kept.
-/

namespace EventStore

/-- What a scavenging pass did. -/
structure ScavengeStats where
  recordsKept : Nat := 0
  recordsRemoved : Nat := 0
  oldDataSize : Nat := 0
  newDataSize : Nat := 0
  deriving DecidableEq, Repr, Inhabited

namespace Store

/-- The completed chunks covering exactly chunks `start` to `finish`, walked from chunk `n`. -/
def chunksInRange (start finish : Nat) : Nat → Nat → List Chunk → StoreM DbError (List Chunk)
  | 0, _, acc => pure acc.reverse
  | fuel + 1, n, acc => do
    if finish < n then return acc.reverse
    let some c ← getChunk n | fail (.invalidScavengeRange start finish)
    if c.header.chunkStartNumber ≠ n || finish < c.header.chunkEndNumber || !c.isCompleted then
      fail (.invalidScavengeRange start finish)
    chunksInRange start finish fuel (c.header.chunkEndNumber + 1) (c :: acc)

/-- Copies the records of positions `position` up to `rangeEnd` into the merged chunk, `fuel`
records at most. -/
def copyRecords (keep : Record → Bool) (rangeStart rangeEnd : Int) :
    Nat → Int → Chunk × List PosMapEntry × ScavengeStats →
      StoreM DbError (Chunk × List PosMapEntry × ScavengeStats)
  | 0, _, acc => pure acc
  | fuel + 1, position, (merged, m, stats) => do
    if rangeEnd ≤ position then return (merged, m, stats)
    let some (r, next) ← readForward position | return (merged, m, stats)
    if rangeEnd ≤ r.logPosition then return (merged, m, stats)
    if !r.isSystem && !keep r then
      return ← copyRecords keep rangeStart rangeEnd fuel next
        (merged, m, { stats with recordsRemoved := stats.recordsRemoved + 1 })
    let rel := r.logPosition - rangeStart
    if rel < 0 then stop
    let entry : PosMapEntry := ⟨rel.toNat, merged.physicalDataSize⟩
    let (_, merged) ← onWorld (merged.append r.framed.toByteArray)
    copyRecords keep rangeStart rangeEnd fuel next
      (merged, m ++ [entry], { stats with recordsKept := stats.recordsKept + 1 })

/-- Merges completed chunks `start` to `finish`, keeping system records and the data records
`keep` accepts. -/
def scavenge (start finish : Nat) (keep : Record → Bool) : StoreM DbError ScavengeStats := do
  if finish < start then fail (.invalidScavengeRange start finish)
  let chunks ← chunksInRange start finish (finish - start + 1) start []
  let cfg ← config
  let header ← onWorld (ChunkHeader.fresh cfg.chunkSize start finish true)
  let tempName ← onWorld DbConfig.newTempName
  let size ← onWorld (Chunk.activeFileSize header)
  let handle ← onWorld World.freshNat
  let merged ← onWorld (Chunk.createNew cfg.dir tempName header size handle)
  let stats : ScavengeStats := { oldDataSize := (chunks.map (·.physicalDataSize)).foldr (· + ·) 0 }
  let fuel := (header.endPosition - header.startPosition).toNat / frameOverhead + 2
  let (merged, m, stats) ←
    copyRecords keep header.startPosition header.endPosition fuel header.startPosition
      (merged, [], stats)
  let stats := { stats with newDataSize := merged.physicalDataSize }
  let _ ← onWorld (merged.completeWithMap m)
  let _ ← switchChunk tempName
  pure stats

end Store

end EventStore
