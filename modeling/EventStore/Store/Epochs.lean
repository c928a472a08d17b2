import EventStore.Store.Writer

/-!
# The epoch history

Every master writes an epoch record at the start of its term. Epoch records form a list linked
backward through their previous-epoch positions, and the epoch checkpoint points at the newest.
A node caches the most recent epochs, oldest first; older ones are found by following the links
through the log.

The cache is rebuilt from the epoch checkpoint, or, when the checkpoint was lost, by scanning the
log below the writer checkpoint (the checkpoint is then restored). A new epoch must come after the
newest one in both number and position.
-/

namespace EventStore

namespace Store

/-- The cached epochs, oldest first. -/
def cachedEpochs {ε : Type} : StoreM ε (List Epoch) := do
  pure (← get).epochs.epochs

/-- Replaces the cached epochs. -/
def setCachedEpochs {ε : Type} (es : List Epoch) : StoreM ε Unit :=
  modify fun s => { s with epochs.epochs := es }

/-- Keeps the newest `n` of a list ordered oldest first. -/
def keepNewest {α : Type} (n : Nat) (xs : List α) : List α := xs.drop (xs.length - n)

/-- The epoch whose record starts at `position`. -/
def readEpochAt (position : Int) : StoreM EpochError Epoch := do
  let r ← ExceptT.wrap EpochError.db (readRecordAt position)
  match r.epoch? with
  | some e => pure e
  | none => fail (.notAnEpoch position)

/-- How many records the log below the writer checkpoint can hold at most: a bound for walks over
records. -/
def recordBound {ε : Type} : StoreM ε Nat := do
  let cfg ← config
  pure ((cfg.checkpoints.writer.read.toNat + cfg.chunkSize) / frameOverhead + 2)

/-- Follows epoch links back from `position`, collecting epochs newest last, until `room` of them
are collected or the links end. -/
def epochChain (position : Int) (room : Nat) (acc : List Epoch) : StoreM EpochError (List Epoch) :=
  match room with
  | 0 => pure acc
  | room + 1 => do
    if position < 0 then return acc
    let e ← readEpochAt position
    epochChain e.prevEpochPosition room (e :: acc)

/-- The epoch records below the writer checkpoint, newest `cacheSize` of them, scanning from
position `position` with `fuel` records to go. -/
def scanEpochs (writer : Int) (cacheSize : Nat) :
    Nat → Int → List Epoch → StoreM EpochError (List Epoch)
  | 0, _, acc => pure acc
  | fuel + 1, position, acc => do
    match ← ExceptT.wrap EpochError.db (readForward position) with
    | none => pure acc
    | some (r, next) =>
      if writer ≤ r.logPosition then return acc
      let acc := match r.epoch? with
        | some e => keepNewest cacheSize (acc ++ [e])
        | none => acc
      scanEpochs writer cacheSize fuel next acc

/-- Writes and flushes the epoch checkpoint. -/
def storeEpochCheckpoint {ε : Type} (position : Int) : StoreM ε Unit := do
  modifyCheckpoints fun c => { c with epoch := c.epoch.write position }
  flushCheckpointOf (·.epoch) fun c x => { c with epoch := x }

/-- Rebuilds the cache from the log. -/
def reloadEpochs : StoreM EpochError Unit := do
  let cps ← checkpoints
  let size := (← get).epochs.cacheSize
  let es ← if 0 ≤ cps.epoch.read then epochChain cps.epoch.read size []
    else if 0 < cps.writer.read then do
      let es ← scanEpochs cps.writer.read size (← recordBound) 0 []
      if let some last := es.getLast? then storeEpochCheckpoint last.epochPosition
      pure es
    else pure []
  setCachedEpochs es

/-- The newest epoch. -/
def lastEpoch {ε : Type} : StoreM ε (Option Epoch) := do
  pure (← cachedEpochs).getLast?

/-- Up to `count` most recent epochs, newest first. -/
def lastEpochs {ε : Type} (count : Nat) : StoreM ε (List Epoch) := do
  pure ((← cachedEpochs).reverse.take count)

/-- Walks epoch links back from `position` for the epoch numbered `number`, giving up at an older
one. -/
def findEpochBack (number : Int) : Nat → Int → StoreM EpochError (Option Epoch)
  | 0, _ => pure none
  | fuel + 1, position => do
    if position < 0 then return none
    let e ← readEpochAt position
    if e.epochNumber = number then return some e
    if e.epochNumber < number then return none
    findEpochBack number fuel e.prevEpochPosition

/-- The epoch numbered `number`, read from the log when it is older than the cache. -/
def epochNumbered (number : Int) : StoreM EpochError (Option Epoch) := do
  let es ← cachedEpochs
  if let some e := es.find? (·.epochNumber = number) then return some e
  match es.head? with
  | some oldest =>
    if number < oldest.epochNumber then
      findEpochBack number (← recordBound) oldest.prevEpochPosition
    else pure none
  | none => pure none

/-- Walks epoch links back from `position` while the epochs are newer than `number`, giving the
oldest such epoch. -/
def epochAfterBack (number : Int) : Nat → Int → Epoch → StoreM EpochError Epoch
  | 0, _, after => pure after
  | fuel + 1, position, after => do
    if position < 0 then return after
    let e ← readEpochAt position
    if e.epochNumber ≤ number then return after
    epochAfterBack number fuel e.prevEpochPosition e

/-- The epoch right after the epoch numbered `number`. -/
def epochAfter (number : Int) : StoreM EpochError (Option Epoch) := do
  let es ← cachedEpochs
  if let some e := es.find? (number < ·.epochNumber) then
    if es.head?.all (·.epochNumber ≤ number) then return some e
  match es.head? with
  | some oldest =>
    if number < oldest.epochNumber then
      some <$> epochAfterBack number (← recordBound) oldest.prevEpochPosition oldest
    else pure none
  | none => pure none

/-- Whether the history has an epoch with this number and identifier. -/
def isKnownEpoch (number : Int) (id : Uuid) : StoreM EpochError Bool := do
  pure ((← epochNumbered number).any (·.epochId = id))

/-- Records an epoch that is in the log; caching the newest epoch again changes nothing. -/
def cacheEpoch (e : Epoch) : StoreM EpochError Unit := do
  let es ← cachedEpochs
  if let some last := es.getLast? then
    if last = e then return
    if e.epochNumber ≤ last.epochNumber || e.epochPosition ≤ last.epochPosition then
      fail (.outOfOrder e.epochNumber e.epochPosition last.epochNumber last.epochPosition)
  setCachedEpochs (keepNewest (← get).epochs.cacheSize (es ++ [e]))
  storeEpochCheckpoint e.epochPosition

/-- Writes a new epoch record at the writer position, led by `leader`. Epoch numbers are 32-bit
words: the number after the largest is the smallest, and such an epoch does not follow the last. -/
def writeNewEpoch (leader : Uuid) : StoreM EpochError Epoch := do
  let last ← lastEpoch
  let number := last.elim 0 fun e => Word.signed 32 (e.epochNumber + 1)
  let prev := last.elim (-1) (·.epochPosition)
  let id ← onWorld World.freshId
  let make := fun (p : Int) => (⟨p, number, id, prev, wallClock, leader⟩ : Epoch)
  let (start, _) ← ExceptT.wrap EpochError.db (writeRecord fun p => (make p).toRecord)
  flushWriter
  let e := make start
  cacheEpoch e
  pure e

/-- Forgets the epochs at or past `position` after a truncation; if that forgets all of them the
cache is rebuilt from the log. -/
def epochsTruncated (position : Int) : StoreM EpochError Unit := do
  let es ← cachedEpochs
  let kept := es.filter (·.epochPosition < position)
  setCachedEpochs kept
  if kept.isEmpty && !es.isEmpty then return ← reloadEpochs
  if let some last := kept.getLast? then
    if (← checkpoints).epoch.read ≠ last.epochPosition then storeEpochCheckpoint last.epochPosition

/-- Raises the last commit position. -/
def raiseCommit {ε : Type} (position : Int) : StoreM ε Unit :=
  modify fun s => { s with lastCommit := max s.lastCommit position }

/-- Lowers the last commit position after a truncation. -/
def lowerCommit {ε : Type} (position : Int) : StoreM ε Unit :=
  modify fun s => { s with lastCommit := min s.lastCommit position }

end Store

end EventStore
