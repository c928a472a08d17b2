import EventStore.Service.Actor

/-!
# The storage chaser service

The chaser follows the flushed writer checkpoint record by record: everything behind the chaser
checkpoint was read back whole. Epoch records it finds that are newer than the node's newest epoch
(written by another node and replicated here) enter the epoch history. On a replica the position it
reaches is also the last commit position the node knows. After a truncation of the log it starts
again from the chaser checkpoint. When asked to, it reports once it has caught up with the writer.
-/

namespace EventStore

/-- The name the chaser reports itself by. -/
def StorageChaser.serviceName : String := "StorageChaser"

/-- The chaser's own state. -/
structure StorageChaser where
  state : NodeState := .initializing
  position : Int
  /-- The database generation the position belongs to. -/
  generation : Nat
  /-- The request to report catching up, if one waits. -/
  waiting : Option Uuid := none
  deriving Inhabited

namespace StorageChaser

/-- A chaser at the chaser checkpoint of a store. -/
def ofStore (s : Store) : StorageChaser :=
  { position := s.db.config.checkpoints.chaser.read, generation := s.db.generation }

/-- Reads records from the chaser position while they end at or before `writer`, moving the
position past each and caching new epochs. -/
def follow (writer : Int) : Nat → ActorM StorageChaser ServiceError Unit
  | 0 => pure ()
  | fuel + 1 => do
    let position := (← Actor.me).position
    if writer ≤ position then return
    let moveTo := fun (p : Int) => Actor.modifyMe fun c => { c with position := p }
    match ← Actor.onDb (Store.readForward position) with
    | some (r, next) =>
      if writer < next then return
      if let some e := r.epoch? then
        let isNew := (← Actor.onStore Store.lastEpoch).all (·.epochNumber < e.epochNumber)
        if isNew then Actor.onEpochs (Store.cacheEpoch e)
      moveTo next
      follow writer fuel
    | none =>
      match ← Actor.onStore (Store.getChunkFor position) with
      | some c =>
        if c.isCompleted && c.endPosition ≤ writer then
          moveTo c.endPosition
          follow writer fuel
      | none => pure ()

/-- One pass: reads everything the writer made durable. -/
def chase : ActorM StorageChaser ServiceError Unit := do
  let s ← get
  if s.store.db.generation ≠ s.self.generation then
    Actor.modifyMe fun c => { c with generation := s.store.db.generation,
                                     position := s.store.db.config.checkpoints.chaser.read }
  let writer := (← Actor.onStore Store.checkpoints).writer.read
  let start := (← Actor.me).position
  let fuel ← Actor.onStore Store.recordBound
  follow writer (fuel + (← Actor.onStore Store.chunkList).length)
  let reached := (← Actor.me).position
  if start ≠ reached then
    Actor.onStore (Store.modifyCheckpoints fun c => { c with chaser := c.chaser.write reached })
    Actor.onStore (Store.flushCheckpointOf (·.chaser) fun c x => { c with chaser := x })
    let st := (← Actor.me).state
    if st.isReplica || st = .preReplica then Actor.onStore (Store.raiseCommit reached)
  if let some corr := (← Actor.me).waiting then
    if writer ≤ reached then
      Actor.modifyMe fun c => { c with waiting := none }
      Actor.publish (.system (.chaserCaughtUp corr))

/-- Handles one message; false once the chaser is done. -/
def handle (msg : Message) : ActorM StorageChaser ServiceError Bool := do
  match msg with
  | .system .systemInit => Actor.publish (.system (.serviceInitialized serviceName))
  | .system (.becomeShuttingDown _ _) =>
    Actor.onStore (Store.flushCheckpointOf (·.chaser) fun c x => { c with chaser := x })
    Actor.publish (.system (.serviceShutdown serviceName))
    return false
  | .system (.waitForChaserToCatchUp corr _) =>
    Actor.modifyMe fun c => { c with waiting := some corr }
    chase
  | .system m => if let some st := m.newState? then Actor.modifyMe fun c => { c with state := st }
  | _ => pure ()
  pure true

end StorageChaser

end EventStore
