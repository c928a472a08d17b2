import EventStore.Bus.Message

/-!
# Commit tracking

A master counts a client write as committed once the master and enough slave replicas have it
durable to form a majority of the cluster (`quorum`, more than half of `clusterSize`). The commit
position is the highest position that a quorum has reached: with the master's position and every
slave's acknowledged position sorted from highest, the entry at `quorum - 1`. It never moves back.

Pending writes wait in write order, so they complete, and time out, from the front. Times are in
milliseconds on the clock the caller gives.
-/

namespace EventStore

/-- A client write stored on the master, waiting for the commit quorum. -/
structure PendingWrite where
  correlationId : Uuid
  envelope : Envelope
  firstPosition : Int
  endPosition : Int
  /-- When the write times out. -/
  deadline : Nat
  deriving DecidableEq, Repr, Inhabited

/-- Quorum commit bookkeeping of a master. -/
structure CommitTracker where
  clusterSize : Nat
  commitTimeoutMs : Nat
  masterPosition : Int := -1
  /-- The durable position of every slave, by subscription. -/
  acks : List (Uuid × Int) := []
  /-- In write order. -/
  pending : List PendingWrite := []
  commitPosition : Int := -1
  deriving Repr, Inhabited

namespace CommitTracker

/-- How many of the cluster make a majority. -/
def quorum (t : CommitTracker) : Nat := t.clusterSize / 2 + 1

/-- How many slaves count toward the quorum. -/
def slaveCount (t : CommitTracker) : Nat := t.acks.length

/-- Adds a write stored at `now`. -/
def addPending (t : CommitTracker) (correlationId : Uuid) (envelope : Envelope)
    (firstPosition endPosition : Int) (now : Nat) : CommitTracker :=
  { t with pending := t.pending ++
      [{ correlationId, envelope, firstPosition, endPosition, deadline := now + t.commitTimeoutMs }] }

/-- The commit position after taking the current positions into account. -/
def recompute (t : CommitTracker) : CommitTracker :=
  let positions := (t.masterPosition :: t.acks.map (·.2)).mergeSort (fun a b => b ≤ a)
  match positions[t.quorum - 1]? with
  | some p => { t with commitPosition := max t.commitPosition p }
  | none => t

/-- The master made its log durable up to `position`. -/
def masterFlushed (t : CommitTracker) (position : Int) : CommitTracker :=
  recompute { t with masterPosition := max t.masterPosition position }

/-- A slave made its log durable up to `position`. -/
def replicaAcked (t : CommitTracker) (subscription : Uuid) (position : Int) : CommitTracker :=
  let acks := match t.acks.find? (·.1 = subscription) with
    | some _ => t.acks.map fun (s, p) => if s = subscription then (s, max p position) else (s, p)
    | none => t.acks ++ [(subscription, max (-1) position)]
  recompute { t with acks }

/-- A replica starts counting toward the quorum. -/
def addSlave (t : CommitTracker) (subscription : Uuid) (position : Int) : CommitTracker :=
  t.replicaAcked subscription position

/-- A replica stops counting toward the quorum. -/
def removeSlave (t : CommitTracker) (subscription : Uuid) : CommitTracker :=
  { t with acks := t.acks.filter (·.1 ≠ subscription) }

/-- The writes now committed, taken from the front. -/
def takeCommitted (t : CommitTracker) : List PendingWrite × CommitTracker :=
  let done := t.pending.takeWhile (·.endPosition ≤ t.commitPosition)
  (done, { t with pending := t.pending.drop done.length })

/-- The writes whose timeout passed by `now`, taken from the front. -/
def takeTimedOut (t : CommitTracker) (now : Nat) : List PendingWrite × CommitTracker :=
  let late := t.pending.takeWhile (·.deadline ≤ now)
  (late, { t with pending := t.pending.drop late.length })

/-- Forgets the slaves and the master position, giving back the writes still pending. -/
def reset (t : CommitTracker) : List PendingWrite × CommitTracker :=
  (t.pending, { t with acks := [], masterPosition := -1, pending := [] })

end CommitTracker

end EventStore
