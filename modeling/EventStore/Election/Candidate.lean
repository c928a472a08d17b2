import EventStore.Peer.Message

/-!
# Master candidates

A master candidate is a node together with how far its log has come. Candidates are ranked by
epoch number, last commit position, writer checkpoint, priority, chaser checkpoint and instance
identifier, in that order, higher being better.

A proposed master is good enough for a node when it is at least as far as the node itself: the
first of epoch number, commit position, writer and chaser checkpoints in which the two differ
decides, and a candidate equal in all four is good enough. Priority plays no part here.
-/

namespace EventStore

/-- A node as a master candidate. -/
structure Candidate where
  instanceId : Uuid
  internalTcp : SocketAddr
  progress : Candidacy
  deriving DecidableEq, Repr, Inhabited

namespace Candidate

/-- The candidate a `PrepareOk` offers. -/
def ofPrepareOk (m : PrepareOk) : Candidate := ⟨m.serverId, m.serverInternal, m.candidacy⟩

/-- The candidate a member snapshot describes. -/
def ofMember (m : Member) : Candidate :=
  ⟨m.instanceId, m.internalTcp, ⟨m.epochNumber, m.epochPosition, m.epochId, m.lastCommitPosition,
    m.writerCheckpoint, m.chaserCheckpoint, m.nodePriority⟩⟩

/-- The rank of a candidate, compared lexicographically; higher is better. -/
def rank (c : Candidate) : List Int :=
  [c.progress.epochNumber, c.progress.lastCommitPosition, c.progress.writerCheckpoint,
    c.progress.nodePriority, c.progress.chaserCheckpoint, c.instanceId.value]

/-- Lexicographic order on ranks of equal length. -/
def rankLt : List Int → List Int → Bool
  | a :: as, b :: bs => a < b || (a == b && rankLt as bs)
  | _, _ => false

/-- Whether `c` ranks strictly below `d`. -/
def ranksBelow (c d : Candidate) : Bool := rankLt c.rank d.rank

/-- Whether `candidate` is at least as far as `own`: the first differing measure of progress
decides. -/
def goodEnough (candidate own : Candidate) : Bool :=
  let c := candidate.progress
  let o := own.progress
  if c.epochNumber ≠ o.epochNumber then o.epochNumber < c.epochNumber
  else if c.lastCommitPosition ≠ o.lastCommitPosition then o.lastCommitPosition < c.lastCommitPosition
  else if c.writerCheckpoint ≠ o.writerCheckpoint then o.writerCheckpoint < c.writerCheckpoint
  else if c.chaserCheckpoint ≠ o.chaserCheckpoint then o.chaserCheckpoint < c.chaserCheckpoint
  else true

end Candidate

end EventStore
