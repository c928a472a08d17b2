import EventStore.Election.Candidate
import EventStore.Bus.Message
import EventStore.Cluster.Node

/-!
# The elections service

Each node runs an elections service that agrees with the others on a master, view by view. A view
has a leader, the server at position `view mod n` of the alive servers sorted by internal address,
highest first. A round goes:

1. a node that starts elections (or times out) votes `ViewChange` for the next view and sends the
   vote to every other server; a node that sees a vote for a later view joins it;
2. when the leader of the attempted view holds a majority of votes it installs the view and asks
   the others to `Prepare`; each answers `PrepareOk` with its own progress as a candidate;
3. with a majority of candidates the leader proposes the best ranked one (or the master elected
   last, while it is still known); the proposal counts as the leader's accept;
4. a non-leader accepts a legitimate proposal and tells everybody; a node that sees a majority of
   accepts for the proposed master in its installed view publishes `ElectionsDone`.

A majority is `clusterSize / 2 + 1`. Views are 32-bit numbers that wrap: the view after the
largest is the smallest, which no server leads and which is never newer than an installed view.
-/

namespace EventStore

/-- Where a node is in the election protocol. -/
inductive ElectionPhase where
  | idle
  | electingLeader
  | leader
  | nonLeader
  | shutdown
  deriving DecidableEq, Repr, Inhabited

/-- The name of a phase. -/
def ElectionPhase.name : ElectionPhase → String
  | .idle => "Idle"
  | .electingLeader => "ElectingLeader"
  | .leader => "Leader"
  | .nonLeader => "NonLeader"
  | .shutdown => "Shutdown"

/-- The fixed parameters of a node's elections. -/
structure ElectionConfig where
  node : NodeInfo
  clusterSize : Nat
  progressTimeoutMs : Nat := 1000
  proofIntervalMs : Nat := 5000
  deriving Repr, Inhabited

/-- The state of a node's elections. -/
structure Elections where
  phase : ElectionPhase := .idle
  lastAttemptedView : Int := -1
  lastInstalledView : Int := -1
  /-- The servers that voted for the attempted view. -/
  viewChanges : List Uuid := []
  /-- The candidates that answered `Prepare` in the attempted view. -/
  prepareOks : List Candidate := []
  /-- The servers that accepted the proposal. -/
  accepts : List Uuid := []
  proposal : Option Candidate := none
  master : Option Uuid := none
  lastElected : Option Uuid := none
  /-- Alive servers, sorted by internal address, highest first. -/
  servers : List Member
  deriving Repr, Inhabited

/-- The largest view. -/
def maxView : Int := Int.pow 2 31 - 1

/-- The smallest view. -/
def minView : Int := -Int.pow 2 31

/-- The view after `v`, wrapping from the largest view to the smallest. -/
def nextView (v : Int) : Int := if v = maxView then minView else v + 1

namespace Elections

/-- A fresh service: idle, knowing only its own snapshot. -/
def init (cfg : ElectionConfig) (p : Progress) (now : Int) : Elections :=
  { servers := [cfg.node.memberInfo .initializing true p now] }

/-- The number of servers that make a majority. -/
def majority (cfg : ElectionConfig) : Nat := cfg.clusterSize / 2 + 1

/-- A handler's state: the service and what it published so far. -/
structure Round where
  s : Elections
  out : Array Message

/-- An election handler. -/
abbrev Handler := StateM Round

/-- Publishes a message. -/
def publish (m : Message) : Handler Unit := modify fun r => { r with out := r.out.push m }

/-- Reads the service. -/
def get' : Handler Elections := do pure (← get).s

/-- Updates the service. -/
def update (f : Elections → Elections) : Handler Unit := modify fun r => { r with s := f r.s }

/-- Sends a peer message to every server but this node, in server order. -/
def sendToOthers (cfg : ElectionConfig) (m : PeerMessage) : Handler Unit := do
  let s ← get'
  for srv in s.servers do
    if srv.instanceId ≠ cfg.node.instanceId then publish (.peerSend srv.internalTcp m)

/-- Whether a server is known. -/
def isKnown (s : Elections) (id : Uuid) : Bool := s.servers.any (·.instanceId == id)

/-- Whether this node leads a view. -/
def isLeaderOf (cfg : ElectionConfig) (s : Elections) (view : Int) : Bool :=
  if s.servers.isEmpty ∨ view < 0 then false
  else
    match s.servers[view.toNat % s.servers.length]? with
    | some srv => srv.instanceId == cfg.node.instanceId
    | none => false

/-- This node as a candidate, from its progress. -/
def ownCandidate (cfg : ElectionConfig) (p : Progress) : Candidate :=
  ⟨cfg.node.instanceId, cfg.node.internalTcp,
    ⟨(p.lastEpoch.map (·.epochNumber)).getD (-1), (p.lastEpoch.map (·.epochPosition)).getD (-1),
      (p.lastEpoch.map (·.epochId)).getD .nil, p.commit, p.writer, p.chaser, cfg.node.nodePriority⟩⟩

/-- This node's answer to `Prepare` in a view. -/
def prepareOkOf (cfg : ElectionConfig) (p : Progress) (view : Int) : PrepareOk :=
  let c := ownCandidate cfg p
  ⟨view, c.instanceId, c.internalTcp, c.progress⟩

/-- Takes an accept: a majority of accepts for the proposal elects its master, if the master is a
known server. -/
def handleAccept (cfg : ElectionConfig) (m : Accept) : Handler Unit := do
  let s ← get'
  if s.phase = .shutdown ∨ m.view ≠ s.lastInstalledView then return
  let some prop := s.proposal | return
  if prop.instanceId ≠ m.masterId then return
  if s.accepts.contains m.serverId then return
  let accepts := s.accepts ++ [m.serverId]
  update fun s => { s with accepts }
  if accepts.length = majority cfg then
    match s.servers.find? (·.instanceId == prop.instanceId) with
    | none => return
    | some mm =>
      update fun s => { s with master := some prop.instanceId, lastElected := some prop.instanceId }
      publish (.election (.electionsDone m.view mm))

/-- The candidate to propose: the master elected last while it is still known, otherwise the best
ranked candidate that answered. -/
def bestCandidate (s : Elections) : Option Candidate :=
  let fromLast : Option Candidate := s.lastElected.bind fun last =>
    match s.prepareOks.find? (·.instanceId == last) with
    | some c => some c
    | none =>
      (s.servers.find? fun srv => srv.isAlive && srv.instanceId == last && srv.state == .master).map
        Candidate.ofMember
  match fromLast with
  | some c => some c
  | none => s.prepareOks.foldl (fun best c =>
      match best with
      | none => some c
      | some b => if Candidate.ranksBelow b c then some c else some b) none

/-- The leader proposes its best candidate and accepts it itself. -/
def sendProposal (cfg : ElectionConfig) : Handler Unit := do
  update fun s => { s with accepts := [], proposal := none }
  let s ← get'
  let some c := bestCandidate s | return
  update fun s => { s with proposal := some c }
  handleAccept cfg ⟨cfg.node.instanceId, cfg.node.internalTcp, c.instanceId, c.internalTcp,
    s.lastInstalledView⟩
  sendToOthers cfg (.proposal ⟨cfg.node.instanceId, cfg.node.internalTcp, c.instanceId,
    c.internalTcp, s.lastInstalledView, c.progress⟩)

/-- Takes a `PrepareOk`: a majority of candidates makes this node the leader. -/
def handlePrepareOk (cfg : ElectionConfig) (m : PrepareOk) : Handler Unit := do
  let s ← get'
  if s.phase ≠ .electingLeader ∨ m.view ≠ s.lastAttemptedView then return
  if s.prepareOks.any (·.instanceId == m.serverId) then return
  let oks := s.prepareOks ++ [Candidate.ofPrepareOk m]
  update fun s => { s with prepareOks := oks }
  if oks.length = majority cfg then
    update fun s => { s with phase := .leader }
    sendProposal cfg

/-- Installs the attempted view as its leader and asks the others to prepare. -/
def shiftToPreparePhase (cfg : ElectionConfig) (p : Progress) : Handler Unit := do
  update fun s => { s with lastInstalledView := s.lastAttemptedView, prepareOks := [] }
  let s ← get'
  handlePrepareOk cfg (prepareOkOf cfg p s.lastInstalledView)
  sendToOthers cfg (.prepare ⟨cfg.node.instanceId, cfg.node.internalTcp, s.lastInstalledView⟩)

/-- Installs the attempted view as a non-leader. -/
def shiftToNonLeader : Handler Unit :=
  update fun s => { s with phase := .nonLeader, lastInstalledView := s.lastAttemptedView }

/-- Takes a vote, with the step that starts a new attempt (given as a parameter, as the two call
each other). -/
def viewChangeWith (cfg : ElectionConfig) (p : Progress) (shift : Int → Handler Unit)
    (m : ViewChange) : Handler Unit := do
  let s ← get'
  if s.phase = .shutdown ∨ s.phase = .idle then return
  if m.attemptedView ≤ s.lastInstalledView then return
  if s.lastAttemptedView < m.attemptedView then shift m.attemptedView
  let s ← get'
  if s.viewChanges.contains m.serverId then return
  let vcs := s.viewChanges ++ [m.serverId]
  update fun s => { s with viewChanges := vcs }
  if vcs.length = majority cfg then
    let s ← get'
    if isLeaderOf cfg s s.lastAttemptedView then shiftToPreparePhase cfg p

/-- Starts an attempt at a view: votes for it, sends the vote to the others and sets a timer. -/
def shiftToLeaderElection (cfg : ElectionConfig) (p : Progress) (view : Int) : Handler Unit := do
  update fun s =>
    { s with phase := .electingLeader, viewChanges := [], prepareOks := [],
             lastAttemptedView := view, proposal := none, master := none, accepts := [] }
  let vc : ViewChange := ⟨cfg.node.instanceId, cfg.node.internalTcp, view⟩
  -- The own vote meets an attempt already at `view`, so it starts no further one.
  viewChangeWith cfg p (fun _ => pure ()) vc
  sendToOthers cfg (.viewChange vc)
  publish (.schedule cfg.progressTimeoutMs (.election (.electionsTimedOut view)))

/-- Takes a vote from a server. -/
def handleViewChange (cfg : ElectionConfig) (p : Progress) (m : ViewChange) : Handler Unit :=
  viewChangeWith cfg p (shiftToLeaderElection cfg p) m

/-- Announces the installed view to the others and sets the next announcement. -/
def handleSendProof (cfg : ElectionConfig) : Handler Unit := do
  let s ← get'
  if s.phase = .shutdown then return
  if 0 ≤ s.lastInstalledView then
    sendToOthers cfg (.viewChangeProof ⟨cfg.node.instanceId, cfg.node.internalTcp, s.lastInstalledView⟩)
  publish (.schedule cfg.proofIntervalMs (.election .sendViewChangeProof))

/-- Takes another server's announcement of a later installed view and joins it. -/
def handleProof (cfg : ElectionConfig) (p : Progress) (m : ViewChangeProof) : Handler Unit := do
  let s ← get'
  if s.phase = .shutdown ∨ s.phase = .idle then return
  if m.installedView ≤ s.lastInstalledView then return
  update fun s => { s with lastAttemptedView := m.installedView }
  publish (.schedule cfg.progressTimeoutMs (.election (.electionsTimedOut m.installedView)))
  let s ← get'
  if isLeaderOf cfg s s.lastAttemptedView then shiftToPreparePhase cfg p else shiftToNonLeader

/-- Answers the leader's `Prepare` for the attempted view. -/
def handlePrepare (cfg : ElectionConfig) (p : Progress) (m : Prepare) : Handler Unit := do
  let s ← get'
  if s.phase = .shutdown ∨ m.serverId = cfg.node.instanceId then return
  if m.view ≠ s.lastAttemptedView ∨ !isKnown s m.serverId then return
  if s.phase = .electingLeader then shiftToNonLeader
  publish (.peerSend m.serverInternal (.prepareOk (prepareOkOf cfg p m.view)))

/-- Whether a proposed master may be accepted: a live master elected last may only be replaced by
itself or by a candidate of a later epoch (or of the same number but another epoch); otherwise
this node accepts itself, or a candidate at least as far as itself. -/
def isLegitimate (cfg : ElectionConfig) (p : Progress) (s : Elections) (c : Candidate) : Bool :=
  let current := s.servers.find? fun srv =>
    srv.isAlive && s.lastElected == some srv.instanceId && srv.state == .master
  match current with
  | some mm =>
    c.instanceId == mm.instanceId || mm.epochNumber < c.progress.epochNumber ||
      (c.progress.epochNumber == mm.epochNumber && c.progress.epochId != mm.epochId)
  | none => c.instanceId == cfg.node.instanceId || Candidate.goodEnough c (ownCandidate cfg p)

/-- Takes a proposal in the installed view: a legitimate one becomes this node's proposal if it
has none, and a proposal of that master counts as the proposer's accept and this node's own. -/
def handleProposal (cfg : ElectionConfig) (p : Progress) (m : Proposal) : Handler Unit := do
  let s ← get'
  if s.phase = .shutdown ∨ m.serverId = cfg.node.instanceId ∨ s.phase ≠ .nonLeader then return
  if m.view ≠ s.lastInstalledView then return
  if !isKnown s m.serverId || !isKnown s m.masterId then return
  let c : Candidate := ⟨m.masterId, m.masterInternal, { m.candidacy with nodePriority := 0 }⟩
  if !isLegitimate cfg p s c then return
  if s.proposal.isNone then update fun s => { s with proposal := some c, accepts := [] }
  let s ← get'
  if (s.proposal.map (·.instanceId)) == some m.masterId then
    handleAccept cfg ⟨m.serverId, m.serverInternal, m.masterId, m.masterInternal, m.view⟩
    let own : Accept := ⟨cfg.node.instanceId, cfg.node.internalTcp, m.masterId, m.masterInternal, m.view⟩
    handleAccept cfg own
    sendToOthers cfg (.accept own)

/-- The alive servers other than managers, sorted by internal address, highest first. -/
def serversOf (members : List Member) : List Member :=
  (members.filter fun m => m.state != .manager && m.isAlive).mergeSort fun a b =>
    compare b.internalTcp a.internalTcp != .gt

/-- Handles a bus message. -/
def handler (cfg : ElectionConfig) (p : Progress) : Message → Handler Unit
  | .system .systemInit => publish (.schedule cfg.proofIntervalMs (.election .sendViewChangeProof))
  | .system (.becomeShuttingDown _ _) => update fun s => { s with phase := .shutdown }
  | .gossip (.gossipUpdated members) => update fun s => { s with servers := serversOf members }
  | .election m =>
    match m with
    | .startElections => do
      let s ← get'
      if s.phase = .shutdown ∨ s.phase = .electingLeader then return
      shiftToLeaderElection cfg p (nextView s.lastAttemptedView)
    | .electionsTimedOut view => do
      let s ← get'
      if s.phase = .shutdown ∨ view ≠ s.lastAttemptedView then return
      if s.phase ≠ .electingLeader ∧ s.master.isSome then return
      shiftToLeaderElection cfg p (nextView s.lastAttemptedView)
    | .sendViewChangeProof => handleSendProof cfg
    | .viewChange vc => handleViewChange cfg p vc
    | .viewChangeProof vp => handleProof cfg p vp
    | .prepare pr => handlePrepare cfg p pr
    | .prepareOk ok => handlePrepareOk cfg ok
    | .proposal pr => handleProposal cfg p pr
    | .accept a => handleAccept cfg a
    | .electionsDone _ _ => pure ()
  | _ => pure ()

/-- Handles a bus message: the new state and the messages published, in order. -/
def handle (cfg : ElectionConfig) (p : Progress) (s : Elections) (m : Message) :
    Elections × List Message :=
  let ((), r) := (handler cfg p m).run ⟨s, #[]⟩
  (r.s, r.out.toList)

end Elections

end EventStore
