import Mathlib.Logic.Function.Basic
import Mathlib.Logic.Relation
import EventStore.Election.Service

/-!
# Election services joined by a lossy network

The elections services of a cluster, each a copy of `Elections.handle` with its own
configuration, joined by a network that loses, reorders and repeats messages. The network is a
soup: every peer message a node has sent stays in `sent` for good, and a step delivers any one of
them to the node listening on its address. A message never delivered is a dropped one, and a
message delivered twice is a duplicate, so the runs of the network are exactly the schedules of
triggers and deliveries in any order, with drops and duplicates.

Besides the nodes and the soup, the network keeps two logs that no node reads: the election
results each node published, and the accepts each node issued (an `Accept` it sent, a `Proposal`
it sent, which is the proposer's own accept, and a leader's accept of its own proposal). The
theorems about elections are stated over these logs.

A node's step may read any progress: the replication progress a node offers as a candidate is
live, and nothing in elections depends on it staying fixed.
-/

namespace EventStore

/-- The peer message a bus message sends, with the address it goes to. -/
def Message.peerSend? : Message → Option (SocketAddr × PeerMessage)
  | .peerSend dest pm => some (dest, pm)
  | _ => none

/-- The view and master of an election result a bus message publishes. -/
def Message.electionsDone? : Message → Option (Int × Uuid)
  | .election (.electionsDone view master) => some (view, master.instanceId)
  | _ => none

theorem Message.eq_of_peerSend? {m : Message} {d : SocketAddr} {pm : PeerMessage}
    (h : m.peerSend? = some (d, pm)) : m = .peerSend d pm := by
  unfold Message.peerSend? at h
  split at h
  · cases h
    rfl
  · cases h

theorem Message.eq_of_electionsDone? {m : Message} {x : Int × Uuid}
    (h : m.electionsDone? = some x) :
    ∃ mm : Member, m = .election (.electionsDone x.1 mm) ∧ mm.instanceId = x.2 := by
  unfold Message.electionsDone? at h
  split at h
  · cases h
    exact ⟨_, rfl, rfl⟩
  · cases h

/-- The view and master a peer message accepts: an accept, or a proposal, which is also its
sender's accept. -/
def PeerMessage.accepted? : PeerMessage → Option (Int × Uuid)
  | .accept a => some (a.view, a.masterId)
  | .proposal p => some (p.view, p.masterId)
  | _ => none

/-- Whether an election message is one a node gives itself: the start of elections, an election
timeout for any view, or the timer that sends the installed view to the others. -/
def ElectionMsg.IsTrigger : ElectionMsg → Prop
  | .startElections | .electionsTimedOut _ | .sendViewChangeProof => True
  | _ => False

/-- Whether an election message is the announcement of another node's installed view. -/
def ElectionMsg.IsProof : ElectionMsg → Prop
  | .viewChangeProof _ => True
  | _ => False

namespace Elections

/-- The accepts a node issued in one step, as view and master: the accepts and proposals it sent,
and, when it became leader, its own accept of its proposal, which it sends to no one when it
knows no other server. -/
def issued (pre post : Elections) (out : List Message) : List (Int × Uuid) :=
  out.filterMap (fun m => m.peerSend?.bind fun x => x.2.accepted?) ++
    if pre.phase ≠ .leader ∧ post.phase = .leader then
      (post.proposal.map fun c => (post.lastInstalledView, c.instanceId)).toList
    else []

end Elections

/-- Election services `ι`, the soup of peer messages they sent, and the logs of what they
published and accepted. -/
structure ElectionNet (ι : Type) where
  /-- Each node's elections service. -/
  node : ι → Elections
  /-- Every peer message sent so far, with its address, oldest first. -/
  sent : List (SocketAddr × PeerMessage) := []
  /-- Every election result published: the node, the view and the master's identifier. -/
  done : List (ι × Int × Uuid) := []
  /-- Every accept issued: the node, the view and the master's identifier. -/
  accepted : List (ι × Int × Uuid) := []

namespace ElectionNet

variable {ι : Type} [DecidableEq ι] (cfg : ι → ElectionConfig)

/-- Node `i` handles a message, reading progress `p`: its state changes, its peer messages join
the soup, and its results and accepts join the logs. -/
def act (w : ElectionNet ι) (i : ι) (p : Progress) (m : Message) : ElectionNet ι :=
  let r := Elections.handle (cfg i) p (w.node i) m
  { node := Function.update w.node i r.1
    sent := w.sent ++ r.2.filterMap Message.peerSend?
    done := w.done ++ (r.2.filterMap Message.electionsDone?).map (i, ·)
    accepted := w.accepted ++ (Elections.issued (w.node i) r.1 r.2).map (i, ·) }

/-- One step of the network, with the election message the acting node handles: a trigger of its
own, or a message of the soup addressed to it. -/
inductive Step (w : ElectionNet ι) : ElectionMsg → ElectionNet ι → Prop
  | trigger (i : ι) (p : Progress) {m : ElectionMsg} (hm : m.IsTrigger) :
      Step w m (w.act cfg i p (.election m))
  | deliver (i : ι) (p : Progress) {dest : SocketAddr} {pm : PeerMessage} {em : ElectionMsg}
      (hsent : (dest, pm) ∈ w.sent) (hdest : (cfg i).node.internalTcp = dest)
      (hem : ElectionMsg.ofPeer? pm = some em) :
      Step w em (w.act cfg i p (.election em))

/-- The network before any election: every node fresh, with its own progress, and told the same
member list by gossip. -/
def informed (p : ι → Progress) (now : Int) (members : List Member) : ElectionNet ι where
  node i := (Elections.handle (cfg i) (p i) (Elections.init (cfg i) (p i) now)
    (.gossip (.gossipUpdated members))).1

/-- The states a network reaches from `w₀` by steps whose handled message satisfies `ok`. -/
def Reaches (ok : ElectionMsg → Prop) (w₀ w : ElectionNet ι) : Prop :=
  Relation.ReflTransGen (fun a b => ∃ m, ok m ∧ Step cfg a m b) w₀ w

variable {cfg}

@[simp] theorem act_node_self (w : ElectionNet ι) (i : ι) (p : Progress) (m : Message) :
    (w.act cfg i p m).node i = (Elections.handle (cfg i) p (w.node i) m).1 := by
  simp [act]

theorem act_node_ne (w : ElectionNet ι) {i j : ι} (p : Progress) (m : Message) (h : j ≠ i) :
    (w.act cfg i p m).node j = w.node j := by
  simp [act, Function.update_of_ne h]

theorem act_sent (w : ElectionNet ι) (i : ι) (p : Progress) (m : Message) :
    (w.act cfg i p m).sent =
      w.sent ++ (Elections.handle (cfg i) p (w.node i) m).2.filterMap Message.peerSend? := rfl

theorem act_done (w : ElectionNet ι) (i : ι) (p : Progress) (m : Message) :
    (w.act cfg i p m).done =
      w.done ++ ((Elections.handle (cfg i) p (w.node i) m).2.filterMap
        Message.electionsDone?).map (i, ·) := rfl

theorem act_accepted (w : ElectionNet ι) (i : ι) (p : Progress) (m : Message) :
    (w.act cfg i p m).accepted = w.accepted ++ (Elections.issued (w.node i)
      (Elections.handle (cfg i) p (w.node i) m).1 (Elections.handle (cfg i) p (w.node i) m).2).map
        (i, ·) := rfl

omit [DecidableEq ι] in
/-- After gossip, every node knows the same servers and nothing else has happened. -/
theorem informed_node (p : ι → Progress) (now : Int) (members : List Member) (i : ι) :
    (informed cfg p now members).node i =
      { Elections.init (cfg i) (p i) now with servers := Elections.serversOf members } := rfl

end ElectionNet

end EventStore
