import EventStore.Proofs.Replication.Bookkeeping
import EventStore.Proofs.Replication.Quorum

/-!
# The master moves its tracker only by the tracker's operations

Every action of the master service changes its commit tracker by the tracker's own operations
(`CommitTracker.Op`): the master's flush, a slave's acknowledgement, a slave added or removed, a
write queued, the committed writes taken, the late ones timed out, the reset of a step down.
Whatever else an action does, to subscriptions, to the store or to the world, leaves the tracker
as it was.

So a property of trackers that every operation keeps is kept by every message the master handles
and by every pump (`handle_keeps_tracker`, `pump_keeps_tracker`). The one that matters is being
reachable: the tracker of a master started fresh is always the end of a run of operations from
the fresh tracker, which is where `CommitTracker.committed_writes_quorum_backed` speaks.
-/

namespace EventStore

namespace CommitTracker

/-- A property of trackers that every operation keeps. -/
def OpClosed (P : CommitTracker → Prop) : Prop := ∀ t (o : Op), P t → P (o.apply t)

theorem run_append (t : CommitTracker) (ops ops' : List Op) :
    t.run (ops ++ ops') = (t.run ops).run ops' := by
  simp [run, List.foldl_append]

/-- Being the end of some run from `t₀` is kept by every operation: the run grows by one. -/
theorem opClosed_reachable (t₀ : CommitTracker) : OpClosed fun t => ∃ ops, t₀.run ops = t := by
  rintro _ o ⟨ops, rfl⟩
  exact ⟨ops ++ [o], by rw [run_append]; rfl⟩

end CommitTracker

namespace MasterReplication

open Actor CommitTracker

variable {P : CommitTracker → Prop}

/-- Completing the committed writes is the operation that takes them. -/
theorem completeCommitted_keeps_tracker (hP : OpClosed P) :
    Keeps (fun m => P m.commits) completeCommitted :=
  completeCommitted_keeps fun m hm => hP m.commits .takeCommitted hm

/-- Giving a role adds a slave, an acknowledgement at its position, and completes what that
commits. -/
theorem assignRole_keeps_tracker (hP : OpClosed P) (id : Uuid) (role : ReplicaRole) :
    Keeps (fun m => P m.commits) (assignRole id role) := by
  unfold assignRole
  refine Keeps.bind (Keeps.me_bind fun _ => Keeps.pure _) fun r => ?_
  rcases r with _ | s
  · exact Keeps.pure _
  refine Keeps.bind (Keeps.modifyMe fun _ hm => hm) fun _ => Keeps.me_bind fun _ => ?_
  cases role with
  | slave =>
    refine (Keeps.onWorld _).bind fun _ => ?_
    exact (Keeps.modifyMe fun m hm => hP m.commits (.replicaAcked id s.ackPosition) hm).bind
      fun _ => completeCommitted_keeps_tracker hP
  | clone => exact Keeps.onWorld _
  | catchingUp => exact Keeps.pure _

/-- Removing a subscription removes its slave, if it was one, and may promote a clone. -/
theorem removeSubscription_keeps_tracker (hP : OpClosed P) (id : Uuid) :
    Keeps (fun m => P m.commits) (removeSubscription id) := by
  unfold removeSubscription
  refine Keeps.bind (Keeps.me_bind fun _ => Keeps.pure _) fun r => ?_
  rcases r with _ | s
  · exact Keeps.pure _
  refine Keeps.bind (Keeps.modifyMe fun _ hm => hm) fun _ => Keeps.ite (Keeps.pure _) ?_
  refine Keeps.bind (Keeps.modifyMe fun m hm => hP m.commits (.removeSlave id) hm) fun _ => ?_
  refine Keeps.me_bind fun _ => ?_
  split
  · exact assignRole_keeps_tracker hP _ _
  · exact Keeps.pure _

/-- Stepping down resets the tracker; closing connections and failing writes leave it. -/
theorem stepDown_keeps_tracker (hP : OpClosed P) : Keeps (fun m => P m.commits) stepDown := by
  unfold stepDown
  refine Keeps.me_bind fun _ => ?_
  refine Keeps.bind (Keeps.forIn fun _ _ => (Keeps.onWorld _).bind fun _ => Keeps.pure _)
    fun _ => ?_
  refine Keeps.bind (Keeps.modifyMe fun _ hm => hm) fun _ => ?_
  -- the tracker reset is the one read just before, so the reset operation gives it
  refine Spec.me_bind fun m₀ => ?_
  split
  rename_i ws t heq
  refine Spec.modifyMe_bind (fun m => P m.commits) (fun m ⟨hm, hm₀⟩ => ?_) ?_
  · subst hm₀
    have ht : t = m.commits.reset.2 := by rw [heq]
    rw [ht]
    exact hP m.commits .reset hm
  · exact (Keeps.forIn fun _ _ => (Keeps.onWorld _).bind fun _ => Keeps.pure _).bind
      fun _ => Keeps.pure _

/-- A change of node state counts the new master's flushed position or steps down. -/
theorem changeState_keeps_tracker (hP : OpClosed P) (st : NodeState) :
    Keeps (fun m => P m.commits) (changeState st) := by
  unfold changeState
  refine Keeps.me_bind fun _ => Keeps.bind (Keeps.modifyMe fun _ hm => hm) fun _ => ?_
  refine Keeps.ite ?_ (Keeps.ite (stepDown_keeps_tracker hP) (Keeps.pure _))
  exact (Keeps.onStore _).bind fun w =>
    Keeps.modifyMe fun m hm => hP m.commits (.masterFlushed w) hm

/-- A subscription request leaves the tracker but for the subscriptions of the replica it
removes. -/
theorem subscribe_keeps_tracker (hP : OpClosed P) (conn : Nat) (r : SubscribeReplica) :
    Keeps (fun m => P m.commits) (subscribe conn r) := by
  unfold subscribe
  refine Keeps.me_bind fun _ => Keeps.ite (Keeps.onWorld _) ?_
  refine (Keeps.onStore _).bind fun _ => Keeps.me_bind fun _ => ?_
  refine Keeps.bind (Keeps.forIn fun q _ => ?_) fun _ => ?_
  · rcases q with ⟨id, _⟩
    exact Keeps.ite ((removeSubscription_keeps_tracker hP id).bind fun _ => Keeps.pure _)
      (Keeps.pure _)
  refine (Keeps.onWorld _).bind fun _ => Keeps.modifyMe fun m hm => ?_
  -- the new subscription replaces the old one of that identifier or joins the list
  dsimp only
  split <;> exact hm

/-- A log position acknowledgement may give the replica a role. -/
theorem logPositionAck_keeps_tracker (hP : OpClosed P) (conn : Nat) (a : AckLogPosition) :
    Keeps (fun m => P m.commits) (logPositionAck conn a) := by
  unfold logPositionAck subscriptionOn
  refine (Keeps.onStore _).bind fun _ => ?_
  refine Keeps.bind ((Keeps.me_bind fun _ => Keeps.pure _).bind fun _ => Keeps.pure _)
    fun r => ?_
  rcases r with _ | s
  · exact Keeps.pure _
  refine Keeps.bind (Keeps.modifyMe fun _ hm => hm) fun _ => Keeps.ite (Keeps.pure _) ?_
  exact Keeps.me_bind fun _ => assignRole_keeps_tracker hP _ _

/-- A slave's write acknowledgement is the acknowledgement operation, then completes what it
commits. -/
theorem writeAck_keeps_tracker (hP : OpClosed P) (conn : Nat) (a : WriteAck) :
    Keeps (fun m => P m.commits) (writeAck conn a) := by
  unfold writeAck subscriptionOn
  refine Keeps.bind ((Keeps.me_bind fun _ => Keeps.pure _).bind fun _ => Keeps.pure _)
    fun r => ?_
  rcases r with _ | s
  · exact Keeps.pure _
  refine Keeps.bind (Keeps.modifyMe fun _ hm => hm) fun _ => Keeps.ite (Keeps.pure _) ?_
  exact (Keeps.modifyMe fun m hm =>
    hP m.commits (.replicaAcked a.subscriptionId a.logPosition) hm).bind
    fun _ => completeCommitted_keeps_tracker hP

/-- A closed connection removes its subscriptions one by one. -/
theorem connectionClosed_keeps_tracker (hP : OpClosed P) (conn : Nat) :
    Keeps (fun m => P m.commits) (connectionClosed conn) := by
  unfold connectionClosed
  refine Keeps.me_bind fun _ => (Keeps.forIn fun q _ => ?_).bind fun _ => Keeps.pure _
  rcases q with ⟨id, _⟩
  exact Keeps.ite ((removeSubscription_keeps_tracker hP id).bind fun _ => Keeps.pure _)
    (Keeps.pure _)

/-- Handling any message changes the tracker only by its operations. -/
theorem handle_keeps_tracker (hP : OpClosed P) (now : Nat) (msg : Message) :
    Keeps (fun m => P m.commits) (handle now msg) := by
  unfold handle
  split
  · exact (stepDown_keeps_tracker hP).bind fun _ => (Keeps.publish _).bind fun _ => Keeps.pure _
  · split
    · exact (changeState_keeps_tracker hP _).bind fun _ => Keeps.pure _
    · exact Keeps.pure _
  · exact (subscribe_keeps_tracker hP _ _).bind fun _ => Keeps.pure _
  · exact (logPositionAck_keeps_tracker hP _ _).bind fun _ => Keeps.pure _
  · exact (writeAck_keeps_tracker hP _ _).bind fun _ => Keeps.pure _
  · exact (connectionClosed_keeps_tracker hP _).bind fun _ => Keeps.pure _
  · -- a write queued on a master, refused otherwise
    rename_i corr env first last
    refine Keeps.me_bind fun _ => Keeps.ite ?_ ((Keeps.onWorld _).bind fun _ => Keeps.pure _)
    refine (Keeps.modifyMe fun m hm =>
      hP m.commits (.addPending corr env first last now) hm).bind fun _ => ?_
    exact (completeCommitted_keeps_tracker hP).bind fun _ => Keeps.pure _
  · -- the master's own flush
    rename_i p
    refine Keeps.me_bind fun _ => Keeps.ite ?_ (Keeps.pure _)
    refine (Keeps.modifyMe fun m hm => hP m.commits (.masterFlushed p) hm).bind fun _ => ?_
    exact (completeCommitted_keeps_tracker hP).bind fun _ => Keeps.pure _
  · exact Keeps.pure _

/-- Streaming's settled state keeps the tracker. -/
theorem commits_eq_of_settled {m m' : MasterReplication} (h : settled m = settled m') :
    m.commits = m'.commits := by
  have hc := congrArg MasterReplication.commits h
  exact hc

/-- A pump streams, which leaves the tracker, removes the subscriptions that failed, and times the
late writes out. -/
theorem pump_keeps_tracker (hP : OpClosed P) (now : Nat) :
    Keeps (fun m => P m.commits) (pump now) := by
  unfold pump
  refine Keeps.me_bind fun _ => Keeps.ite (Keeps.pure _) ?_
  refine Keeps.me_bind fun _ => ?_
  -- the settled state keeps the tracker, so streaming does
  refine Keeps.bind (Keeps.of_settled (fun L => Keeps.forIn fun q _ => ?_)
    fun _ _ hs h => commits_eq_of_settled hs ▸ h)
    fun _ => ?_
  · rcases q with ⟨id, _⟩
    refine Keeps.bind (Keeps.wrap (Keeps.tryCatch
      ((streamBulks_keeps L id _).bind fun _ => Keeps.pure _) fun e => ?_))
      fun _ => Keeps.ite (Keeps.pure _) (Keeps.pure _)
    cases e
    · exact Keeps.pure _
    · exact Keeps.throw _
  refine Keeps.bind (Keeps.forIn fun id _ => ?_) fun _ => ?_
  · refine (Keeps.me_bind fun _ => Keeps.pure _).bind fun r => ?_
    rcases r with _ | s
    · exact (removeSubscription_keeps_tracker hP id).bind fun _ => Keeps.pure _
    · exact (Keeps.onWorld _).bind fun _ =>
        (removeSubscription_keeps_tracker hP id).bind fun _ => Keeps.pure _
  -- the tracker timed out is the one read just before
  refine Spec.me_bind fun m₀ => ?_
  split
  rename_i late t heq
  refine Spec.modifyMe_bind (fun m => P m.commits) (fun m ⟨hm, hm₀⟩ => ?_) ?_
  · subst hm₀
    have ht : t = (m.commits.takeTimedOut now).2 := by rw [heq]
    rw [ht]
    exact hP m.commits (.takeTimedOut now) hm
  refine Keeps.ite ?_ (Keeps.pure _)
  have hreplies : Keeps (fun m : MasterReplication => P m.commits)
      (ForIn.forIn late PUnit.unit fun w _ => do replyTimedOut w; pure (ForInStep.yield PUnit.unit)) :=
    Keeps.forIn fun _ _ => (Keeps.onWorld _).bind fun _ => Keeps.pure _
  exact Keeps.ite ((Keeps.publish _).bind fun _ => hreplies.bind fun _ => Keeps.pure _)
    (hreplies.bind fun _ => Keeps.pure _)

/-- Along every run of the master, its tracker is the end of a run of the tracker's own operations
from the tracker it started with: each step keeps that, as every operation extends the run by one. -/
theorem Reaches.tracker_run {owner : Uuid → Uuid} {m₀ m : MasterReplication}
    (hr : Reaches owner m₀ m) : ∃ ops, m₀.commits.run ops = m.commits := by
  induction hr with
  | start => exact ⟨[], rfl⟩
  | handle now msg _ _ ih => exact (handle_keeps_tracker (opClosed_reachable _) now msg).run ih
  | pump now _ ih => exact (pump_keeps_tracker (opClosed_reachable _) now).run ih

end MasterReplication

end EventStore
