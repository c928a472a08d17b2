import EventStore.Cluster.Controller
import EventStore.Proofs.Service.Writer

/-!
# What one message does to the controller's role

The controller's role is its state, the master it follows and the subscription it replicates
over. This module says once, for every message and every controller, how one step can move the
role (`Controller.Move`), together with the messages the step hands the storage writer. Every
theorem about the controller's role along a run is then a case analysis over `Move`, with no
further look into the handlers.

The handlers run in a state monad over the controller, its world and what it published; their
run equations below are definitional, and each caller cites them instead of unfolding the callee.
-/

namespace EventStore

namespace Controller

/-! ## Run equations -/

theorem me_bind_run {β : Type} (f : Controller → ControllerM β) (r : ControllerRun) :
    (me >>= f).run r = (f r.ctl).run r := rfl

theorem freshId_bind_run {β : Type} (f : Uuid → ControllerM β) (r : ControllerRun) :
    (freshId >>= f).run r =
      (f ⟨freshIdBase + r.world.fresh⟩).run
        { r with world := { r.world with fresh := r.world.fresh + 1 } } :=
  rfl

theorem get_bind_run {β : Type} (f : ControllerRun → ControllerM β) (r : ControllerRun) :
    (get >>= f).run r = (f r).run r := rfl

theorem onWorld_bind_run {α β : Type} [Inhabited α] (m : WorldM Empty α) (f : α → ControllerM β)
    (r : ControllerRun) :
    (onWorld m >>= f).run r =
      (f (match ((ExceptT.run m).run r.world).1 with | .ok a => a | .error _ => default)).run
        { r with world := ((ExceptT.run m).run r.world).2 } := by
  rcases hm : (ExceptT.run m).run r.world with ⟨res, w'⟩
  cases res <;> simp only [onWorld, bind_assoc, get_bind_run, hm] <;> rfl

/-- A step whose result is not used runs first and hands its state on. -/
theorem run_seq {β : Type} (x : ControllerM Unit) (f : Unit → ControllerM β) (r : ControllerRun) :
    (x >>= f).run r = (f ()).run (x.run r).2 := rfl

theorem run_pure {α : Type} (a : α) (r : ControllerRun) : (pure a : ControllerM α).run r = (a, r) :=
  rfl

theorem run_ite {α : Type} (p : Prop) [Decidable p] (x y : ControllerM α) (r : ControllerRun) :
    (if p then x else y).run r = if p then x.run r else y.run r := by
  split <;> rfl

theorem modifyMe_run (f : Controller → Controller) (r : ControllerRun) :
    (modifyMe f).run r = ((), { r with ctl := f r.ctl }) := rfl

theorem publish_run (m : Message) (r : ControllerRun) :
    (publish m).run r = ((), { r with out := r.out.push m }) := rfl

theorem onWorld_run {α : Type} [Inhabited α] (m : WorldM Empty α) (r : ControllerRun) :
    ((onWorld m).run r).2 = { r with world := ((ExceptT.run m).run r.world).2 } := by
  rcases hm : (ExceptT.run m).run r.world with ⟨res, w'⟩
  cases res <;> simp only [onWorld, get_bind_run, hm] <;> rfl

/-! ## The role changes -/

theorem becomeUnknown_run (r : ControllerRun) : becomeUnknown.run r =
    ((), { ctl := { r.ctl with master := none, stateCorrelationId := ⟨freshIdBase + r.world.fresh⟩,
                               state := .unknown }
           world := { r.world with fresh := r.world.fresh + 1 }
           out := (r.out.push (.system (.becomeUnknown ⟨freshIdBase + r.world.fresh⟩))).push
             (.election .startElections) }) := rfl

theorem becomeShuttingDown_run (b : Bool) (r : ControllerRun) : (becomeShuttingDown b).run r =
    ((), { ctl := { r.ctl with master := none, stateCorrelationId := ⟨freshIdBase + r.world.fresh⟩,
                               state := .shuttingDown }
           world := { r.world with fresh := r.world.fresh + 1 }
           out := (r.out.push (.schedule r.ctl.timeouts.shutdown (.system .shutdownTimeout))).push
             (.system (.becomeShuttingDown ⟨freshIdBase + r.world.fresh⟩ b)) }) := rfl

theorem shutdown_run (r : ControllerRun) : shutdown.run r =
    ((), { r with
      ctl := { r.ctl with dbClosed := true, state := .shutdown, nodeShuttingDown := true }
      out := r.out.push (.system (.becomeShutdown r.ctl.stateCorrelationId)) }) := rfl

theorem becomeMaster_run (r : ControllerRun) : becomeMaster.run r =
    ((), { r with ctl := { r.ctl with state := .master }
                  out := r.out.push (.system (.becomeMaster r.ctl.stateCorrelationId)) }) := rfl

theorem becomePreMaster_run (r : ControllerRun) : becomePreMaster.run r =
    ((), { r with ctl := { r.ctl with state := .preMaster }
                  out := (r.out.push (.system (.becomePreMaster r.ctl.stateCorrelationId))).push
                    (.system (.waitForChaserToCatchUp r.ctl.stateCorrelationId 0)) }) := rfl

theorem becomePreReplica_run (m : Member) (r : ControllerRun) : (becomePreReplica m).run r =
    ((), { r with ctl := { r.ctl with master := some m, state := .preReplica }
                  out := (r.out.push (.system (.becomePreReplica r.ctl.stateCorrelationId m))).push
                    (.system (.waitForChaserToCatchUp r.ctl.stateCorrelationId 0)) }) := rfl

/-- A replica role taken under a known master: the state moves and the matching message is
published. -/
theorem becomeReplicaRole_run (s : NodeState) (r : ControllerRun) {m : Member}
    (h : r.ctl.master = some m) :
    (becomeReplicaRole s).run r = ((), match s with
      | .catchingUp => { r with
          ctl := { r.ctl with state := .catchingUp }
          out := r.out.push (.system (.becomeCatchingUp r.ctl.stateCorrelationId m)) }
      | .clone => { r with
          ctl := { r.ctl with state := .clone }
          out := r.out.push (.system (.becomeClone r.ctl.stateCorrelationId m)) }
      | .slave => { r with
          ctl := { r.ctl with state := .slave }
          out := r.out.push (.system (.becomeSlave r.ctl.stateCorrelationId m)) }
      | _ => r) := by
  cases s <;> simp only [becomeReplicaRole, me_bind_run, h, setState, run_seq, modifyMe_run,
    publish_run, run_pure]

/-- Without a master no replica role is taken. -/
theorem becomeReplicaRole_of_none (s : NodeState) (r : ControllerRun) (h : r.ctl.master = none) :
    (becomeReplicaRole s).run r = ((), r) := by
  simp only [becomeReplicaRole, me_bind_run, h, run_pure]

/-! ## The moves of a role -/

/-- What one message can do to a controller's role, with the messages the step hands the storage
writer, in order. Every move keeps the node's identity (`handle_steps`). -/
inductive Move (c c' : Controller) : List Message → Prop
  /-- State, master and subscription stay, and the writer is granted no subscription. -/
  | quiet {ws : List Message} (hstate : c'.state = c.state) (hmaster : c'.master = c.master)
      (hsub : c'.subscriptionId = c.subscriptionId)
      (hws : ∀ w ∈ ws, w.grantedSubscription = none) : Move c c' ws
  /-- A replica waiting for its master subscribes again, under a new subscription. -/
  | resubscribe (h : c.state = .preReplica) (hstate : c'.state = .preReplica)
      (hmaster : c'.master = c.master) : Move c c' []
  /-- A starting node, or a master that lost its quorum, forgets the master and starts elections. -/
  | unknown (h : c.state = .initializing ∨ c.state = .master) (hstate : c'.state = .unknown)
      (hmaster : c'.master = none) (cid : Uuid) : Move c c' [.system (.becomeUnknown cid)]
  /-- A node not yet on its way out starts shutting down. -/
  | shuttingDown (h : c.state ≠ .shuttingDown ∧ c.state ≠ .shutdown)
      (hstate : c'.state = .shuttingDown) (hmaster : c'.master = none) (cid : Uuid) :
      Move c c' [.system (.becomeShuttingDown cid true)]
  /-- A node shutting down finishes. -/
  | shutdown (h : c.state = .shuttingDown) (hstate : c'.state = .shutdown)
      (hmaster : c'.master = c.master) (cid : Uuid) : Move c c' [.system (.becomeShutdown cid)]
  /-- An elected node whose chaser caught up becomes master. -/
  | master (h : c.state = .preMaster) (hstate : c'.state = .master)
      (hmaster : c'.master = c.master) (cid : Uuid) : Move c c' [.system (.becomeMaster cid)]
  /-- Elections made this node master. -/
  | elected (h : c.state ≠ .initializing ∧ c.state ≠ .shuttingDown ∧ c.state ≠ .shutdown)
      (m : Member) (hm : m.instanceId = c.info.instanceId) (hstate : c'.state = .preMaster)
      (hmaster : c'.master = some m) (cid : Uuid) : Move c c' [.system (.becomePreMaster cid)]
  /-- Elections made another node master, and this node follows it. -/
  | follow (h : c.state ≠ .initializing ∧ c.state ≠ .shuttingDown ∧ c.state ≠ .shutdown)
      (m : Member) (hm : m.instanceId ≠ c.info.instanceId) (hstate : c'.state = .preReplica)
      (hmaster : c'.master = some m) (cid : Uuid) : Move c c' [.system (.becomePreReplica cid m)]
  /-- A replica starts over with its current master. -/
  | refollow (h : isReplicaState c.state) (m : Member) (hm : c.isCurrentMaster m)
      (hstate : c'.state = .preReplica) (hmaster : c'.master = some m)
      (hsub : c'.subscriptionId = c.subscriptionId) (cid : Uuid) :
      Move c c' [.system (.becomePreReplica cid m)]
  /-- The master accepted the current subscription: the writer gets it, and the node catches up. -/
  | subscribed (h : c.state = .preReplica) (x : ReplicaSubscribed)
      (hx : x.subscriptionId = c.subscriptionId) (hstate : c'.state = .catchingUp)
      (hmaster : c'.master = c.master) (hsub : c'.subscriptionId = c.subscriptionId) (cid : Uuid)
      (m : Member) :
      Move c c' [.replication (.replicaSubscribed x), .system (.becomeCatchingUp cid m)]
  /-- The master assigns a replica the role of clone or slave. -/
  | assigned (h : c.state = .catchingUp ∨ c.state = .clone ∨ c.state = .slave)
      (hstate : c'.state = .clone ∨ c'.state = .slave) (hmaster : c'.master = c.master)
      (hsub : c'.subscriptionId = c.subscriptionId) (w : Message)
      (hw : w.grantedSubscription = none) : Move c c' [w]

/-- A step from `c` that keeps the node's identity and moves its role as `Move` allows. -/
def Steps (c : Controller) (r : ControllerRun) : Prop :=
  r.ctl.info = c.info ∧ Move c r.ctl (r.out.toList.filter Message.reachesWriter)

/-- A step that does nothing. -/
theorem Steps.refl (c : Controller) (w : World) : Steps c { ctl := c, world := w } :=
  ⟨rfl, .quiet rfl rfl rfl (by simp)⟩

theorem Steps.quiet {c : Controller} {r : ControllerRun} (hinfo : r.ctl.info = c.info)
    (hstate : r.ctl.state = c.state) (hmaster : r.ctl.master = c.master)
    (hsub : r.ctl.subscriptionId = c.subscriptionId)
    (hws : ∀ w ∈ r.out.toList, w.grantedSubscription = none) : Steps c r :=
  ⟨hinfo, .quiet hstate hmaster hsub fun w hw => hws w (List.mem_filter.1 hw).1⟩

/-- A replication message counts when it names the current subscription and the current
master. -/
theorem isLegitimate_iff {c : Controller} {x : ReplicationMsg} :
    c.isLegitimate x = true ↔ ∃ mid m, x.subscription? = some (mid, c.subscriptionId) ∧
      c.master = some m ∧ m.instanceId = mid := by
  unfold isLegitimate
  split
  · rename_i mid sub hx
    simp only [hx, Bool.and_eq_true, decide_eq_true_eq, Option.any_eq_true, Option.some.injEq,
      Prod.mk.injEq]
    constructor
    · rintro ⟨rfl, m, hm, hid⟩
      exact ⟨mid, m, ⟨rfl, rfl⟩, hm, hid⟩
    · rintro ⟨_, m, ⟨rfl, rfl⟩, hm, hid⟩
      exact ⟨rfl, m, hm, hid⟩
  · rename_i hx
    simp [hx]

theorem handleReplication_steps (x : ReplicationMsg) (c : Controller) (w : World) :
    Steps c ((handleReplication x).run { ctl := c, world := w }).2 := by
  simp only [handleReplication, me_bind_run]
  split
  all_goals try rw [run_ite]
  all_goals try split
  all_goals try split
  all_goals try simp only [run_seq, run_pure, publish_run, modifyMe_run, freshId_bind_run]
  all_goals try (apply Steps.quiet <;> simp [Message.grantedSubscription]; done)
  case h_2.isTrue hs _ =>
    refine ⟨rfl, ?_⟩
    simp only [Array.toList_push, List.filter_append]
    exact .resubscribe hs hs rfl
  case h_4.isTrue x hs hl =>
    obtain ⟨mid, m, hx, hm, -⟩ := isLegitimate_iff.1 hl
    rw [becomeReplicaRole_run _ _ (by exact hm)]
    simp only [ReplicationMsg.subscription?, Option.some.injEq, Prod.mk.injEq] at hx
    refine ⟨rfl, ?_⟩
    apply Move.subscribed hs x hx.2 <;> rfl
  case h_17.isTrue x hs hl | h_18.isTrue x hs hl =>
    obtain ⟨mid, m, -, hm, -⟩ := isLegitimate_iff.1 hl
    rw [becomeReplicaRole_run _ _ (by exact hm)]
    refine ⟨rfl, ?_⟩
    apply Move.assigned (by simp [hs]) (.inr rfl) <;> rfl
  case h_19.isTrue x hs hl | h_20.isTrue x hs hl =>
    obtain ⟨mid, m, -, hm, -⟩ := isLegitimate_iff.1 hl
    rw [becomeReplicaRole_run _ _ (by exact hm)]
    refine ⟨rfl, ?_⟩
    apply Move.assigned (by simp [hs]) (.inl rfl) <;> rfl

/-- A starting node that has heard from all its services starts: it passes the start on, forgets
any master and starts elections. -/
theorem handleSystem_systemStart_run (n : Nat) (r : ControllerRun)
    (h : r.ctl.state = .initializing) :
    (handleSystem (n + 1) .systemStart).run r =
      becomeUnknown.run { r with out := r.out.push (.system .systemStart) } := by
  simp only [handleSystem, me_bind_run, h, run_seq, publish_run]

theorem handleSystem_steps (s : SystemMsg) (c : Controller) (w : World) :
    Steps c ((handleSystem 2 s).run { ctl := c, world := w }).2 := by
  rw [handleSystem.eq_2]
  simp only [me_bind_run]
  split
  · apply Steps.quiet <;> simp [publish_run, Message.grantedSubscription]
  · -- the last service to report itself initialized starts the node
    rename_i hs
    simp only [run_seq, modifyMe_run, me_bind_run]
    rw [run_ite]
    split
    · rw [handleSystem_systemStart_run _ _ hs, becomeUnknown_run]
      refine ⟨rfl, ?_⟩
      apply Move.unknown (.inl hs) <;> rfl
    · rw [run_pure]
      apply Steps.quiet <;> simp
  · rename_i hs
    rw [run_seq, publish_run, becomeUnknown_run]
    refine ⟨rfl, ?_⟩
    apply Move.unknown (.inl hs) <;> rfl
  · exact Steps.refl c w
  · exact Steps.refl c w
  · rename_i h₁ h₂
    rw [becomeShuttingDown_run]
    refine ⟨rfl, ?_⟩
    apply Move.shuttingDown ⟨h₁, h₂⟩ <;> rfl
  · -- the last service to report itself stopped shuts the node down
    rename_i hs
    simp only [run_seq, modifyMe_run, me_bind_run]
    rw [run_ite]
    split
    · rw [shutdown_run]
      refine ⟨rfl, ?_⟩
      apply Move.shutdown hs <;> rfl
    · rw [run_pure]
      apply Steps.quiet <;> simp
  · rename_i hs
    rw [shutdown_run]
    refine ⟨rfl, ?_⟩
    apply Move.shutdown hs <;> rfl
  · -- the chaser caught up: an elected node becomes master, a replica subscribes
    rw [run_ite]
    split
    · rw [run_ite]
      split
      · rename_i hs
        rw [becomeMaster_run]
        refine ⟨rfl, ?_⟩
        apply Move.master hs <;> rfl
      · split
        · rw [freshId_bind_run]
          exact handleReplication_steps _ c _
        · exact Steps.refl c w
    · exact Steps.refl c w
  · rw [run_ite]
    split
    · rename_i hg
      simp only [Bool.and_eq_true, decide_eq_true_eq] at hg
      rw [becomePreReplica_run]
      refine ⟨rfl, ?_⟩
      apply Move.refollow hg.1.1 _ hg.2 <;> rfl
    · exact Steps.refl c w
  · rw [run_ite]
    split
    · split
      · rw [run_ite]
        split
        · exact Steps.refl c w
        · rw [publish_run]
          apply Steps.quiet <;> simp [Message.grantedSubscription]
      · exact Steps.refl c w
    · exact Steps.refl c w
  · rename_i hs
    rw [becomeUnknown_run]
    refine ⟨rfl, ?_⟩
    apply Move.unknown (.inr hs) <;> rfl
  · exact Steps.refl c w

theorem electionsDone_steps (view : Int) (m : Member) (c : Controller) (w : World)
    (h : c.state ≠ .initializing ∧ c.state ≠ .shuttingDown ∧ c.state ≠ .shutdown) :
    Steps c ((electionsDone view m).run { ctl := c, world := w }).2 := by
  simp only [electionsDone, me_bind_run]
  rw [run_ite]
  split
  · -- the current master again: at most a new epoch is asked for
    simp only [run_ite, run_seq, publish_run, run_pure]
    split <;> apply Steps.quiet <;> simp [Message.grantedSubscription]
  · simp only [freshId_bind_run, run_seq, modifyMe_run, publish_run]
    rw [run_ite]
    split
    · rename_i hm
      rw [run_seq, modifyMe_run, becomePreMaster_run]
      refine ⟨rfl, ?_⟩
      apply Move.elected h m hm <;> rfl
    · rename_i hm
      rw [becomePreReplica_run]
      refine ⟨rfl, ?_⟩
      apply Move.follow h m hm <;> rfl

theorem handleElection_steps (e : ElectionMsg) (c : Controller) (w : World) :
    Steps c ((handleElection e).run { ctl := c, world := w }).2 := by
  simp only [handleElection, me_bind_run]
  split
  · exact .refl c w
  · exact .refl c w
  · exact .refl c w
  · rename_i h₁ h₂ h₃
    exact electionsDone_steps _ _ c w ⟨h₁, h₂, h₃⟩
  · rw [publish_run]
    apply Steps.quiet <;> simp [Message.grantedSubscription]

theorem handleGossip_steps (g : GossipMsg) (c : Controller) (w : World) :
    Steps c ((handleGossip g).run { ctl := c, world := w }).2 := by
  -- gossip passes the view on and may call elections; nothing of the role moves
  simp only [handleGossip, me_bind_run]
  split
  all_goals
    simp only [run_ite, run_seq, run_pure, publish_run]
    repeat' split
    all_goals apply Steps.quiet <;> simp [Message.grantedSubscription]

theorem handleClient_steps (m : ClientMsg) (c : Controller) (w : World) :
    Steps c ((handleClient m).run { ctl := c, world := w }).2 := by
  -- client writes are passed on, forwarded or answered; only the forwarding table changes
  simp only [handleClient, me_bind_run]
  split
  all_goals
    simp only [run_ite, run_seq, publish_run, onWorld_bind_run, modifyMe_run]
    repeat' split
    all_goals
      try simp only [onWorld_run]
      apply Steps.quiet <;> simp [Message.grantedSubscription]

/-- Every message moves a controller's role as `Move` allows, and keeps its identity. -/
theorem handle_steps (m : Message) (c : Controller) (w : World) :
    Steps c ((handle m).run { ctl := c, world := w }).2 := by
  cases m with
  | system s => exact handleSystem_steps s c w
  | election e => exact handleElection_steps e c w
  | gossip g => exact handleGossip_steps g c w
  | replication x => exact handleReplication_steps x c w
  | client x => exact handleClient_steps x c w
  | storage x | schedule _ _ | peerSend _ _ =>
    simp only [handle, me_bind_run, run_ite, publish_run, run_pure]
    split <;> apply Steps.quiet <;> simp [Message.grantedSubscription]

end Controller

end EventStore
