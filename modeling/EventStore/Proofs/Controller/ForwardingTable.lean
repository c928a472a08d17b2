import EventStore.Proofs.Controller.Trace

/-!
# What one message does to the forwarding table

A replica that gets a client write it may not take itself forwards it to the master under a
fresh internal identifier, parks the client's envelope in its forwarding table and schedules a
timeout for it. The master's completion and the timeout come back as messages, and whichever is
handled first takes the write out of the table and answers its envelope.

`TableStep` says once what handling one message can do to the table, to the count of identifiers
made, and to the traffic sent: register a write under the next identifier and send nothing,
settle an identifier and answer what the table held under it, or leave the table alone and
answer at most the client write the message carries. `handle_tableStep` shows that every message
in every state of the controller takes one of these steps. Most handlers do not touch the table,
the traffic or the count at all (`Untouched`); client writes, completions and timeouts are
worked out one by one.
-/

namespace EventStore

/-- The traffic a response to an envelope makes: one reply to a client, or one completion sent
back over the peer connection of a forwarded write; a refusal sent to a peer makes none. -/
def Envelope.replyTraffic : Envelope → ClientResponse → List Traffic
  | .client k, r => [.reply k r]
  | .peer conn corr, .writeCompleted res first last =>
    [.send conn (.forwardWriteCompleted ⟨corr, res, first, last⟩)]
  | .peer _ _, .notHandled _ => []

/-- A completed write reaches its envelope as exactly one piece of traffic. -/
@[simp] theorem Envelope.length_replyTraffic_writeCompleted (e : Envelope) (res : WriteResult)
    (first last : Int) : (e.replyTraffic (.writeCompleted res first last)).length = 1 := by
  cases e <;> rfl

theorem Envelope.reply_run {ε : Type} (e : Envelope) (r : ClientResponse) (w : World) :
    (ExceptT.run (e.reply r : WorldM ε Unit)).run w =
      (.ok (), { w with traffic := w.traffic ++ (e.replyTraffic r).toArray }) := by
  cases e with
  | client k => rw [replyTraffic, ← Array.push_eq_append]; rfl
  | peer conn corr =>
    cases r with
    | writeCompleted res first last => rw [replyTraffic, ← Array.push_eq_append]; rfl
    | notHandled _ => simp only [replyTraffic, Array.append_empty]; rfl

/-- The forwarded write a message settles, with the reply it calls for: the master's completion
gives its outcome, a timeout gives `ForwardTimeout` with no positions. -/
def Message.settlement? : Message → Option (Uuid × ClientResponse)
  | .client (.forwardedWriteCompleted d) =>
    some (d.internalCorrId, .writeCompleted d.result d.firstPosition d.lastPosition)
  | .client (.forwardingTimeout x) => some (x, .writeCompleted .forwardTimeout (-1) (-1))
  | _ => none

/-- Whether a message settles the forwarded write `x`. -/
def Message.settles (m : Message) (x : Uuid) : Bool := m.settlement?.any (·.1 == x)

/-- The identifier a forwarded write travels under. -/
def Message.forwardedId? : Message → Option Uuid
  | .client (.tcpForwardMessage f) => some f.internalCorrId
  | _ => none

theorem Message.settlement_of_settles {m : Message} {x : Uuid} (h : m.settles x = true) :
    ∃ resp, m.settlement? = some (x, resp) := by
  unfold Message.settles at h
  cases hm : m.settlement? with
  | none => rw [hm] at h; cases h
  | some a =>
    rw [hm, Option.any_some, beq_iff_eq] at h
    exact ⟨a.2, by rw [← h]⟩

theorem Message.settles_eq_false_iff {m : Message} {x y : Uuid} {resp : ClientResponse}
    (h : m.settlement? = some (x, resp)) : m.settles y = false ↔ y ≠ x := by
  simp only [Message.settles, h, Option.any_some, beq_eq_false_iff_ne]
  exact ne_comm

theorem Message.settles_of_settlement_none {m : Message} (h : m.settlement? = none) (y : Uuid) :
    m.settles y = false := by
  simp [Message.settles, h]

/-- Whatever settles a forwarded write calls for a completed write, one piece of traffic. -/
theorem Message.length_replyTraffic_of_settlement {m : Message} {x : Uuid} {resp : ClientResponse}
    (h : m.settlement? = some (x, resp)) (e : Envelope) : (e.replyTraffic resp).length = 1 := by
  unfold Message.settlement? at h
  split at h <;> cases h <;> simp

namespace ForwardingProxy

/-- The table without the write `x`. -/
def settle (p : ForwardingProxy) (x : Uuid) : ForwardingProxy :=
  { pending := p.pending.filter (·.1 != x) }

/-- The traffic of replying `r` to the write `x`, if it waits. -/
def replyTo (p : ForwardingProxy) (x : Uuid) (r : ClientResponse) : List Traffic :=
  ((p.pending.lookup x).map (·.replyTraffic r)).getD []

theorem settle_of_lookup_none {p : ForwardingProxy} {x : Uuid} (h : p.pending.lookup x = none) :
    p.settle x = p := by
  have hall := List.lookup_eq_none_iff.1 h
  simp only [settle]
  rw [List.filter_eq_self.2 fun a ha => by simpa [bne_comm] using hall a ha]

theorem register_run {ε : Type} (p : ForwardingProxy) (e : Envelope) (w : World) :
    (ExceptT.run (p.register e : WorldM ε _)).run w =
      (.ok (⟨freshIdBase + w.fresh⟩, { pending := p.pending ++ [(⟨freshIdBase + w.fresh⟩, e)] }),
        { w with fresh := w.fresh + 1 }) := rfl

theorem complete_run {ε : Type} (p : ForwardingProxy) (d : ForwardWriteCompleted) (w : World) :
    ((ExceptT.run (p.complete d : WorldM ε _)).run w).2 =
      { w with traffic := w.traffic ++ (p.replyTo d.internalCorrId
        (.writeCompleted d.result d.firstPosition d.lastPosition)).toArray } ∧
    ∃ b, ((ExceptT.run (p.complete d : WorldM ε _)).run w).1 =
      .ok (b, p.settle d.internalCorrId) := by
  unfold complete take? replyTo
  cases h : p.pending.lookup d.internalCorrId with
  | none =>
    refine ⟨?_, false, by rw [settle_of_lookup_none h]; rfl⟩
    simp only [Option.map_none, Option.getD_none, Array.append_empty]
    rfl
  | some e =>
    simp only [Option.map_some, Option.getD_some, ExceptT.run_bind, StateT.run_bind,
      Envelope.reply_run]
    exact ⟨rfl, true, rfl⟩

theorem timeout_run {ε : Type} (p : ForwardingProxy) (x : Uuid) (w : World) :
    ((ExceptT.run (p.timeout x : WorldM ε _)).run w).2 =
      { w with traffic := w.traffic ++ (p.replyTo x (.writeCompleted .forwardTimeout (-1) (-1))).toArray } ∧
    ∃ b, ((ExceptT.run (p.timeout x : WorldM ε _)).run w).1 = .ok (b, p.settle x) := by
  unfold timeout take? replyTo
  cases h : p.pending.lookup x with
  | none =>
    refine ⟨?_, false, by rw [settle_of_lookup_none h]; rfl⟩
    simp only [Option.map_none, Option.getD_none, Array.append_empty]
    rfl
  | some e =>
    simp only [Option.map_some, Option.getD_some, ExceptT.run_bind, StateT.run_bind,
      Envelope.reply_run]
    exact ⟨rfl, true, rfl⟩

end ForwardingProxy

namespace Controller

/-! ## Handlers that leave the table alone -/

/-- A handler run from `r` to `r'` left the forwarding table and the traffic as they were and
made identifiers only by counting up. -/
structure Untouched (r r' : ControllerRun) : Prop where
  forwarding : r'.ctl.forwarding = r.ctl.forwarding
  traffic : r'.world.traffic = r.world.traffic
  fresh : r.world.fresh ≤ r'.world.fresh

theorem Untouched.refl (r : ControllerRun) : Untouched r r := ⟨rfl, rfl, Nat.le_refl _⟩

theorem Untouched.trans {r₁ r₂ r₃ : ControllerRun} (h₁ : Untouched r₁ r₂) (h₂ : Untouched r₂ r₃) :
    Untouched r₁ r₃ :=
  ⟨h₂.forwarding.trans h₁.forwarding, h₂.traffic.trans h₁.traffic, Nat.le_trans h₁.fresh h₂.fresh⟩

@[simp] theorem id_pure (a : α) : (pure a : Id α) = a := rfl

@[simp] theorem id_bind (x : α) (f : α → Id β) : (x >>= f : Id β) = f x := rfl

theorem freshId_run (r : ControllerRun) : freshId.run r =
    (⟨freshIdBase + r.world.fresh⟩, { r with world := { r.world with fresh := r.world.fresh + 1 } }) :=
  rfl

theorem becomeReplicaRole_keeps (s : NodeState) (r : ControllerRun) :
    ((becomeReplicaRole s).run r).2.ctl.forwarding = r.ctl.forwarding ∧
      ((becomeReplicaRole s).run r).2.world = r.world := by
  cases hm : r.ctl.master with
  | none => rw [becomeReplicaRole_of_none s r hm]; exact ⟨rfl, rfl⟩
  | some m =>
    rw [becomeReplicaRole_run s r hm]
    cases s <;> exact ⟨rfl, rfl⟩

@[simp] theorem becomeReplicaRole_forwarding (s : NodeState) (r : ControllerRun) :
    ((becomeReplicaRole s).run r).2.ctl.forwarding = r.ctl.forwarding :=
  (becomeReplicaRole_keeps s r).1

@[simp] theorem becomeReplicaRole_world (s : NodeState) (r : ControllerRun) :
    ((becomeReplicaRole s).run r).2.world = r.world :=
  (becomeReplicaRole_keeps s r).2

theorem handleReplication_untouched (x : ReplicationMsg) (r : ControllerRun) :
    Untouched r ((handleReplication x).run r).2 := by
  simp only [handleReplication, me_bind_run]
  split
  all_goals
    simp only [run_ite, run_seq, run_pure, publish_run, modifyMe_run, freshId_bind_run]
    repeat' split
  all_goals constructor <;> simp [freshId_run, publish_run]

theorem handleSystem_untouched (n : Nat) (s : SystemMsg) (r : ControllerRun) :
    Untouched r ((handleSystem n s).run r).2 := by
  induction n generalizing s r with
  | zero => exact .refl r
  | succ n ih =>
    rw [handleSystem.eq_2]
    simp only [me_bind_run]
    split
    case h_2 =>
      -- the last service to report in starts the node, with one level of fuel less
      simp only [run_seq, modifyMe_run, me_bind_run, run_ite]
      split
      · refine Untouched.trans ?_ (ih _ _)
        exact ⟨rfl, rfl, Nat.le_refl _⟩
      · exact ⟨rfl, rfl, Nat.le_refl _⟩
    case h_9 =>
      -- a replica whose chaser caught up subscribes through the replication handler
      simp only [run_ite]
      repeat' split
      · rw [becomeMaster_run]
        exact ⟨rfl, rfl, Nat.le_refl _⟩
      · rw [freshId_bind_run]
        refine Untouched.trans ?_ (handleReplication_untouched _ _)
        exact ⟨rfl, rfl, Nat.le_succ _⟩
      all_goals exact ⟨rfl, rfl, Nat.le_refl _⟩
    all_goals
      simp -failIfUnchanged only [run_ite, run_seq, run_pure, publish_run, modifyMe_run, me_bind_run]
      repeat' split
      all_goals constructor <;> simp [becomeUnknown_run, becomeShuttingDown_run, shutdown_run,
        becomePreReplica_run, publish_run]

theorem handleElection_untouched (e : ElectionMsg) (r : ControllerRun) :
    Untouched r ((handleElection e).run r).2 := by
  simp only [handleElection, me_bind_run]
  split
  all_goals
    simp -failIfUnchanged only [electionsDone, run_ite, run_seq, run_pure, publish_run, modifyMe_run,
      me_bind_run, freshId_bind_run]
    repeat' split
  all_goals constructor <;> simp +arith [becomePreMaster_run, becomePreReplica_run]

theorem handleGossip_untouched (g : GossipMsg) (r : ControllerRun) :
    Untouched r ((handleGossip g).run r).2 := by
  simp only [handleGossip, me_bind_run]
  repeat' split
  all_goals exact ⟨rfl, rfl, Nat.le_refl _⟩

/-! ## Client writes, completions and timeouts -/

theorem handleClient_completed (d : ForwardWriteCompleted) (r : ControllerRun) :
    ((handleClient (.forwardedWriteCompleted d)).run r).2 =
      { r with
        ctl := { r.ctl with forwarding := r.ctl.forwarding.settle d.internalCorrId }
        world := { r.world with traffic := r.world.traffic ++ (r.ctl.forwarding.replyTo d.internalCorrId
          (.writeCompleted d.result d.firstPosition d.lastPosition)).toArray } } := by
  obtain ⟨hw, b, hres⟩ := r.ctl.forwarding.complete_run (ε := Empty) d r.world
  simp only [handleClient, me_bind_run]
  rw [onWorld_bind_run, hres, hw, modifyMe_run]

theorem handleClient_timeout (x : Uuid) (r : ControllerRun) :
    ((handleClient (.forwardingTimeout x)).run r).2 =
      { r with
        ctl := { r.ctl with forwarding := r.ctl.forwarding.settle x }
        world := { r.world with traffic := r.world.traffic ++ (r.ctl.forwarding.replyTo x
          (.writeCompleted .forwardTimeout (-1) (-1))).toArray } } := by
  obtain ⟨hw, b, hres⟩ := r.ctl.forwarding.timeout_run (ε := Empty) x r.world
  simp only [handleClient, me_bind_run]
  rw [onWorld_bind_run, hres, hw, modifyMe_run]

/-- A client write is passed on by an elected node or a master, forwarded by a replica unless it
needs the master (then the client is sent to the master), and refused by any other node. -/
theorem handleClient_writeEvents_run (cid : Uuid) (rm : Bool) (evs : List Bytes) (e : Envelope)
    (r : ControllerRun) :
    ((handleClient (.writeEvents cid rm evs e)).run r).2 =
      if r.ctl.state = .preMaster ∨ r.ctl.state = .master then
        { r with out := r.out.push (.client (.writeEvents cid rm evs e)) }
      else if isReplicaState r.ctl.state then
        if rm then
          { r with world := { r.world with traffic := r.world.traffic ++
            (e.replyTraffic (.notHandled (.notMaster r.ctl.masterEndpoints))).toArray } }
        else
          { ctl := { r.ctl with forwarding :=
              ⟨r.ctl.forwarding.pending ++ [(⟨freshIdBase + r.world.fresh⟩, e)]⟩ }
            world := { r.world with fresh := r.world.fresh + 1 }
            out := (r.out.push (.schedule r.ctl.timeouts.forwardingTimeout
              (.client (.forwardingTimeout ⟨freshIdBase + r.world.fresh⟩)))).push
              (.client (.tcpForwardMessage ⟨⟨freshIdBase + r.world.fresh⟩, evs⟩)) }
      else
        { r with world := { r.world with traffic := r.world.traffic ++
          (e.replyTraffic (.notHandled .notReady)).toArray } } := by
  simp only [handleClient, me_bind_run]
  split
  case h_1 hs _ => simp [hs, publish_run]
  case h_2 hs _ => simp [hs, publish_run]
  case h_3 cid' rm' evs' e' heq hpm hm =>
    injection heq with h₃ h₄ h₅ h₆
    subst h₃ h₄ h₅ h₆
    have hleader : ¬(r.ctl.state = .preMaster ∨ r.ctl.state = .master) := fun h => h.elim hpm hm
    rw [if_neg hleader, run_ite]
    split
    · rw [run_ite]
      split
      · rw [onWorld_run, Envelope.reply_run]
      · rw [onWorld_bind_run, ForwardingProxy.register_run]
        rfl
    · rw [onWorld_run, Envelope.reply_run]
  all_goals rename_i heq; cases heq

/-! ## One step of the table -/

/-- The forwarded write a handled message registered: the identifier of the write it passed on to
the master, with the envelope of the client write it came from. -/
def Handled.registration? (g : Handled) : Option (Uuid × Envelope) :=
  match g.message with
  | .client (.writeEvents _ _ _ e) => (g.published.findSome? Message.forwardedId?).map (·, e)
  | _ => none

theorem Handled.sent_of {c : Controller} {w : World} {m : Message} {A : List Traffic}
    (h : ((handle m).run { ctl := c, world := w }).2.world.traffic = w.traffic ++ A.toArray) :
    (Handled.of c w m).sent = A := by
  simp [Handled.of, h]

/-- How one handled message `g` moves the forwarding table from `p` to `p'`, with `f` identifiers
made before it and `f'` after it. -/
inductive TableStep (p : ForwardingProxy) (f : Nat) (g : Handled) : ForwardingProxy → Nat → Prop
  /-- A client write forwarded to the master is parked under the next identifier; nothing is
  sent. -/
  | register (e : Envelope) (hreg : g.registration? = some (⟨freshIdBase + f⟩, e))
      (hsent : g.sent = []) : TableStep p f g ⟨p.pending ++ [(⟨freshIdBase + f⟩, e)]⟩ (f + 1)
  /-- A completion or a timeout takes its write out of the table, and replies to it if it
  waited. -/
  | settle (x : Uuid) (resp : ClientResponse) (hs : g.message.settlement? = some (x, resp))
      (hsent : g.sent = p.replyTo x resp) : TableStep p f g (p.settle x) f
  /-- Any other message leaves the table alone, and replies at most once, to the client write it
  carries. -/
  | other {f' : Nat} (hs : g.message.settlement? = none) (hreg : g.registration? = none)
      (hf : f ≤ f')
      (hsent : g.sent = [] ∨ ∃ cid rm evs e resp,
        g.message = .client (.writeEvents cid rm evs e) ∧ g.sent = e.replyTraffic resp) :
      TableStep p f g p f'

theorem Handled.eq_writeEvents_of_registration {g : Handled} {x : Uuid} {e : Envelope}
    (h : g.registration? = some (x, e)) :
    ∃ cid rm evs, g.message = .client (.writeEvents cid rm evs e) := by
  unfold Handled.registration? at h
  split at h
  · rename_i cid rm evs e' hm
    obtain ⟨y, -, hy⟩ := Option.map_eq_some_iff.1 h
    cases hy
    exact ⟨cid, rm, evs, hm⟩
  · cases h

/-- A message that registers a write settles none. -/
theorem Handled.settles_of_registration {g : Handled} {x y : Uuid} {e : Envelope}
    (h : g.registration? = some (x, e)) : g.message.settles y = false := by
  obtain ⟨cid, rm, evs, hm⟩ := g.eq_writeEvents_of_registration h
  rw [hm]
  rfl

/-- A completion or a timeout registers nothing. -/
theorem Handled.registration_of_settlement {g : Handled} {x : Uuid} {resp : ClientResponse}
    (h : g.message.settlement? = some (x, resp)) : g.registration? = none := by
  cases hr : g.registration? with
  | none => rfl
  | some xe =>
    obtain ⟨cid, rm, evs, hm⟩ := g.eq_writeEvents_of_registration hr
    rw [hm] at h
    cases h

theorem tableStep_of_untouched {c : Controller} {w : World} {m : Message}
    (hu : Untouched { ctl := c, world := w } ((handle m).run { ctl := c, world := w }).2)
    (hs : m.settlement? = none) (hreg : (Handled.of c w m).registration? = none) :
    TableStep c.forwarding w.fresh (Handled.of c w m)
      ((handle m).run { ctl := c, world := w }).2.ctl.forwarding
      ((handle m).run { ctl := c, world := w }).2.world.fresh := by
  rw [hu.forwarding]
  exact .other hs hreg hu.fresh (.inl (Handled.sent_of (by rw [hu.traffic]; simp)))

theorem handle_writeEvents_tableStep (c : Controller) (w : World) (cid : Uuid) (rm : Bool)
    (evs : List Bytes) (e : Envelope) :
    TableStep c.forwarding w.fresh (Handled.of c w (.client (.writeEvents cid rm evs e)))
      ((handle (.client (.writeEvents cid rm evs e))).run { ctl := c, world := w }).2.ctl.forwarding
      ((handle (.client (.writeEvents cid rm evs e))).run { ctl := c, world := w }).2.world.fresh := by
  have h : ((handle (.client (.writeEvents cid rm evs e))).run { ctl := c, world := w }).2 = _ :=
    handleClient_writeEvents_run cid rm evs e { ctl := c, world := w }
  have hs : (Message.client (.writeEvents cid rm evs e)).settlement? = none := rfl
  split at h
  · -- an elected node or a master passes the write on to its storage
    have hsent : (Handled.of c w (.client (.writeEvents cid rm evs e))).sent = [] :=
      Handled.sent_of (by rw [h]; simp)
    have hreg : (Handled.of c w (.client (.writeEvents cid rm evs e))).registration? = none := by
      simp [Handled.registration?, Handled.of, h, Message.forwardedId?]
    rw [h]
    exact .other hs hreg (Nat.le_refl _) (.inl hsent)
  · split at h
    · split at h
      · -- a replica sends a write that needs the master to the master
        have hsent : (Handled.of c w (.client (.writeEvents cid rm evs e))).sent =
            e.replyTraffic (.notHandled (.notMaster c.masterEndpoints)) :=
          Handled.sent_of (by rw [h])
        have hreg : (Handled.of c w (.client (.writeEvents cid rm evs e))).registration? = none := by
          simp [Handled.registration?, Handled.of, h]
        rw [h]
        exact .other hs hreg (Nat.le_refl _) (.inr ⟨cid, rm, evs, e, _, rfl, hsent⟩)
      · -- a replica forwards any other write under the next identifier
        have hsent : (Handled.of c w (.client (.writeEvents cid rm evs e))).sent = [] :=
          Handled.sent_of (by rw [h]; simp)
        have hreg : (Handled.of c w (.client (.writeEvents cid rm evs e))).registration? =
            some (⟨freshIdBase + w.fresh⟩, e) := by
          simp [Handled.registration?, Handled.of, h, List.findSome?, Message.forwardedId?]
        rw [h]
        exact .register e hreg hsent
    · -- any other node refuses the write
      have hsent : (Handled.of c w (.client (.writeEvents cid rm evs e))).sent =
          e.replyTraffic (.notHandled .notReady) :=
        Handled.sent_of (by rw [h])
      have hreg : (Handled.of c w (.client (.writeEvents cid rm evs e))).registration? = none := by
        simp [Handled.registration?, Handled.of, h]
      rw [h]
      exact .other hs hreg (Nat.le_refl _) (.inr ⟨cid, rm, evs, e, _, rfl, hsent⟩)

/-- What one message does to the forwarding table, said once for every message and every
controller. -/
theorem handle_tableStep (c : Controller) (w : World) (m : Message) :
    TableStep c.forwarding w.fresh (Handled.of c w m)
      ((handle m).run { ctl := c, world := w }).2.ctl.forwarding
      ((handle m).run { ctl := c, world := w }).2.world.fresh := by
  cases m with
  | client x =>
    cases x with
    | writeEvents cid rm evs e => exact handle_writeEvents_tableStep c w cid rm evs e
    | forwardedWriteCompleted d =>
      have h : ((handle (.client (.forwardedWriteCompleted d))).run { ctl := c, world := w }).2 = _ :=
        handleClient_completed d { ctl := c, world := w }
      rw [h]
      exact .settle _ _ rfl (Handled.sent_of (by rw [h]))
    | forwardingTimeout x =>
      have h : ((handle (.client (.forwardingTimeout x))).run { ctl := c, world := w }).2 = _ :=
        handleClient_timeout x { ctl := c, world := w }
      rw [h]
      exact .settle _ _ rfl (Handled.sent_of (by rw [h]))
    | tcpForwardMessage f =>
      refine tableStep_of_untouched ?_ rfl rfl
      simp only [handle, handleClient, me_bind_run]
      exact ⟨rfl, rfl, Nat.le_refl _⟩
  | system s => exact tableStep_of_untouched (handleSystem_untouched 2 s _) rfl rfl
  | election e => exact tableStep_of_untouched (handleElection_untouched e _) rfl rfl
  | gossip g => exact tableStep_of_untouched (handleGossip_untouched g _) rfl rfl
  | replication x => exact tableStep_of_untouched (handleReplication_untouched x _) rfl rfl
  | storage _ | schedule _ _ | peerSend _ _ =>
    refine tableStep_of_untouched ?_ rfl rfl
    simp only [handle, me_bind_run, run_ite]
    split <;> exact ⟨rfl, rfl, Nat.le_refl _⟩

theorem TableStep.fresh_le {p p' : ForwardingProxy} {f f' : Nat} {g : Handled}
    (h : TableStep p f g p' f') : f ≤ f' := by
  cases h with
  | register => exact Nat.le_succ f
  | settle => exact Nat.le_refl f
  | other _ _ hf => exact hf

/-- A message registers a write only under the next identifier. -/
theorem TableStep.registration_eq {p p' : ForwardingProxy} {f f' : Nat} {g : Handled}
    {x : Uuid} {e : Envelope} (h : TableStep p f g p' f') (hg : g.registration? = some (x, e)) :
    x = ⟨freshIdBase + f⟩ := by
  cases h with
  | register e' hreg =>
    rw [hreg] at hg
    cases hg
    rfl
  | settle _ _ hs => rw [Handled.registration_of_settlement hs] at hg; cases hg
  | other _ hreg => rw [hreg] at hg; cases hg

/-- A client write gets at most one answer from the controller itself, and none when it is
forwarded. -/
theorem TableStep.writeEvents_sent {p p' : ForwardingProxy} {f f' : Nat} {g : Handled}
    (hs : TableStep p f g p' f') {cid : Uuid} {rm : Bool} {evs : List Bytes} {e : Envelope}
    (hm : g.message = .client (.writeEvents cid rm evs e)) :
    g.sent = [] ∨ g.registration? = none ∧ ∃ resp, g.sent = e.replyTraffic resp := by
  cases hs with
  | register _ _ hsent => exact .inl hsent
  | settle x resp hset _ => rw [hm] at hset; cases hset
  | other _ hreg _ hsent =>
    rcases hsent with hsent | ⟨cid', rm', evs', e', resp, hm', hsent⟩
    · exact .inl hsent
    · rw [hm] at hm'
      cases hm'
      exact .inr ⟨hreg, resp, hsent⟩

/-- Messages other than client writes, completions and timeouts send nothing. -/
theorem TableStep.sent_of_other {p p' : ForwardingProxy} {f f' : Nat} {g : Handled}
    (hs : TableStep p f g p' f') (hset : g.message.settlement? = none)
    (hw : ∀ cid rm evs e, g.message ≠ .client (.writeEvents cid rm evs e)) : g.sent = [] := by
  cases hs with
  | register _ _ hsent => exact hsent
  | settle x resp hs' _ => rw [hset] at hs'; cases hs'
  | other _ _ _ hsent =>
    rcases hsent with hsent | ⟨cid, rm, evs, e, resp, hm, -⟩
    · exact hsent
    · exact absurd hm (hw cid rm evs e)

end Controller

end EventStore
