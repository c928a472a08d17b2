import EventStore.Proofs.Controller.Trace

/-!
# A shut-down controller is quiescent

Once the controller is shut down it stays so, and it publishes nothing more on the node's bus
except one kind of message: a client write forwarded to the master is passed on, in every state,
shut down included. Storage, timer and peer messages, gossip and election traffic are dropped
after shutdown explicitly, replication messages by the state each of them is taken in, and system
messages by falling through; client writes are answered to their envelopes, which is not the bus.

`handle_out_of_shutdown` says this for one message, one lemma per dispatcher; the run theorem
`shutdown_passes_on_only_forwarded_writes` follows for every trace from a shut-down controller.
-/

namespace EventStore

/-- Whether a message is a client write forwarded to the master. -/
def Message.isForwardedWrite : Message → Bool
  | .client (.tcpForwardMessage _) => true
  | _ => false

namespace Controller

section OneMessage

variable (c : Controller) (w : World) (h : c.state = .shutdown)
include h

-- In the shut-down state every match of a dispatcher reduces to a branch that publishes
-- nothing, so after the state is rewritten each case closes by evaluation.

theorem handleSystem_out_of_shutdown (s : SystemMsg) :
    ((handleSystem 2 s).run { ctl := c, world := w }).2.out = #[] := by
  rw [handleSystem.eq_2]
  simp only [me_bind_run, h]
  cases s <;> rfl

theorem handleElection_out_of_shutdown (e : ElectionMsg) :
    ((handleElection e).run { ctl := c, world := w }).2.out = #[] := by
  simp only [handleElection, me_bind_run, h]
  rfl

theorem handleGossip_out_of_shutdown (g : GossipMsg) :
    ((handleGossip g).run { ctl := c, world := w }).2.out = #[] := by
  simp only [handleGossip, me_bind_run, h]
  cases g <;> rfl

theorem handleReplication_out_of_shutdown (x : ReplicationMsg) :
    ((handleReplication x).run { ctl := c, world := w }).2.out = #[] := by
  simp only [handleReplication, me_bind_run, h]
  cases x <;> rfl

/-- Client writes are answered to their envelopes, and completions and timeouts go to the
forwarding table; only a forwarded write is published. -/
theorem handleClient_out_of_shutdown (x : ClientMsg) :
    ((handleClient x).run { ctl := c, world := w }).2.out =
      if (Message.client x).isForwardedWrite then #[.client x] else #[] := by
  simp only [handleClient, me_bind_run, h]
  cases x with
  | writeEvents cid rm evs e => exact congrArg ControllerRun.out (onWorld_run _ _)
  | forwardedWriteCompleted d => rw [onWorld_bind_run]; rfl
  | forwardingTimeout x => rw [onWorld_bind_run]; rfl
  | tcpForwardMessage f => rfl

/-- A shut-down controller publishes nothing for a message, unless it is a forwarded write,
which it passes on. -/
theorem handle_out_of_shutdown (m : Message) :
    ((handle m).run { ctl := c, world := w }).2.out = if m.isForwardedWrite then #[m] else #[] := by
  cases m with
  | system s => exact handleSystem_out_of_shutdown c w h s
  | election e => exact handleElection_out_of_shutdown c w h e
  | gossip g => exact handleGossip_out_of_shutdown c w h g
  | replication x => exact handleReplication_out_of_shutdown c w h x
  | client x => exact handleClient_out_of_shutdown c w h x
  | storage _ | schedule _ _ | peerSend _ _ =>
    simp only [handle, me_bind_run, h]
    rfl

end OneMessage

/-- Along every run from a shut-down controller, it stays shut down, and what it publishes for a
message is nothing, except a forwarded write, which it passes on as it came. -/
theorem shutdown_passes_on_only_forwarded_writes (c : Controller) (w : World) (ms : List Message)
    (h : c.state = .shutdown) :
    (handleAll c w ms).1.state = .shutdown ∧
      ∀ g ∈ trace c w ms, g.published = if g.message.isForwardedWrite then [g.message] else [] := by
  refine ⟨handleAll_state_of_shutdown c w ms h, fun g hg => ?_⟩
  -- each entry is one message handled from where the run before it left, still shut down
  obtain ⟨ms₁, m, -, -, rfl⟩ := exists_of_mem_trace hg
  have hs := handleAll_state_of_shutdown c w ms₁ h
  simp only [Handled.of, handle_out_of_shutdown _ _ hs]
  split <;> rfl

/-- A node asked to shut down, whose services did not report in time. -/
def timedOutShutdown : Controller :=
  (handleAll { info := default } {} [.system .requestShutdown, .system .shutdownTimeout]).1

/-- Such a node is shut down, and of a forwarded write handed to it, it passes the write on. -/
theorem timed_out_shutdown_passes_on_forwarded_write :
    timedOutShutdown.state = .shutdown ∧
      ((handleAll timedOutShutdown {} [.client (.tcpForwardMessage ⟨⟨5⟩, []⟩)]).1.state = .shutdown ∧
        ∀ g ∈ trace timedOutShutdown {} [.client (.tcpForwardMessage ⟨⟨5⟩, []⟩)],
          g.published = if g.message.isForwardedWrite then [g.message] else []) :=
  ⟨rfl, shutdown_passes_on_only_forwarded_writes _ _ _ rfl⟩

end Controller

end EventStore
